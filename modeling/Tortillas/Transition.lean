/-
**Runs of a labelled transition system, and how invariants are carried along them.**

A system has initial states and steps labelled by inputs.  What is asked of such a system is
mostly of the form "in every state of every run …", and sometimes only of the runs all of whose
steps meet a condition: a condition on the state before the step and on the input.

A system that writes down what happens leaves a log, the latest entry last, and statements about the order of events say
that every entry meets a condition on the entries before it.  Calls that are under way at the same time stand in a list,
where a call that goes on is replaced at its place.

Main definitions:

* `System` — initial states and labelled steps;
* `System.Reach` — the states of the runs all of whose steps meet a condition;
* `System.startingAt` — the same system started in a given state;
* `System.Along` — every step of a list of inputs meets a condition;
* `Justified` — every entry of a log meets a condition on the entries before it.

Main results:

* `System.Reach.invariant` — **the invariant rule**: what holds initially and is kept by every
  step that meets the condition holds in every state reached;
* `System.Reach.strengthen` — an invariant already established may be used in proving another;
* `System.Reach.mono` — the condition may be weakened;
* `System.Along.invariant`, `System.Along.imp` — the rule for a list of inputs, and what follows from the
  condition at each of its steps;
* `System.along_iff` — a property that a step keeps exactly when it meets the condition;
* `System.Reach.along`, `System.Reach.foldl`, `System.Reach.foldlM` — a list of inputs makes a run;
* `justified_append` — **a log is justified when its front is, and its end behind the front**;
* `countP_set_add` — **the number of calls in a condition, after one has gone on**.
-/

import Mathlib.Data.List.Basic
import Mathlib.Data.Nat.Notation
import Mathlib.Tactic.TypeStar

set_option relaxedAutoImplicit false
set_option autoImplicit false

namespace Tortillas

/-- A labelled transition system: the initial states, and what a step on an input may do. -/
structure System (σ ι : Type*) where
  init : σ → Prop
  step : σ → ι → σ → Prop

namespace System

variable {σ ι : Type*} {S : System σ ι} {G : σ → ι → Prop}

/-- The states of the runs from an initial state all of whose steps meet the condition `G`. -/
inductive Reach (S : System σ ι) (G : σ → ι → Prop) : σ → Prop
  | init {s : σ} (h : S.init s) : Reach S G s
  | step {s t : σ} {i : ι} (hs : Reach S G s) (hG : G s i) (h : S.step s i t) : Reach S G t

/-- The same steps from a given state. -/
def startingAt (S : System σ ι) (s : σ) : System σ ι := { S with init := (· = s) }

/-- **The invariant rule.** -/
theorem Reach.invariant {I : σ → Prop} (h₀ : ∀ s, S.init s → I s)
    (hstep : ∀ s i t, I s → G s i → S.step s i t → I t) {s : σ} (hs : S.Reach G s) : I s := by
  induction hs with
  | init h => exact h₀ _ h
  | step _ hG h ih => exact hstep _ _ _ ih hG h

/-- The invariant rule relative to an invariant `J` that is already known to hold. -/
theorem Reach.strengthen {I J : σ → Prop} (hJ : ∀ s, S.Reach G s → J s)
    (h₀ : ∀ s, S.init s → I s)
    (hstep : ∀ s i t, J s → I s → G s i → S.step s i t → I t) {s : σ} (hs : S.Reach G s) :
    I s := by
  induction hs with
  | init h => exact h₀ _ h
  | step hs hG h ih => exact hstep _ _ _ (hJ _ hs) ih hG h

/-- A run whose steps meet a condition is one whose steps meet a weaker one. -/
theorem Reach.mono {G' : σ → ι → Prop} (hG : ∀ s i, G s i → G' s i) {s : σ} (hs : S.Reach G s) :
    S.Reach G' s := by
  induction hs with
  | init h => exact .init h
  | step _ hGs h ih => exact .step ih (hG _ _ hGs) h

/-- Each step of a list of inputs, for steps that are a function, meets the condition. -/
def Along (G : σ → ι → Prop) (f : σ → ι → σ) : σ → List ι → Prop
  | _, [] => True
  | s, i :: inputs => G s i ∧ Along G f (f s i) inputs

/-- Two conditions that agree in the states of an invariant agree along every run. -/
theorem along_congr {I : σ → Prop} {G G' : σ → ι → Prop} {f : σ → ι → σ}
    (hstep : ∀ s i, I s → I (f s i)) (h : ∀ s i, I s → (G s i ↔ G' s i)) (inputs : List ι) {s : σ}
    (hs : I s) : Along G f s inputs ↔ Along G' f s inputs := by
  induction inputs generalizing s with
  | nil => exact Iff.rfl
  | cons i inputs ih => exact and_congr (h s i hs) (ih (hstep s i hs))

/-- **The invariant rule for a list of inputs.** -/
theorem Along.invariant {I : σ → Prop} {f : σ → ι → σ} (hstep : ∀ s i, I s → G s i → I (f s i))
    {inputs : List ι} {s : σ} (h : Along G f s inputs) (hs : I s) : I (inputs.foldl f s) := by
  induction inputs generalizing s with
  | nil => exact hs
  | cons i inputs ih => exact ih h.2 (hstep s i hs h.1)

/-- A condition that follows from another in the states of an invariant follows along every run. -/
theorem Along.imp {I : σ → Prop} {G' : σ → ι → Prop} {f : σ → ι → σ}
    (hstep : ∀ s i, I s → G s i → I (f s i)) (hG : ∀ s i, I s → G s i → G' s i) {inputs : List ι}
    {s : σ} (h : Along G f s inputs) (hs : I s) : Along G' f s inputs := by
  induction inputs generalizing s with
  | nil => trivial
  | cons i inputs ih => exact ⟨hG s i hs h.1, ih h.2 (hstep s i hs h.1)⟩

/-- What a step keeps, in the states of an invariant, exactly when it meets the condition, is kept by a run exactly
when all its steps meet it. -/
theorem along_iff {I P : σ → Prop} {f : σ → ι → σ} (hstep : ∀ s i, I s → I (f s i))
    (h : ∀ s i, I s → (P (f s i) ↔ P s ∧ G s i)) (inputs : List ι) {s : σ} (hs : I s) :
    P (inputs.foldl f s) ↔ P s ∧ Along G f s inputs := by
  induction inputs generalizing s with
  | nil => exact (and_iff_left trivial).symm
  | cons i inputs ih =>
      rw [List.foldl_cons, ih (hstep s i hs), h s i hs, and_assoc]
      exact Iff.rfl

/-- A list of inputs makes a run, when each of them makes a step that meets the condition. -/
theorem Reach.steps {f : σ → ι → σ} {inputs : List ι} {s : σ} (hs : S.Reach G s)
    (h : Along (fun s i => G s i ∧ S.step s i (f s i)) f s inputs) : S.Reach G (inputs.foldl f s) := by
  induction inputs generalizing s with
  | nil => exact hs
  | cons i inputs ih => exact ih (hs.step h.1.1 h.1.2) h.2

/-- The same, when all inputs make steps. -/
theorem Reach.along {f : σ → ι → σ} (hf : ∀ s i, S.step s i (f s i)) {inputs : List ι} {s : σ}
    (hs : S.Reach G s) (h : Along G f s inputs) : S.Reach G (inputs.foldl f s) :=
  hs.steps (h.imp (I := fun _ => True) (fun _ _ _ _ => trivial) (fun s i _ hG => ⟨hG, hf s i⟩) trivial)

/-- A list of inputs makes a run. -/
theorem Reach.foldl {f : σ → ι → σ} (hf : ∀ s i, S.step s i (f s i)) (inputs : List ι) {s : σ}
    (hs : S.Reach (fun _ _ => True) s) :
    S.Reach (fun _ _ => True) (inputs.foldl f s) := by
  refine hs.along hf ?_
  clear hs
  induction inputs generalizing s with
  | nil => trivial
  | cons i inputs ih => exact ⟨trivial, ih⟩

/-- The same for steps that can fail. -/
theorem Reach.foldlM {f : σ → ι → Option σ} (hf : ∀ s i t, f s i = some t → S.step s i t) {inputs : List ι}
    {s t : σ} (hs : S.Reach (fun _ _ => True) s) (h : inputs.foldlM f s = some t) :
    S.Reach (fun _ _ => True) t := by
  induction inputs generalizing s with
  | nil =>
      cases h
      exact hs
  | cons i inputs ih =>
      obtain ⟨u, hu, ht⟩ := Option.bind_eq_some_iff.1 h
      exact ih (hs.step trivial (hf s i u hu)) ht

/-- What a list of inputs is computed to come to is reached. -/
theorem Reach.exists_foldlM {f : σ → ι → Option σ} (hf : ∀ s i t, f s i = some t → S.step s i t) {s : σ}
    (hs : S.Reach (fun _ _ => True) s) (inputs : List ι) {P : σ → Bool}
    (h : (inputs.foldlM f s).any P = true) : ∃ t, S.Reach (fun _ _ => True) t ∧ P t = true := by
  cases hrun : inputs.foldlM f s with
  | none =>
      rw [hrun] at h
      cases h
  | some t =>
      rw [hrun] at h
      exact ⟨t, hs.foldlM hf hrun, h⟩

/-- The same for steps that are only taken when they meet the condition. -/
theorem Reach.exists_guarded [∀ s i, Decidable (G s i)] {f : σ → ι → Option σ}
    (hf : ∀ s i t, f s i = some t → S.step s i t) {s : σ} (hs : S.Reach G s) (inputs : List ι)
    {P : σ → Bool}
    (h : (inputs.foldlM (fun s i => if G s i then f s i else none) s).any P = true) :
    ∃ t, S.Reach G t ∧ P t = true := by
  induction inputs generalizing s with
  | nil => exact ⟨s, hs, h⟩
  | cons i inputs ih =>
      rw [List.foldlM_cons] at h
      by_cases hG : G s i
      · rw [if_pos hG] at h
        cases hstep : f s i with
        | none =>
            rw [hstep] at h
            cases h
        | some u =>
            rw [hstep] at h
            exact ih (hs.step hG (hf s i u hstep)) h
      · rw [if_neg hG] at h
        cases h

end System

/-! ### Logs -/

section Log

variable {α : Type*} {P : List α → α → Prop} {log new : List α}

/-- Every entry of the log meets the condition on the entries before it. -/
def Justified (P : List α → α → Prop) (log : List α) : Prop :=
  ∀ pre e post, log = pre ++ e :: post → P pre e

theorem justified_nil : Justified P [] := by
  intro pre e post h
  simp at h

/-- **A log is justified when its front is, and its end behind the front.** -/
theorem justified_append :
    Justified P (log ++ new) ↔ Justified P log ∧ Justified (fun pre e => P (log ++ pre) e) new := by
  constructor
  · intro h
    refine ⟨?_, ?_⟩
    · rintro pre e post rfl
      exact h pre e (post ++ new) (by simp)
    · rintro pre e post rfl
      exact h (log ++ pre) e post (by simp)
  · rintro ⟨hlog, hnew⟩ pre e post h
    rcases List.append_eq_append_iff.1 h with ⟨mid, rfl, rfl⟩ | ⟨mid, rfl, hmid⟩
    · exact hnew mid e post rfl
    · -- the entry is the last one of the front, or stands before it
      cases mid with
      | nil =>
          have := hnew [] e post (by simpa using hmid.symm)
          simpa using this
      | cons d mid =>
          obtain ⟨rfl, rfl⟩ := List.cons.inj hmid
          exact hlog pre e mid rfl

theorem Justified.concat {e : α} (h : Justified P log) (he : P log e) : Justified P (log ++ [e]) := by
  refine justified_append.2 ⟨h, ?_⟩
  intro pre d post hd
  cases pre with
  | nil =>
      obtain ⟨rfl, -⟩ := List.cons.inj hd
      simpa using he
  | cons b pre => simp at hd

/-- Entries that are justified wherever they stand behind the front. -/
theorem Justified.append_of_forall (h : Justified P log)
    (hnew : ∀ e ∈ new, ∀ mid, mid <+: new → P (log ++ mid) e) : Justified P (log ++ new) := by
  refine justified_append.2 ⟨h, ?_⟩
  rintro pre e post rfl
  exact hnew e (by simp) pre (List.prefix_append ..)

end Log

/-! ### Tables of calls -/

section Calls

variable {α : Type*} {calls : List α} {k : ℕ} {call call' : α}

/-- **The number of calls in a condition, after one has gone on.** -/
theorem countP_set_add (p : α → Bool) (h : calls[k]? = some call) (call' : α) :
    (calls.set k call').countP p + (if p call then 1 else 0) =
      calls.countP p + if p call' then 1 else 0 := by
  obtain ⟨hk, hget⟩ := List.getElem?_eq_some_iff.1 h
  rw [List.countP_set hk, hget]
  by_cases hp : p call = true
  · have hpos : 0 < calls.countP p := List.countP_pos_iff.2 ⟨call, List.mem_of_getElem? h, hp⟩
    rw [if_pos hp]
    omega
  · rw [if_neg hp]
    omega

/-- A call that is not in the condition before and after. -/
theorem countP_set_of_not {p : α → Bool} (h : calls[k]? = some call) (hcall : p call = false)
    (hcall' : p call' = false) : (calls.set k call').countP p = calls.countP p := by
  have hset := countP_set_add p h call'
  simpa [hcall, hcall'] using hset

end Calls

end Tortillas
