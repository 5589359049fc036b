/-
**Timers of which one handle is held.**

An owner sets timers one after another and keeps the handle of the last one.  Before it sets the next it
aborts the one whose handle it has, so that there is never more than one.  A timer that fires is done, though
its handle is still held.

Main definitions:

* `HeldTimers` — the timers that can still fire, and the handle;
* `HeldTimers.Single`, `HeldTimers.Going` — no timer but the held one can fire, and the held one can.

Main results:

* `HeldTimers.Single.get?_abort` — an abort leaves no timer;
* `HeldTimers.Single.fire`, `HeldTimers.Single.abort`, `HeldTimers.Single.replace` — what keeps it single;
* `HeldTimers.All.fire`, `HeldTimers.All.abort`, `HeldTimers.All.hold` — what is true of each timer when it is
  set stays true.
-/

import Tortillas.HashMap

set_option relaxedAutoImplicit false
set_option autoImplicit false

namespace Tortillas

/-- The timers of an owner. -/
structure HeldTimers (α : Type) where
  handle : Option ℕ
  /-- The timers that have neither fired nor been aborted. -/
  live : HashMap ℕ α
  fresh : ℕ

namespace HeldTimers

variable {α : Type}

def new : HeldTimers α := ⟨none, ∅, 0⟩

/-- The handle is taken, and the timer aborted. -/
def abort (t : HeldTimers α) : HeldTimers α :=
  match t.handle with
  | none => t
  | some timer => { t with handle := none, live := t.live.erase timer }

/-- A timer is set, and its handle is held. -/
def hold (a : α) (t : HeldTimers α) : HeldTimers α :=
  ⟨some t.fresh, t.live.insert t.fresh a, t.fresh + 1⟩

def fire (timer : ℕ) (t : HeldTimers α) : HeldTimers α := { t with live := t.live.erase timer }

/-- No timer is live but the one that is held. -/
def Single (t : HeldTimers α) : Prop := ∀ timer a, t.live.get? timer = some a → t.handle = some timer

/-- The timer that is held is live. -/
def Going (t : HeldTimers α) : Prop := ∃ timer a, t.handle = some timer ∧ t.live.get? timer = some a

/-- A property of each live timer. -/
def All (P : α → Prop) (t : HeldTimers α) : Prop := ∀ timer a, t.live.get? timer = some a → P a

variable {t : HeldTimers α} {P : α → Prop} {a : α}

@[simp] theorem get?_live_new (timer : ℕ) : (new : HeldTimers α).live.get? timer = none := rfl

@[simp] theorem handle_abort (t : HeldTimers α) : t.abort.handle = none := by
  unfold abort
  split
  · assumption
  · rfl

/-- What is live after an abort was live before. -/
theorem get?_of_get?_abort {timer : ℕ} (h : t.abort.live.get? timer = some a) :
    t.handle ≠ some timer ∧ t.live.get? timer = some a := by
  unfold abort at h
  split at h
  · rename_i hnone
    refine ⟨?_, h⟩
    rw [hnone]
    exact (Option.some_ne_none timer).symm
  · rename_i held hheld
    obtain ⟨hne, hlive⟩ := HashMap.get?_of_get?_erase h
    refine ⟨fun hsame => hne ?_, hlive⟩
    exact Option.some_inj.1 (hsame.symm.trans hheld)

/-- An abort leaves no timer, when there is only one. -/
theorem Single.get?_abort (ht : t.Single) (timer : ℕ) : t.abort.live.get? timer = none := by
  cases h : t.abort.live.get? timer with
  | none => rfl
  | some a =>
      obtain ⟨hne, hlive⟩ := get?_of_get?_abort h
      exact absurd (ht timer a hlive) hne

theorem single_new : (new : HeldTimers α).Single := nofun

theorem Single.fire (ht : t.Single) (timer : ℕ) : (t.fire timer).Single :=
  fun other b h => ht other b (HashMap.get?_of_get?_erase h).2

theorem Single.abort (ht : t.Single) : t.abort.Single := by
  intro timer b h
  rw [ht.get?_abort timer] at h
  cases h

/-- The first timer, or one that is set after an abort. -/
theorem single_hold (h : ∀ timer, t.live.get? timer = none) : (t.hold a).Single := by
  intro timer b hlive
  rcases HashMap.get?_of_get?_insert hlive with ⟨heq, -⟩ | ⟨-, hbefore⟩
  · rw [heq]
    rfl
  · rw [h timer] at hbefore
    cases hbefore

theorem Single.replace (ht : t.Single) : (t.abort.hold a).Single := single_hold ht.get?_abort

/-- A timer that has just been set is live. -/
theorem going_hold (a : α) (t : HeldTimers α) : (t.hold a).Going :=
  ⟨t.fresh, a, rfl, HashMap.get?_insert_self ..⟩

theorem not_going_abort (t : HeldTimers α) : ¬t.abort.Going := by
  rintro ⟨timer, b, hheld, -⟩
  rw [handle_abort] at hheld
  cases hheld

theorem all_new : (new : HeldTimers α).All P := nofun

theorem All.fire (ht : t.All P) (timer : ℕ) : (t.fire timer).All P :=
  fun other b h => ht other b (HashMap.get?_of_get?_erase h).2

theorem All.abort (ht : t.All P) : t.abort.All P := fun timer b h => ht timer b (get?_of_get?_abort h).2

theorem All.hold (ht : t.All P) (ha : P a) : (t.hold a).All P := by
  intro timer b h
  rcases HashMap.get?_of_get?_insert h with ⟨-, heq⟩ | ⟨-, hlive⟩
  · rw [heq]
    exact ha
  · exact ht timer b hlive

end HeldTimers

end Tortillas
