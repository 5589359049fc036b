/-
**Ranked lists.**

A list is sorted by a Boolean comparison that is transitive and total, and its first elements are taken.  Two
elements that are not the same may be ranked the same; where that does not happen, the sorted list is the same
for every order in which the elements came.

Main definitions:

* `Ranks` — a comparison that one can sort by;
* `namesUpTo` — the names of the elements up to a bound of their keys.

Main results:

* `Ranks.mergeSort_congr` — **the sorted list is the same for every order of the elements**;
* `rel_of_mem_take_of_mem_drop` — the first elements are ranked before the others;
* `namesUpTo_take` — **a list that is cut has lost no name, or it has the full number of names**.
-/

import Mathlib.Data.Finset.Card

set_option relaxedAutoImplicit false
set_option autoImplicit false

namespace Tortillas

variable {α : Type*} {le : α → α → Bool}

/-- The comparison is transitive and total. -/
structure Ranks (le : α → α → Bool) : Prop where
  trans : ∀ a b c, le a b = true → le b c = true → le a c = true
  total : ∀ a b, (le a b || le b a) = true

/-- Elements are ranked by a key, byte for byte. -/
theorem ranks_key (key : α → List UInt8) : Ranks fun a b => decide (key a ≤ key b) where
  trans a b c := by
    simp only [decide_eq_true_eq]
    exact List.le_trans
  total a b := by
    simp only [Bool.or_eq_true, decide_eq_true_eq]
    exact List.le_total _ _

namespace Ranks

theorem pairwise_mergeSort (h : Ranks le) (l : List α) : (l.mergeSort le).Pairwise fun a b => le a b = true :=
  List.pairwise_mergeSort h.trans h.total l

/-- **The sorted list is the same for every order of the elements**, if no two of them are ranked the same. -/
theorem mergeSort_congr (h : Ranks le) {l l' : List α} (hperm : l.Perm l')
    (hanti : ∀ a ∈ l, ∀ b ∈ l, le a b = true → le b a = true → a = b) : l.mergeSort le = l'.mergeSort le := by
  have hsorted : (l.mergeSort le).Perm (l'.mergeSort le) :=
    (List.mergeSort_perm l le).trans (hperm.trans (List.mergeSort_perm l' le).symm)
  refine List.Perm.eq_of_pairwise ?_ (h.pairwise_mergeSort l) (h.pairwise_mergeSort l') hsorted
  intro a b ha hb
  rw [List.mem_mergeSort] at ha hb
  exact hanti a ha b (hperm.mem_iff.2 hb)

end Ranks

theorem rel_of_mem_take_of_mem_drop {r : α → α → Prop} {l : List α} (h : l.Pairwise r) {k : ℕ} {a b : α}
    (ha : a ∈ l.take k) (hb : b ∈ l.drop k) : r a b := by
  rw [← List.take_append_drop k l, List.pairwise_append] at h
  exact h.2.2 a ha b hb

/-! ### Names of ranked elements -/

section Names

variable {β : Type*} [DecidableEq β] (key : α → ℕ) (name : α → β)

/-- The names of the elements whose keys are not above the bound. -/
def namesUpTo (l : List α) (bound : ℕ) : Finset β := ((l.filter (key · ≤ bound)).map name).toFinset

variable {key name} {l l' : List α} {bound : ℕ}

theorem mem_namesUpTo {n : β} : n ∈ namesUpTo key name l bound ↔ ∃ a ∈ l, key a ≤ bound ∧ name a = n := by
  simp [namesUpTo, and_assoc]

theorem namesUpTo_mono (h : ∀ a ∈ l, ∃ b ∈ l', key b ≤ key a ∧ name b = name a) :
    namesUpTo key name l bound ⊆ namesUpTo key name l' bound := by
  intro n hn
  obtain ⟨a, ha, hle, rfl⟩ := mem_namesUpTo.1 hn
  obtain ⟨b, hb, hkey, hname⟩ := h a ha
  exact mem_namesUpTo.2 ⟨b, hb, hkey.trans hle, hname⟩

/-- **A list that is sorted and cut** has lost no name up to the bound, or it has as many names up to the bound as
it may have elements. -/
theorem namesUpTo_take (hsorted : l.Pairwise fun a b => key a ≤ key b) (hnames : (l.map name).Nodup) (k : ℕ) :
    namesUpTo key name l bound ⊆ namesUpTo key name (l.take k) bound ∨
      k ≤ (namesUpTo key name (l.take k) bound).card := by
  by_cases hlost : ∃ a ∈ l.drop k, key a ≤ bound
  · obtain ⟨a, ha, hle⟩ := hlost
    right
    -- all that come first are below the one that was lost
    have hall : (l.take k).filter (key · ≤ bound) = l.take k := by
      refine List.filter_eq_self.2 fun b hb => ?_
      exact decide_eq_true ((rel_of_mem_take_of_mem_drop hsorted hb ha).trans hle)
    have hlen : (l.take k).length = k := by
      have hpos := List.length_pos_of_mem ha
      rw [List.length_drop] at hpos
      rw [List.length_take]
      omega
    rw [namesUpTo, hall, List.toFinset_card_of_nodup (hnames.sublist ((List.take_sublist k l).map name)),
      List.length_map, hlen]
  · left
    intro n hn
    obtain ⟨a, ha, hle, rfl⟩ := mem_namesUpTo.1 hn
    rw [← List.take_append_drop k l, List.mem_append] at ha
    rcases ha with ha | ha
    · exact mem_namesUpTo.2 ⟨a, ha, hle, rfl⟩
    · exact absurd ⟨a, ha, hle⟩ hlost

end Names

end Tortillas
