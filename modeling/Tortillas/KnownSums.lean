/-
**Sums of known and unknown quantities.**

Quantities are added up of which some are not known.  The sum is that of the known ones, and it is not known itself
only if none of them is.  So it may be a known zero, which is not the same.

Main definitions:

* `sumKnown` — the sum of what is known.

Main results:

* `sumKnown_eq` — what is known, added up;
* `sumKnown_perm`, `sumKnown_flatten` — **the order does not matter, and the quantities may be added up in groups**.
-/

import Mathlib.Algebra.BigOperators.Group.List.Basic
import Mathlib.Data.List.Induction
import Mathlib.Data.List.ReduceOption

set_option relaxedAutoImplicit false
set_option autoImplicit false

namespace Tortillas

variable {M : Type} [AddCommMonoid M]

/-- The sum of what is known, if anything is. -/
def sumKnown (quantities : List (Option M)) : Option M :=
  quantities.foldl (fun sum quantity =>
    match quantity with
    | none => sum
    | some q => some (sum.getD 0 + q)) none

/-- What is known, added up. -/
theorem sumKnown_eq (quantities : List (Option M)) :
    sumKnown quantities =
      if quantities.reduceOption = [] then none else some quantities.reduceOption.sum := by
  induction quantities using List.reverseRecOn with
  | nil => rfl
  | append_singleton quantities quantity ih =>
      rw [sumKnown] at ih
      rw [sumKnown, List.foldl_append, ih, List.reduceOption_append]
      cases quantity with
      | none => simp
      | some q =>
          split
          · rename_i hnone
            simp [hnone]
          · simp

/-- What is all known is added up, if there is anything. -/
theorem sumKnown_map_some (quantities : List M) :
    sumKnown (quantities.map some) = if quantities = [] then none else some quantities.sum := by
  have hknown : (quantities.map some).reduceOption = quantities := by
    rw [List.reduceOption, List.filterMap_map]
    exact List.filterMap_some
  rw [sumKnown_eq, hknown]

theorem sumKnown_perm {quantities quantities' : List (Option M)} (h : quantities.Perm quantities') :
    sumKnown quantities = sumKnown quantities' := by
  have hknown : quantities.reduceOption.Perm quantities'.reduceOption := h.filterMap id
  simp only [sumKnown_eq, hknown.sum_eq, ← List.length_eq_zero_iff, hknown.length_eq]

/-- Nothing is known of some groups if nothing is known of what is in them. -/
theorem reduceOption_sumKnown_eq_nil_iff (groups : List (List (Option M))) :
    (groups.map sumKnown).reduceOption = [] ↔ groups.flatten.reduceOption = [] := by
  have hgroup : ∀ group : List (Option M), sumKnown group = none ↔ group.reduceOption = [] := by
    intro group
    rw [sumKnown_eq]
    split
    · rename_i hnone
      exact iff_of_true rfl hnone
    · rename_i hsome
      exact iff_of_false nofun hsome
  induction groups with
  | nil => rfl
  | cons group groups ih =>
      rw [List.map_cons, List.flatten_cons, List.reduceOption_append, List.append_eq_nil_iff]
      refine Iff.trans ?_ (and_congr (hgroup group) ih)
      cases sumKnown group with
      | none => simp
      | some q => simp

theorem sum_reduceOption_sumKnown (groups : List (List (Option M))) :
    (groups.map sumKnown).reduceOption.sum = groups.flatten.reduceOption.sum := by
  induction groups with
  | nil => rfl
  | cons group groups ih =>
      rw [List.map_cons, List.flatten_cons, List.reduceOption_append, List.sum_append, ← ih, sumKnown_eq]
      split
      · rename_i hempty
        rw [List.reduceOption_cons_of_none, hempty, List.sum_nil, zero_add]
      · rw [List.reduceOption_cons_of_some, List.sum_cons]

/-- **Quantities may be added up in groups.** -/
theorem sumKnown_flatten (groups : List (List (Option M))) :
    sumKnown (groups.map sumKnown) = sumKnown groups.flatten := by
  rw [sumKnown_eq, sumKnown_eq, sum_reduceOption_sumKnown]
  simp only [reduceOption_sumKnown_eq_nil_iff]

end Tortillas
