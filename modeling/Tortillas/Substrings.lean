/-
**Occurrences of a pattern in a text.**

A text is cut at the first occurrence of a pattern, or every occurrence is replaced, from the front and so that they do
not overlap.  What matters is where an occurrence can begin and end: it does not go across a letter that the pattern
does not have, and there is none at all where a letter of the pattern is missing.

Main definitions:

* `splitOnce` — the texts before and behind the first occurrence;
* `replace` — the text with all occurrences replaced;
* `trimEndMatches` — the text without a letter at its end.

Main results:

* `splitOnce_append` — a text is cut where the pattern first occurs;
* `replace_of_not_mem` — nothing is replaced where a letter of the pattern is missing;
* `replace_append_cons` — **a letter that the pattern does not have separates the replacements**.
-/

import Mathlib.Data.List.Infix
import Mathlib.Tactic.Common

set_option relaxedAutoImplicit false
set_option autoImplicit false

namespace Tortillas

section Prefixes

variable {α : Type} {pattern : List α} {c : α}

/-- An occurrence ends in front of a letter that the pattern does not have. -/
theorem prefix_append_cons (h : c ∉ pattern) (text behind : List α) :
    pattern <+: text ++ c :: behind ↔ pattern <+: text := by
  refine ⟨fun hstarts => ?_, fun hstarts => hstarts.trans (List.prefix_append _ _)⟩
  induction text generalizing pattern with
  | nil =>
      cases pattern with
      | nil => exact List.nil_prefix
      | cons d pattern =>
          rw [List.nil_append, List.cons_prefix_cons] at hstarts
          exact absurd (hstarts.1 ▸ List.mem_cons_self) h
  | cons d text ih =>
      cases pattern with
      | nil => exact List.nil_prefix
      | cons e pattern =>
          rw [List.cons_append, List.cons_prefix_cons] at hstarts
          rw [List.cons_prefix_cons]
          exact ⟨hstarts.1, ih (fun hmem => h (List.mem_cons_of_mem _ hmem)) hstarts.2⟩

end Prefixes

variable {α : Type} [DecidableEq α]

/-- The texts before and behind the first occurrence of a pattern, if there is one. -/
def splitOnce (pattern : List α) : List α → Option (List α × List α)
  | [] => if pattern = [] then some ([], []) else none
  | c :: text =>
      if pattern <+: c :: text then some ([], (c :: text).drop pattern.length)
      else (splitOnce pattern text).map fun parts => (c :: parts.1, parts.2)

/-- The text behind `skip` letters, with every occurrence of a pattern replaced. -/
def replaceFrom (pattern replacement : List α) : ℕ → List α → List α
  | _, [] => []
  | skip + 1, _ :: text => replaceFrom pattern replacement skip text
  | 0, c :: text =>
      if pattern <+: c :: text then
        -- the rest of the occurrence is skipped
        replacement ++ replaceFrom pattern replacement (pattern.length - 1) text
      else c :: replaceFrom pattern replacement 0 text

/-- A text with every occurrence of a pattern replaced.  The pattern is not empty. -/
def replace (pattern replacement text : List α) : List α := replaceFrom pattern replacement 0 text

variable {pattern replacement : List α} {c : α}

/-- A text is cut at a pattern whose first letter does not come before. -/
theorem splitOnce_append {before : List α} (h : c ∉ before) (behind : List α) :
    splitOnce (c :: pattern) (before ++ c :: (pattern ++ behind)) = some (before, behind) := by
  induction before with
  | nil =>
      have hstarts : c :: pattern <+: c :: (pattern ++ behind) := List.prefix_append _ _
      rw [List.nil_append, splitOnce, if_pos hstarts, ← List.cons_append, List.drop_left]
  | cons d before ih =>
      have hstarts : ¬ c :: pattern <+: d :: (before ++ c :: (pattern ++ behind)) := by
        rw [List.cons_prefix_cons]
        rintro ⟨rfl, -⟩
        exact h List.mem_cons_self
      rw [List.cons_append, splitOnce, if_neg hstarts, ih fun hmem => h (List.mem_cons_of_mem _ hmem),
        Option.map_some]

theorem replace_nil : replace pattern replacement [] = [] := rfl

/-- A letter stays if no occurrence begins with it. -/
theorem replace_cons {text : List α} (h : ¬ pattern <+: c :: text) :
    replace pattern replacement (c :: text) = c :: replace pattern replacement text := if_neg h

theorem replaceFrom_length_append (front text : List α) :
    replaceFrom pattern replacement front.length (front ++ text) = replace pattern replacement text := by
  induction front with
  | nil => rfl
  | cons c front ih => exact ih

/-- An occurrence at the front is replaced. -/
theorem replace_append (text : List α) :
    replace (c :: pattern) replacement (c :: pattern ++ text) =
      replacement ++ replace (c :: pattern) replacement text := by
  have hstarts : c :: pattern <+: c :: (pattern ++ text) := List.prefix_append _ _
  rw [List.cons_append, replace, replaceFrom, if_pos hstarts]
  exact congrArg (replacement ++ ·) (replaceFrom_length_append pattern text)

theorem replaceFrom_append_cons (hne : pattern ≠ []) (h : c ∉ pattern) (text behind : List α) {skip : ℕ}
    (hskip : skip ≤ text.length) :
    replaceFrom pattern replacement skip (text ++ c :: behind) =
      replaceFrom pattern replacement skip text ++ c :: replace pattern replacement behind := by
  induction text generalizing skip with
  | nil =>
      obtain rfl : skip = 0 := Nat.le_zero.1 hskip
      have hstarts : ¬ pattern <+: c :: behind := by
        rw [← List.nil_append (c :: behind), prefix_append_cons h, List.prefix_nil]
        exact hne
      exact replace_cons hstarts
  | cons d text ih =>
      cases skip with
      | succ skip => exact ih (Nat.le_of_succ_le_succ hskip)
      | zero =>
          have hiff : pattern <+: d :: (text ++ c :: behind) ↔ pattern <+: d :: text :=
            prefix_append_cons h (d :: text) behind
          rw [List.cons_append, replaceFrom, replaceFrom]
          by_cases hstarts : pattern <+: d :: text
          · have hlength : pattern.length - 1 ≤ text.length := Nat.sub_le_of_le_add hstarts.length_le
            rw [if_pos (hiff.2 hstarts), if_pos hstarts, ih hlength, List.append_assoc]
          · rw [if_neg (mt hiff.1 hstarts), if_neg hstarts, ih (Nat.zero_le _), List.cons_append]

/-- **A letter that the pattern does not have separates the replacements.** -/
theorem replace_append_cons (hne : pattern ≠ []) (h : c ∉ pattern) (text behind : List α) :
    replace pattern replacement (text ++ c :: behind) =
      replace pattern replacement text ++ c :: replace pattern replacement behind :=
  replaceFrom_append_cons hne h text behind (Nat.zero_le _)

/-- Nothing is replaced where a letter of the pattern is missing. -/
theorem replace_of_not_mem {text : List α} (hc : c ∈ pattern) (h : c ∉ text) :
    replace pattern replacement text = text := by
  induction text with
  | nil => rfl
  | cons d text ih =>
      rw [replace_cons fun hstarts => h (hstarts.subset hc), ih fun hmem => h (List.mem_cons_of_mem _ hmem)]

/-! ### The end of a text -/

/-- `trim_end_matches`: a text without the letters at its end that are a given one. -/
def trimEndMatches (c : α) : List α → List α
  | [] => []
  | d :: text => if trimEndMatches c text = [] ∧ d = c then [] else d :: trimEndMatches c text

theorem trimEndMatches_append {front : List α} (h : c ∉ front) (text : List α) :
    trimEndMatches c (front ++ text) = front ++ trimEndMatches c text := by
  induction front with
  | nil => rfl
  | cons d front ih =>
      have hne : d ≠ c := fun heq => h (heq ▸ List.mem_cons_self)
      rw [List.cons_append, trimEndMatches, if_neg fun hand => hne hand.2,
        ih fun hmem => h (List.mem_cons_of_mem _ hmem), List.cons_append]

end Tortillas
