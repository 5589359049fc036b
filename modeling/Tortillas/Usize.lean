/-
**Machine-sized natural numbers: saturation and rounding division.**

Lengths, indices and counters of a 64-bit program are natural numbers up to `usizeMax`.  The
operations here are the ones whose result differs from the plain operation on natural numbers:
saturating addition and multiplication, and division rounded up.

Main results:

* `divCeil_pos_iff`, `lt_divCeil_iff` — when a rounded quotient exceeds a number;
* `saturatingMul_le_saturatingMul` — saturating multiplication is monotone.
-/

import Mathlib.Algebra.GroupWithZero.Nat
import Mathlib.Tactic.Common
import Mathlib.Data.Nat.Notation

set_option relaxedAutoImplicit false
set_option autoImplicit false

namespace Tortillas

/-- The largest value of a 64-bit `usize`. -/
def usizeMax : ℕ := 2 ^ 64 - 1

/-- Addition that stops at the largest value. -/
def saturatingAdd (a b : ℕ) : ℕ := min (a + b) usizeMax

/-- Multiplication that stops at the largest value. -/
def saturatingMul (a b : ℕ) : ℕ := min (a * b) usizeMax

/-- Division rounded up. -/
def divCeil (a b : ℕ) : ℕ := (a + (b - 1)) / b

theorem saturatingMul_le_saturatingMul {a b : ℕ} (c : ℕ) (h : a ≤ b) :
    saturatingMul a c ≤ saturatingMul b c := by
  have hmul : a * c ≤ b * c := Nat.mul_le_mul_right c h
  unfold saturatingMul
  omega

theorem saturatingMul_of_le {a b : ℕ} (h : a * b ≤ usizeMax) : saturatingMul a b = a * b := by
  unfold saturatingMul
  omega

theorem le_saturatingAdd {a b : ℕ} (ha : a ≤ usizeMax) : a ≤ saturatingAdd a b := by
  unfold saturatingAdd
  omega

theorem saturatingMul_le_usizeMax (a b : ℕ) : saturatingMul a b ≤ usizeMax := by
  unfold saturatingMul
  omega

/-- Adding up numbers stops at the largest value. -/
theorem foldl_saturatingAdd (ns : List ℕ) {a : ℕ} (ha : a ≤ usizeMax) :
    ns.foldl saturatingAdd a = min (a + ns.sum) usizeMax := by
  induction ns generalizing a with
  | nil =>
      rw [List.foldl_nil, List.sum_nil]
      omega
  | cons n ns ih =>
      have hle : saturatingAdd a n ≤ usizeMax := Nat.min_le_right _ _
      rw [List.foldl_cons, ih hle, List.sum_cons, saturatingAdd]
      omega

/-- A position lies below a rounded quotient exactly when its block starts below the length. -/
theorem lt_divCeil_iff {a b k : ℕ} (hb : 0 < b) : k < divCeil a b ↔ k * b < a := by
  rw [divCeil, ← Nat.succ_le_iff, Nat.le_div_iff_mul_le hb, Nat.succ_mul]
  omega

theorem le_divCeil_mul {a b : ℕ} (hb : 0 < b) : a ≤ divCeil a b * b :=
  Nat.le_of_not_lt fun h => Nat.lt_irrefl _ ((lt_divCeil_iff hb).2 h)

theorem divCeil_le_self {a b : ℕ} (hb : 0 < b) : divCeil a b ≤ a :=
  Nat.le_of_not_lt fun h =>
    Nat.not_lt_of_le (Nat.le_mul_of_pos_right a hb) ((lt_divCeil_iff hb).1 h)

theorem divCeil_pos_iff {a b : ℕ} (hb : 0 < b) : 0 < divCeil a b ↔ 0 < a := by
  rw [lt_divCeil_iff hb]
  omega

theorem divCeil_le_divCeil {a a' : ℕ} (b : ℕ) (h : a ≤ a') : divCeil a b ≤ divCeil a' b := by
  unfold divCeil
  exact Nat.div_le_div_right (by omega)

/-- Division rounded up, from the quotient and the remainder. -/
theorem divCeil_eq {a b : ℕ} (hb : 0 < b) :
    divCeil a b = if a % b = 0 then a / b else a / b + 1 := by
  have hdecomp := Nat.div_add_mod a b
  have hmod := Nat.mod_lt a hb
  unfold divCeil
  generalize a / b = q at hdecomp ⊢
  generalize a % b = r at hdecomp hmod ⊢
  subst hdecomp
  split
  · rename_i hzero
    refine Nat.div_eq_of_lt_le ?_ ?_
    · rw [Nat.mul_comm]
      omega
    · rw [Nat.add_mul, Nat.mul_comm q b]
      omega
  · rename_i hne
    refine Nat.div_eq_of_lt_le ?_ ?_
    · rw [Nat.add_mul, Nat.mul_comm q b]
      omega
    · rw [Nat.add_mul, Nat.add_mul, Nat.mul_comm q b]
      omega

/-- What is left over after all parts but the last. -/
theorem sub_mul_divCeil_pred {a b : ℕ} (hb : 0 < b) (hpos : 0 < divCeil a b) :
    b * (divCeil a b - 1) ≤ a ∧ a - b * (divCeil a b - 1) = if a % b = 0 then b else a % b := by
  have hdecomp := Nat.div_add_mod a b
  rw [divCeil_eq hb] at hpos ⊢
  generalize a / b = q at *
  split
  · rename_i hzero
    rw [if_pos hzero] at hpos
    obtain ⟨k, rfl⟩ := Nat.exists_eq_succ_of_ne_zero (Nat.pos_iff_ne_zero.1 hpos)
    rw [Nat.mul_succ] at hdecomp
    rw [Nat.succ_sub_one]
    omega
  · rw [Nat.add_sub_cancel]
    omega
end Tortillas
