/-
**Big-endian words as numbers.**

A word of bytes, the highest of them first, stands for a number.  For words of the same length the comparison byte
for byte is the comparison of the numbers, and the exclusive or byte for byte is the exclusive or of the numbers.

Main results:

* `beNat_cons`, `beNat_lt`, `beNat_inj` — a word in terms of its first byte, its bound, and that it is determined
  by its number;
* `log2_add_of_lt` — the highest bit of a number that is written above another one;
* `beNat_zipWith_xor` — the number of an exclusive or;
* `le_iff_beNat_le` — **words are compared as numbers**.
-/

import Tortillas.Bytes

set_option relaxedAutoImplicit false
set_option autoImplicit false

namespace Tortillas

theorem beNat_lt (bs : Bytes) : beNat bs < 256 ^ bs.length := by
  have h := beNat_beBytes bs.length (beNat bs)
  rw [beBytes_beNat] at h
  rw [h]
  exact Nat.mod_lt _ (Nat.pow_pos (by decide))

theorem beNat_cons (b : UInt8) (bs : Bytes) : beNat (b :: bs) = b.toNat * 256 ^ bs.length + beNat bs := by
  induction bs using List.reverseRecOn with
  | nil => simp [beNat]
  | append_singleton bs last ih =>
      rw [← List.cons_append, beNat_append_singleton, ih, beNat_append_singleton, List.length_append,
        List.length_singleton, Nat.pow_succ, Nat.add_mul, Nat.mul_assoc, Nat.add_assoc]

/-- Words of the same length are the same when their numbers are. -/
theorem beNat_inj {a b : Bytes} (hlen : a.length = b.length) (h : beNat a = beNat b) : a = b := by
  rw [← beBytes_beNat a, ← beBytes_beNat b, hlen, h]

theorem two_pow_eight_mul (n : ℕ) : 256 ^ n = 2 ^ (8 * n) := by
  rw [Nat.pow_mul]

/-- The highest bit of a number with `width` lower bits below it. -/
theorem log2_add_of_lt {high low width : ℕ} (hhigh : high ≠ 0) (hlow : low < 2 ^ width) :
    (high * 2 ^ width + low).log2 = width + high.log2 := by
  obtain ⟨hle, hlt⟩ := (Nat.log2_eq_iff hhigh).1 rfl
  generalize high.log2 = bit at hle hlt ⊢
  have hmin : 2 ^ bit * 2 ^ width ≤ high * 2 ^ width := Nat.mul_le_mul_right _ hle
  have hmax : (high + 1) * 2 ^ width ≤ 2 ^ (bit + 1) * 2 ^ width := Nat.mul_le_mul_right _ hlt
  rw [Nat.add_mul, Nat.one_mul] at hmax
  have hne : high * 2 ^ width + low ≠ 0 := by
    have hpos := Nat.mul_pos (Nat.pos_of_ne_zero hhigh) (Nat.two_pow_pos width)
    omega
  rw [Nat.log2_eq_iff hne, show width + bit + 1 = bit + 1 + width by omega, Nat.add_comm width bit, Nat.pow_add,
    Nat.pow_add _ (bit + 1)]
  exact ⟨by omega, by omega⟩

/-- The number of an exclusive or, byte for byte. -/
theorem beNat_zipWith_xor {a b : Bytes} (hlen : a.length = b.length) :
    beNat (List.zipWith (· ^^^ ·) a b) = beNat a ^^^ beNat b := by
  induction a generalizing b with
  | nil =>
      obtain rfl : b = [] := List.length_eq_zero_iff.1 hlen.symm
      rfl
  | cons x a ih =>
      cases b with
      | nil => cases hlen
      | cons y b =>
          have hrest : a.length = b.length := Nat.succ.inj hlen
          have hzip : (List.zipWith (· ^^^ ·) a b).length = b.length := by
            rw [List.length_zipWith, hrest, Nat.min_self]
          have hbound (bs : Bytes) (hbs : bs.length = b.length) : beNat bs < 2 ^ (8 * b.length) := by
            rw [← hbs, ← two_pow_eight_mul]
            exact beNat_lt bs
          rw [List.zipWith_cons_cons, beNat_cons, beNat_cons, beNat_cons, hzip, hrest, two_pow_eight_mul,
            Nat.mul_comm, Nat.mul_comm x.toNat, Nat.mul_comm y.toNat]
          refine Nat.eq_of_testBit_eq fun i => ?_
          rw [Nat.testBit_xor, Nat.testBit_two_pow_mul_add _ (hbound _ hzip),
            Nat.testBit_two_pow_mul_add _ (hbound a hrest), Nat.testBit_two_pow_mul_add _ (hbound b rfl)]
          split
          · rw [ih hrest, Nat.testBit_xor]
          · rw [UInt8.toNat_xor, Nat.testBit_xor]

/-- **Words are compared as numbers.** -/
theorem lt_iff_beNat_lt {a b : Bytes} (hlen : a.length = b.length) : a < b ↔ beNat a < beNat b := by
  induction a generalizing b with
  | nil =>
      obtain rfl : b = [] := List.length_eq_zero_iff.1 hlen.symm
      simp
  | cons x a ih =>
      cases b with
      | nil => cases hlen
      | cons y b =>
          have hrest : a.length = b.length := Nat.succ.inj hlen
          have ha : beNat a < 256 ^ b.length := hrest ▸ beNat_lt a
          have hb : beNat b < 256 ^ b.length := beNat_lt b
          rw [List.cons_lt_cons_iff, ih hrest, beNat_cons, beNat_cons, hrest, UInt8.lt_iff_toNat_lt,
            ← UInt8.toNat_inj]
          rcases Nat.lt_trichotomy x.toNat y.toNat with hlt | heq | hlt
          · have hmul := Nat.mul_le_mul_right (256 ^ b.length) (Nat.succ_le_of_lt hlt)
            rw [Nat.succ_mul] at hmul
            exact ⟨fun _ => by omega, fun _ => .inl hlt⟩
          · rw [heq]
            omega
          · have hmul := Nat.mul_le_mul_right (256 ^ b.length) (Nat.succ_le_of_lt hlt)
            rw [Nat.succ_mul] at hmul
            omega

theorem le_iff_beNat_le {a b : Bytes} (hlen : a.length = b.length) : a ≤ b ↔ beNat a ≤ beNat b := by
  rw [← List.not_lt, lt_iff_beNat_lt hlen.symm, Nat.not_lt]

end Tortillas
