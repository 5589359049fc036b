/-
**Byte strings, big-endian words, and readers that may fail or panic.**

Codecs write numbers as big-endian words and read them back from a cursor that moves over a byte
string.  A read past the end of the string does not return an error: it panics.  A decoder that
reads has therefore three outcomes, and that it never takes the third is something to prove.

Main definitions:

* `Bytes`, `ascii` — byte strings, and the bytes of plain text;
* `beBytes`, `beNat` — the big-endian word of a number, and the number of a word;
* `Outcome` — a value, an error, or a panic;
* `Outcome.splitTo`, `Outcome.getUint` — the reads that panic when the bytes run out.

Main results:

* `and_shiftLeft_ne_zero`, `testBit_or_shiftLeft` — testing and setting a bit of a byte;
* `beNat_beBytes` — reading a written word gives the number back, truncated to the width;
* `beBytes_beNat` — writing the number of a word gives the word back;
* `Outcome.bind_eq_ok`, `Outcome.bind_eq_panic` — how two computations in a row end;
* `Outcome.splitTo_append`, `Outcome.getUint_append` — reading what was written in front of
  anything else.
-/

import Mathlib.Data.List.Induction
import Mathlib.Data.Nat.Bitwise
import Mathlib.Tactic.Common

set_option relaxedAutoImplicit false
set_option autoImplicit false

namespace Tortillas

/-- A byte string. -/
abbrev Bytes := List UInt8

/-- The bytes of plain text. -/
def ascii (text : List Char) : Bytes := text.map fun c => UInt8.ofNat c.toNat

/-! ### Big-endian words -/

/-- The lowest `k` bytes of a number, the highest of them first. -/
def beBytes : ℕ → ℕ → Bytes
  | 0, _ => []
  | k + 1, n => beBytes k (n / 256) ++ [UInt8.ofNat n]

/-- The number a big-endian word stands for. -/
def beNat (bs : Bytes) : ℕ := bs.foldl (fun a b => a * 256 + b.toNat) 0

@[simp] theorem length_beBytes (k n : ℕ) : (beBytes k n).length = k := by
  induction k generalizing n with
  | zero => rfl
  | succ k ih => simp [beBytes, ih]

theorem beNat_append_singleton (bs : Bytes) (b : UInt8) :
    beNat (bs ++ [b]) = beNat bs * 256 + b.toNat := by
  simp [beNat, List.foldl_append]

/-- Reading a written word gives the number back, truncated to the width of the word. -/
@[simp] theorem beNat_beBytes (k n : ℕ) : beNat (beBytes k n) = n % 256 ^ k := by
  induction k generalizing n with
  | zero => simp [beBytes, beNat, Nat.mod_one]
  | succ k ih =>
      have hsplit : n % 256 ^ (k + 1) = n % 256 + 256 * (n / 256 % 256 ^ k) := by
        rw [Nat.pow_succ', Nat.mod_mul]
      have hlast : (UInt8.ofNat n).toNat = n % 256 := by simp
      rw [beBytes, beNat_append_singleton, ih, hlast, hsplit, Nat.mul_comm, Nat.add_comm]

/-- Writing the number of a word gives the word back. -/
theorem beBytes_beNat (bs : Bytes) : beBytes bs.length (beNat bs) = bs := by
  induction bs using List.reverseRecOn with
  | nil => rfl
  | append_singleton bs b ih =>
      have hlow : b.toNat < 256 := UInt8.toNat_lt b
      have hhigh : (beNat bs * 256 + b.toNat) / 256 = beNat bs := by omega
      have hbyte : UInt8.ofNat (beNat bs * 256 + b.toNat) = b := by
        apply UInt8.toNat_inj.1
        rw [UInt8.toNat_ofNat']
        omega
      rw [List.length_append, List.length_singleton, beBytes, beNat_append_singleton, hhigh, ih, hbyte]

/-- The first byte of a four-byte word. -/
theorem head?_beBytes_four (n : ℕ) : (beBytes 4 n).head? = some (UInt8.ofNat (n / 16777216)) := by
  simp [beBytes, Nat.div_div_eq_div_mul]

/-! ### Bits of a byte -/

/-- The number of a byte with one bit set. -/
theorem toNat_one_shiftLeft {s : ℕ} (hs : s < 8) :
    ((1 : UInt8) <<< UInt8.ofNat s).toNat = 2 ^ s := by
  have hlt : 2 ^ s < 2 ^ 8 := Nat.pow_lt_pow_right (by decide) hs
  rw [UInt8.toNat_shiftLeft, UInt8.toNat_ofNat_of_lt' (lt_trans hs (by decide)), Nat.mod_eq_of_lt hs]
  simp only [UInt8.toNat_one, Nat.shiftLeft_eq, Nat.one_mul]
  exact Nat.mod_eq_of_lt hlt

/-- Masking a byte with one bit tests that bit. -/
theorem and_shiftLeft_ne_zero {b : UInt8} {s : ℕ} (hs : s < 8) :
    (b &&& 1 <<< UInt8.ofNat s != 0) = b.toNat.testBit s := by
  have hand : (b &&& 1 <<< UInt8.ofNat s).toNat = (b.toNat.testBit s).toNat * 2 ^ s := by
    rw [UInt8.toNat_and, toNat_one_shiftLeft hs, Nat.and_two_pow]
  have hpos : 0 < 2 ^ s := Nat.two_pow_pos s
  cases hbit : b.toNat.testBit s with
  | false =>
      rw [hbit] at hand
      have hzero : b &&& 1 <<< UInt8.ofNat s = 0 := UInt8.toNat_inj.1 (by simpa using hand)
      simp [hzero]
  | true =>
      rw [hbit] at hand
      have hne : b &&& 1 <<< UInt8.ofNat s ≠ 0 := by
        intro hzero
        rw [hzero] at hand
        simp at hand
        omega
      simp [hne]

/-- Setting one bit of a byte leaves the others alone. -/
theorem testBit_or_shiftLeft {b : UInt8} {s t : ℕ} (hs : s < 8) :
    (b ||| 1 <<< UInt8.ofNat s).toNat.testBit t = (b.toNat.testBit t || decide (s = t)) := by
  rw [UInt8.toNat_or, toNat_one_shiftLeft hs, Nat.testBit_or, Nat.testBit_two_pow]

/-! ### Outcomes -/

/-- What a decoder does: return a value, return an error, or panic. -/
inductive Outcome (ε α : Type)
  | ok (a : α)
  | err (e : ε)
  | panic
  deriving DecidableEq, Repr

namespace Outcome

variable {ε α β : Type}

/-- Continue with the value, if there is one. -/
def bind (x : Outcome ε α) (f : α → Outcome ε β) : Outcome ε β :=
  match x with
  | ok a => f a
  | err e => err e
  | panic => panic

instance : Monad (Outcome ε) where
  pure := ok
  bind := bind

@[simp] theorem ok_bind (a : α) (f : α → Outcome ε β) : (ok a >>= f) = f a := rfl

@[simp] theorem err_bind (e : ε) (f : α → Outcome ε β) : ((err e : Outcome ε α) >>= f) = err e := rfl

@[simp] theorem panic_bind (f : α → Outcome ε β) : ((panic : Outcome ε α) >>= f) = panic := rfl

@[simp] theorem pure_eq (a : α) : (pure a : Outcome ε α) = ok a := rfl

/-- A value comes out of two computations in a row when it comes out of the second. -/
theorem bind_eq_ok {x : Outcome ε α} {f : α → Outcome ε β} {b : β} :
    (x >>= f) = ok b ↔ ∃ a, x = ok a ∧ f a = ok b := by
  cases x with
  | ok a => simp
  | err e => simp
  | panic => simp

/-- Two computations in a row panic when the first does, or the second on its value. -/
theorem bind_eq_panic {x : Outcome ε α} {f : α → Outcome ε β} :
    (x >>= f) = panic ↔ x = panic ∨ ∃ a, x = ok a ∧ f a = panic := by
  cases x with
  | ok a => simp
  | err e => simp
  | panic => simp

/-- Split the first `n` bytes off; panics when there are fewer. -/
def splitTo (n : ℕ) (bs : Bytes) : Outcome ε (Bytes × Bytes) :=
  if n ≤ bs.length then ok (bs.take n, bs.drop n) else panic

/-- Read a big-endian word of `k` bytes; panics when there are fewer. -/
def getUint (k : ℕ) (bs : Bytes) : Outcome ε (ℕ × Bytes) :=
  if k ≤ bs.length then ok (beNat (bs.take k), bs.drop k) else panic

theorem splitTo_of_le {n : ℕ} {bs : Bytes} (h : n ≤ bs.length) :
    (splitTo n bs : Outcome ε _) = ok (bs.take n, bs.drop n) := if_pos h

theorem getUint_of_le {k : ℕ} {bs : Bytes} (h : k ≤ bs.length) :
    (getUint k bs : Outcome ε _) = ok (beNat (bs.take k), bs.drop k) := if_pos h

theorem splitTo_append (xs ys : Bytes) :
    (splitTo xs.length (xs ++ ys) : Outcome ε _) = ok (xs, ys) := by
  simp [splitTo]

theorem getUint_append (k n : ℕ) (ys : Bytes) :
    (getUint k (beBytes k n ++ ys) : Outcome ε _) = ok (n % 256 ^ k, ys) := by
  have hlen : k ≤ (beBytes k n ++ ys).length := by simp
  simp [getUint]

end Outcome

end Tortillas
