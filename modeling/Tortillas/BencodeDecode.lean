/-
**Reading bencoded text back.**

A decoder for bencoded text, and the fact that it reads the canonical text of a value back whatever
follows it.  So the text of a value determines the value, and two values that are written alike are
the same.

Main definitions:

* `Bencode.readInt` — a number from its decimal text;
* `Bencode.decode` — a value from the front of a text, with what is left.

Main results:

* `Bencode.decode_encode` — **the text of a value is read back as the value**;
* `Bencode.encode_injective` — values with the same text are the same.
-/

import Tortillas.Bencode

set_option relaxedAutoImplicit false
set_option autoImplicit false

namespace Tortillas

namespace Bencode

/-! ### Decimal numbers -/

/-- The character of a byte. -/
def charOf (b : UInt8) : Char := Char.ofNat b.toNat

/-- A number from its digits; there has to be one. -/
def readNat (ds : Bytes) : Option ℕ :=
  if ds ≠ [] ∧ ds.all (fun b => (charOf b).isDigit) then some (Nat.ofDigitChars 10 (ds.map charOf) 0)
  else none

/-- A number with a sign in front if it is negative. -/
def readInt : Bytes → Option ℤ
  | [] => none
  | b :: ds =>
      if b = 45 then (readNat ds).map fun n : ℕ => -(n : ℤ)
      else (readNat (b :: ds)).map fun n : ℕ => (n : ℤ)

/-- What is in front of the first occurrence of a byte, and what is behind it. -/
def readUntil (stop : UInt8) : Bytes → Option (Bytes × Bytes)
  | [] => none
  | b :: bs =>
      if b = stop then some ([], bs)
      else (readUntil stop bs).map fun found => (b :: found.1, found.2)

/-- A byte string behind its length. -/
def decodeString (bs : Bytes) : Option (Bytes × Bytes) := do
  let found ← readUntil 58 bs
  let n ← readNat found.1
  if n ≤ found.2.length then some (found.2.take n, found.2.drop n) else none

/-! ### Values -/

mutual

/-- A value from the front of a text, and what is left; the first argument bounds the recursion. -/
def decode : ℕ → Bytes → Option (Bencode × Bytes)
  | 0, _ => none
  | _ + 1, [] => none
  | fuel + 1, b :: bs =>
      if b = 105 then do
        let found ← readUntil 101 bs
        let n ← readInt found.1
        some (int n, found.2)
      else if b = 108 then do
        let (items, rest) ← decodeItems fuel bs
        some (list items, rest)
      else if b = 100 then do
        let (entries, rest) ← decodeEntries fuel bs
        some (dict entries, rest)
      else do
        let (s, rest) ← decodeString (b :: bs)
        some (bytes s, rest)

def decodeItems : ℕ → Bytes → Option (List Bencode × Bytes)
  | 0, _ => none
  | _ + 1, [] => none
  | fuel + 1, b :: bs =>
      if b = 101 then some ([], bs)
      else do
        let (v, rest) ← decode fuel (b :: bs)
        let (items, rest) ← decodeItems fuel rest
        some (v :: items, rest)

def decodeEntries : ℕ → Bytes → Option (List (Bytes × Bencode) × Bytes)
  | 0, _ => none
  | _ + 1, [] => none
  | fuel + 1, b :: bs =>
      if b = 101 then some ([], bs)
      else do
        let (key, rest) ← decodeString (b :: bs)
        let (v, rest) ← decode fuel rest
        let (entries, rest) ← decodeEntries fuel rest
        some ((key, v) :: entries, rest)

end

/-! ### Decimal numbers are read back -/

/-- The digits of a number, as bytes. -/
def digits (n : ℕ) : Bytes := ascii (Nat.toDigits 10 n)

theorem isDigit_bounds {c : Char} (h : c.isDigit) : 48 ≤ c.toNat ∧ c.toNat ≤ 57 := by
  rw [Char.isDigit_iff_toNat] at h
  exact h

theorem charOf_ascii {c : Char} (h : c.isDigit) : charOf (UInt8.ofNat c.toNat) = c := by
  have hbounds := isDigit_bounds h
  rw [charOf, UInt8.toNat_ofNat', Nat.mod_eq_of_lt (by omega), Char.ofNat_toNat]

theorem isDigit_of_mem_toDigits {c : Char} {n : ℕ} (h : c ∈ Nat.toDigits 10 n) : c.isDigit :=
  Nat.isDigit_of_mem_toDigits (by decide) (by decide) h

theorem map_charOf_digits (n : ℕ) : (digits n).map charOf = Nat.toDigits 10 n := by
  rw [digits, ascii, List.map_map]
  refine (List.map_congr_left ?_).trans (List.map_id _)
  intro c hc
  exact charOf_ascii (isDigit_of_mem_toDigits hc)

/-- Digits are bytes in a small range. -/
theorem mem_digits {n : ℕ} {b : UInt8} (h : b ∈ digits n) :
    48 ≤ b.toNat ∧ b.toNat ≤ 57 ∧ (charOf b).isDigit := by
  obtain ⟨c, hc, rfl⟩ := List.mem_map.1 h
  have hdigit := isDigit_of_mem_toDigits hc
  have hbounds := isDigit_bounds hdigit
  rw [charOf_ascii hdigit, UInt8.toNat_ofNat', Nat.mod_eq_of_lt (by omega)]
  exact ⟨hbounds.1, hbounds.2, hdigit⟩

theorem digits_ne_nil (n : ℕ) : digits n ≠ [] := by
  rw [digits, ascii, ne_eq, List.map_eq_nil_iff]
  exact Nat.toDigits_ne_nil

theorem readNat_digits (n : ℕ) : readNat (digits n) = some n := by
  have hall : (digits n).all (fun b => (charOf b).isDigit) = true := by
    rw [List.all_eq_true]
    exact fun b hb => (mem_digits hb).2.2
  rw [readNat, if_pos ⟨digits_ne_nil n, hall⟩, map_charOf_digits, Nat.ofDigitChars_ten_toDigits]

theorem decimal_natCast (n : ℕ) : decimal (n : ℤ) = digits n := by
  rw [decimal, if_neg (by omega), List.nil_append, Int.natAbs_natCast, digits]

theorem decimal_of_neg {n : ℤ} (h : n < 0) : decimal n = 45 :: digits n.natAbs := by
  rw [decimal, if_pos h, digits, ascii, ascii]
  rfl

/-- **A decimal number is read back.** -/
theorem readInt_decimal (n : ℤ) : readInt (decimal n) = some n := by
  by_cases hneg : n < 0
  · rw [decimal_of_neg hneg, readInt, if_pos rfl, readNat_digits]
    simp only [Option.map_some, Option.some.injEq]
    omega
  · obtain ⟨k, rfl⟩ := Int.eq_ofNat_of_zero_le (Int.not_lt.1 hneg)
    rw [decimal_natCast]
    cases hds : digits k with
    | nil => exact absurd hds (digits_ne_nil k)
    | cons b ds =>
        have hb := mem_digits (n := k) (b := b) (by rw [hds]; exact List.mem_cons_self ..)
        rw [readInt, if_neg, ← hds, readNat_digits, Option.map_some]
        rintro rfl
        exact absurd hb.1 (by decide)

/-- A text is read up to the byte behind it. -/
theorem readUntil_append {stop : UInt8} {ds : Bytes} (h : stop ∉ ds) (rest : Bytes) :
    readUntil stop (ds ++ stop :: rest) = some (ds, rest) := by
  induction ds with
  | nil => rw [List.nil_append, readUntil, if_pos rfl]
  | cons b ds ih =>
      have hb : b ≠ stop := fun heq => h (heq ▸ List.mem_cons_self ..)
      have hds : stop ∉ ds := fun hmem => h (List.mem_cons_of_mem _ hmem)
      rw [List.cons_append, readUntil, if_neg hb, ih hds, Option.map_some]

theorem not_mem_digits {n : ℕ} {b : UInt8} (h : 57 < b.toNat) : b ∉ digits n := by
  intro hb
  have hle := (mem_digits hb).2.1
  omega

theorem not_mem_decimal {n : ℤ} {b : UInt8} (h : 57 < b.toNat) : b ∉ decimal n := by
  by_cases hneg : n < 0
  · rw [decimal_of_neg hneg, List.mem_cons, not_or]
    refine ⟨?_, not_mem_digits h⟩
    rintro rfl
    exact absurd h (by decide)
  · obtain ⟨k, rfl⟩ := Int.eq_ofNat_of_zero_le (Int.not_lt.1 hneg)
    rw [decimal_natCast]
    exact not_mem_digits h

/-! ### Values are read back -/

theorem encodeString_eq (b : Bytes) : encodeString b = digits b.length ++ 58 :: b := by
  rw [encodeString, decimal_natCast, List.append_assoc]
  rfl

/-- The text of a byte string begins with a digit. -/
theorem encodeString_cons (s : Bytes) :
    ∃ b bs, encodeString s = b :: bs ∧ 48 ≤ b.toNat ∧ b.toNat ≤ 57 := by
  rw [encodeString_eq]
  cases hds : digits s.length with
  | nil => exact absurd hds (digits_ne_nil _)
  | cons b ds =>
      have hb := mem_digits (n := s.length) (b := b) (by rw [hds]; exact List.mem_cons_self ..)
      exact ⟨b, _, rfl, hb.1, hb.2.1⟩

theorem decodeString_encodeString (s rest : Bytes) :
    decodeString (encodeString s ++ rest) = some (s, rest) := by
  have hcolon : (58 : UInt8) ∉ digits s.length := not_mem_digits (by decide)
  rw [encodeString_eq, List.append_assoc, List.cons_append, decodeString,
    readUntil_append hcolon]
  simp [readNat_digits]

/-- The text of a value begins with a byte that does not end a list. -/
theorem encode_cons (v : Bencode) : ∃ b bs, encode v = b :: bs ∧ b ≠ 101 := by
  cases v with
  | int n => exact ⟨105, _, by rw [encode]; rfl, by decide⟩
  | bytes s =>
      obtain ⟨b, bs, heq, hle⟩ := encodeString_cons s
      refine ⟨b, bs, by rw [encode, heq], ?_⟩
      rintro rfl
      exact absurd hle.2 (by decide)
  | list items => exact ⟨108, _, by rw [encode]; rfl, by decide⟩
  | dict entries => exact ⟨100, _, by rw [encode]; rfl, by decide⟩

mutual

/-- **The text of a value is read back as the value**, whatever follows it. -/
theorem decode_encode : ∀ (v : Bencode) (rest : Bytes) (fuel : ℕ), (encode v).length ≤ fuel →
    decode fuel (encode v ++ rest) = some (v, rest)
  | v, rest, 0, hfuel => by
      obtain ⟨b, bs, heq, -⟩ := encode_cons v
      rw [heq] at hfuel
      simp at hfuel
  | int n, rest, fuel + 1, _ => by
      have hend : (101 : UInt8) ∉ decimal n := not_mem_decimal (by decide)
      have htext : encode (int n) ++ rest = 105 :: (decimal n ++ 101 :: rest) := by
        simp [encode, ascii]
      rw [htext, decode, if_pos rfl, readUntil_append hend]
      simp [readInt_decimal]
  | bytes s, rest, fuel + 1, _ => by
      obtain ⟨b, bs, heq, hge, hle⟩ := encodeString_cons s
      have hstring := decodeString_encodeString s rest
      rw [encode, heq, List.cons_append] at *
      rw [decode, if_neg, if_neg, if_neg, hstring]
      · rfl
      · rintro rfl
        exact absurd hle (by decide)
      · rintro rfl
        exact absurd hle (by decide)
      · rintro rfl
        exact absurd hle (by decide)
  | list items, rest, fuel + 1, hfuel => by
      have htext : encode (list items) ++ rest = 108 :: (encodeItems items ++ 101 :: rest) := by
        simp [encode, ascii]
      have hlen : (encodeItems items).length + 1 ≤ fuel := by
        simp [encode] at hfuel
        omega
      rw [htext, decode, if_neg (by decide), if_pos rfl, decodeItems_encodeItems items rest fuel hlen]
      rfl
  | dict entries, rest, fuel + 1, hfuel => by
      have htext : encode (dict entries) ++ rest =
          100 :: (encodeEntries entries ++ 101 :: rest) := by
        simp [encode, ascii]
      have hlen : (encodeEntries entries).length + 1 ≤ fuel := by
        simp [encode] at hfuel
        omega
      rw [htext, decode, if_neg (by decide), if_neg (by decide), if_pos rfl,
        decodeEntries_encodeEntries entries rest fuel hlen]
      rfl

theorem decodeItems_encodeItems : ∀ (items : List Bencode) (rest : Bytes) (fuel : ℕ),
    (encodeItems items).length + 1 ≤ fuel →
    decodeItems fuel (encodeItems items ++ 101 :: rest) = some (items, rest)
  | items, rest, 0, hfuel => by simp at hfuel
  | [], rest, fuel + 1, _ => by
      rw [encodeItems, List.nil_append, decodeItems, if_pos rfl]
  | v :: items, rest, fuel + 1, hfuel => by
      obtain ⟨b, bs, heq, hb⟩ := encode_cons v
      have hpos : 0 < (encode v).length := by
        simp [heq]
      rw [encodeItems, List.length_append] at hfuel
      have hv := decode_encode v (encodeItems items ++ 101 :: rest) fuel (by omega)
      have hitems := decodeItems_encodeItems items rest fuel (by omega)
      rw [encodeItems, List.append_assoc]
      rw [heq, List.cons_append] at hv ⊢
      rw [decodeItems, if_neg hb, hv]
      simp [hitems]

theorem decodeEntries_encodeEntries : ∀ (entries : List (Bytes × Bencode)) (rest : Bytes)
    (fuel : ℕ), (encodeEntries entries).length + 1 ≤ fuel →
    decodeEntries fuel (encodeEntries entries ++ 101 :: rest) = some (entries, rest)
  | entries, rest, 0, hfuel => by simp at hfuel
  | [], rest, fuel + 1, _ => by
      rw [encodeEntries, List.nil_append, decodeEntries, if_pos rfl]
  | (k, v) :: entries, rest, fuel + 1, hfuel => by
      obtain ⟨b, bs, heq, -, hle⟩ := encodeString_cons k
      have hpos : 0 < (encodeString k).length := by
        simp [heq]
      have hb : b ≠ 101 := by
        rintro rfl
        exact absurd hle (by decide)
      rw [encodeEntries, List.length_append, List.length_append] at hfuel
      have hk := decodeString_encodeString k (encode v ++ (encodeEntries entries ++ 101 :: rest))
      have hv := decode_encode v (encodeEntries entries ++ 101 :: rest) fuel (by omega)
      have hentries := decodeEntries_encodeEntries entries rest fuel (by omega)
      rw [encodeEntries, List.append_assoc, List.append_assoc]
      rw [heq, List.cons_append] at hk ⊢
      rw [decodeEntries, if_neg hb, hk]
      simp [hv, hentries]

end

/-- **Values with the same text are the same.** -/
theorem encode_injective : Function.Injective encode := by
  intro v w h
  have hv := decode_encode v [] (encode v).length le_rfl
  have hw := decode_encode w [] (encode v).length (by rw [h])
  rw [← h, hv] at hw
  exact (Prod.mk.inj (Option.some.inj hw)).1

end Bencode

end Tortillas
