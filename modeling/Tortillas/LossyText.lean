/-
**Where a letter is in a broken text.**

Bytes that are no text are read with replacement characters in the place of what is broken.  A letter of ASCII is never
part of what is broken, and no other letter has its byte.  So the letter stands in the text where its byte does among
the bytes, and whatever is decided by such letters may be decided by the bytes.

Main definitions:

* `Marks` — a text has a letter where the bytes have its byte.

Main results:

* `marks_fromUtf8Lossy` — **a text that is read has every letter of ASCII where the bytes have it**;
* `Marks.count`, `Marks.trimEndMatches` — letters may be counted, and taken away from the end, as bytes.
-/

import Tortillas.Substrings
import Tortillas.UdpWire

set_option relaxedAutoImplicit false
set_option autoImplicit false

namespace Tortillas

/-- The letter stands in the text where the byte does among the bytes; elsewhere letters stand for other bytes. -/
inductive Marks (b : UInt8) (c : Char) : Bytes → Text → Prop
  | nil : Marks b c [] []
  | mark {bytes : Bytes} {text : Text} (h : Marks b c bytes text) : Marks b c (b :: bytes) (c :: text)
  | other {front bytes : Bytes} {d : Char} {text : Text} (hne : front ≠ []) (hfront : b ∉ front) (hd : d ≠ c)
      (h : Marks b c bytes text) : Marks b c (front ++ bytes) (d :: text)

namespace Marks

variable {b : UInt8} {c : Char} {bytes : Bytes} {text : Text}

theorem eq_nil_iff (h : Marks b c bytes text) : bytes = [] ↔ text = [] := by
  cases h with
  | nil => exact iff_of_true rfl rfl
  | mark h => exact iff_of_false (List.cons_ne_nil _ _) (List.cons_ne_nil _ _)
  | other hne hfront hd h => exact iff_of_false (fun heq => hne (List.append_eq_nil_iff.1 heq).1) (List.cons_ne_nil _ _)

theorem count (h : Marks b c bytes text) : bytes.count b = text.count c := by
  induction h with
  | nil => rfl
  | mark h ih => rw [List.count_cons_self, List.count_cons_self, ih]
  | other hne hfront hd h ih =>
      rw [List.count_append, List.count_eq_zero_of_not_mem hfront, Nat.zero_add, List.count_cons_of_ne hd, ih]

protected theorem trimEndMatches (h : Marks b c bytes text) :
    Marks b c (trimEndMatches b bytes) (trimEndMatches c text) := by
  induction h with
  | nil => exact .nil
  | @mark bytes text h ih =>
      rw [Tortillas.trimEndMatches, Tortillas.trimEndMatches]
      by_cases hnil : Tortillas.trimEndMatches b bytes = []
      · rw [if_pos ⟨hnil, rfl⟩, if_pos ⟨ih.eq_nil_iff.1 hnil, rfl⟩]
        exact .nil
      · rw [if_neg fun hand => hnil hand.1, if_neg fun hand => hnil (ih.eq_nil_iff.2 hand.1)]
        exact ih.mark
  | other hne hfront hd h ih =>
      rw [trimEndMatches_append hfront, Tortillas.trimEndMatches, if_neg fun hand => hd hand.2]
      exact ih.other hne hfront hd

end Marks

/-! ### Bytes of ASCII -/

/-- The letter of a byte of ASCII. -/
def letterOf (b : UInt8) : Char := Char.ofNat b.toNat

section Letters

variable {b : UInt8} {c : Char}

theorem toNat_letterOf (hb : b.toNat < 128) : (letterOf b).toNat = b.toNat := by
  have hvalid : b.toNat.isValidChar := Or.inl (by omega)
  rw [letterOf, Char.ofNat, dif_pos hvalid]
  rfl

theorem utf8EncodeChar_letterOf (hb : b.toNat < 128) : String.utf8EncodeChar (letterOf b) = [b] := by
  have hnat : (letterOf b).val.toNat = b.toNat := toNat_letterOf hb
  rw [String.utf8EncodeChar]
  simp only [hnat]
  rw [if_pos (by omega), UInt8.ofNat_toNat]

theorem ne_ofNat {n : ℕ} (hb : b.toNat < 128) (hlow : 128 ≤ n) (hhigh : n < 256) : b ≠ UInt8.ofNat n := by
  rintro rfl
  rw [UInt8.toNat_ofNat_of_lt' hhigh] at hb
  omega

/-- No other letter has the byte of a letter of ASCII. -/
theorem not_mem_utf8EncodeChar (hb : b.toNat < 128) (hc : c ≠ letterOf b) : b ∉ String.utf8EncodeChar c := by
  rw [String.utf8EncodeChar]
  split
  · rename_i hle
    rw [List.mem_singleton]
    rintro rfl
    rw [letterOf, UInt8.toNat_ofNat_of_lt' (show _ < 256 by omega)] at hc
    exact hc (Char.ofNat_toNat c).symm
  · split
    · simp only [List.mem_cons, List.not_mem_nil, or_false, not_or]
      exact ⟨ne_ofNat hb (by omega) (by omega), ne_ofNat hb (by omega) (by omega)⟩
    · split
      · simp only [List.mem_cons, List.not_mem_nil, or_false, not_or]
        exact ⟨ne_ofNat hb (by omega) (by omega), ne_ofNat hb (by omega) (by omega),
          ne_ofNat hb (by omega) (by omega)⟩
      · simp only [List.mem_cons, List.not_mem_nil, or_false, not_or]
        exact ⟨ne_ofNat hb (by omega) (by omega), ne_ofNat hb (by omega) (by omega),
          ne_ofNat hb (by omega) (by omega), ne_ofNat hb (by omega) (by omega)⟩

end Letters

/-! ### Reading -/

section Reading

variable {b : UInt8} {bytes : Bytes}

/-- What is read is an encoded letter. -/
theorem eq_append_of_utf8DecodeChar {c : Char} (h : ByteArray.utf8DecodeChar? ⟨bytes.toArray⟩ 0 = some c) :
    ∃ rest, bytes = String.utf8EncodeChar c ++ rest := by
  obtain ⟨rest, hrest⟩ := ByteArray.exists_of_utf8DecodeChar?_eq_some h
  refine ⟨rest.data.toList, ?_⟩
  have hdata := congrArg (fun array => array.data.toList) hrest
  simpa using hdata

/-- A letter of ASCII is never broken. -/
theorem utf8DecodeChar_cons (hb : b.toNat < 128) :
    ByteArray.utf8DecodeChar? ⟨(b :: bytes).toArray⟩ 0 = some (letterOf b) := by
  have h := ByteArray.utf8DecodeChar?_utf8EncodeChar_append (b := ⟨bytes.toArray⟩) (c := letterOf b)
  have harray : [b].toByteArray ++ ⟨bytes.toArray⟩ = (⟨(b :: bytes).toArray⟩ : ByteArray) := by
    refine ByteArray.ext ?_
    simp
  rw [utf8EncodeChar_letterOf hb, harray] at h
  exact h

theorem le_of_continuesChar {second : UInt8} (h : continuesChar second = true) : 128 ≤ second.toNat := by
  rw [continuesChar, Bool.and_eq_true, decide_eq_true_iff, decide_eq_true_iff] at h
  exact UInt8.le_iff_toNat_le.1 h.1

theorem le_of_canFollow {first second : UInt8} (h : canFollow first second = true) : 128 ≤ second.toNat := by
  have hbound : ∀ low high : UInt8, 128 ≤ low.toNat → (decide (low ≤ second) && decide (second ≤ high)) = true →
      128 ≤ second.toNat := by
    intro low high hlow hand
    rw [Bool.and_eq_true, decide_eq_true_iff] at hand
    exact hlow.trans (UInt8.le_iff_toNat_le.1 hand.1)
  rw [canFollow] at h
  split at h
  · exact hbound _ _ (by decide) h
  · split at h
    · exact hbound _ _ (by decide) h
    · split at h
      · exact hbound _ _ (by decide) h
      · split at h
        · exact hbound _ _ (by decide) h
        · exact le_of_continuesChar h

/-- What is broken begins with a byte that is not of ASCII, and has no byte of ASCII. -/
theorem le_of_mem_take_brokenLength {first : UInt8} (hfirst : 128 ≤ first.toNat) :
    ∀ b ∈ (first :: bytes).take (brokenLength (first :: bytes)), 128 ≤ b.toNat := by
  have hone : ∀ b ∈ (first :: bytes).take 1, 128 ≤ b.toNat := by
    intro b hb
    rw [List.take_succ_cons, List.take_zero, List.mem_singleton] at hb
    exact hb ▸ hfirst
  cases bytes with
  | nil => exact hone
  | cons second rest =>
      unfold brokenLength
      dsimp only
      split
      · exact hone
      · rename_i hfollow
        rw [not_or, not_or, Bool.not_eq_false] at hfollow
        have hsecond := le_of_canFollow hfollow.2.2
        have htwo : ∀ b ∈ (first :: second :: rest).take 2, 128 ≤ b.toNat := by
          intro b hb
          simp only [List.take_succ_cons, List.take_zero, List.mem_cons, List.not_mem_nil, or_false] at hb
          rcases hb with rfl | rfl
          · exact hfirst
          · exact hsecond
        split
        · exact htwo
        · cases rest with
          | nil => exact htwo
          | cons third rest =>
              dsimp only
              split
              · rename_i hthird
                intro b hb
                simp only [List.take_succ_cons, List.take_zero, List.mem_cons, List.not_mem_nil, or_false] at hb
                rcases hb with rfl | rfl | rfl
                · exact hfirst
                · exact hsecond
                · exact le_of_continuesChar hthird
              · exact htwo

theorem brokenLength_pos (bytes : Bytes) : 0 < brokenLength bytes := by
  unfold brokenLength
  split
  · split
    · omega
    · split
      · omega
      · split
        · split <;> omega
        · omega
  · omega

theorem marks_fromUtf8LossyUpTo (hb : b.toNat < 128) {n : ℕ} (hn : bytes.length ≤ n) :
    Marks b (letterOf b) bytes (fromUtf8LossyUpTo n bytes) := by
  induction n generalizing bytes with
  | zero =>
      obtain rfl := List.eq_nil_of_length_eq_zero (Nat.le_zero.1 hn)
      exact .nil
  | succ n ih =>
      cases bytes with
      | nil => exact .nil
      | cons first bytes =>
          rw [fromUtf8LossyUpTo]
          cases hdecode : ByteArray.utf8DecodeChar? ⟨(first :: bytes).toArray⟩ 0 with
          | some c =>
              obtain ⟨rest, hrest⟩ := eq_append_of_utf8DecodeChar hdecode
              have hlength := String.length_utf8EncodeChar c
              have hpos := Char.utf8Size_pos c
              have hle : rest.length ≤ n := by
                have heq := congrArg List.length hrest
                rw [List.length_append, hlength] at heq
                omega
              have ih := ih hle
              dsimp only
              rw [hrest, List.drop_left' hlength]
              by_cases hc : c = letterOf b
              · rw [hc, utf8EncodeChar_letterOf hb]
                exact ih.mark
              · refine ih.other (fun hnil => ?_) (not_mem_utf8EncodeChar hb hc) hc
                rw [hnil, List.length_nil] at hlength
                omega
          | none =>
              have hfirst : 128 ≤ first.toNat := by
                refine Nat.le_of_not_lt fun hlt => ?_
                rw [utf8DecodeChar_cons hlt] at hdecode
                cases hdecode
              have hpos := brokenLength_pos (first :: bytes)
              have hle : ((first :: bytes).drop (brokenLength (first :: bytes))).length ≤ n := by
                rw [List.length_drop]
                omega
              have ih := ih hle
              have hother : replacementCharacter ≠ letterOf b := by
                intro heq
                have hnat := congrArg Char.toNat heq
                rw [toNat_letterOf hb] at hnat
                have hreplacement : replacementCharacter.toNat = 0xFFFD := by decide
                omega
              have hne : (first :: bytes).take (brokenLength (first :: bytes)) ≠ [] := by
                rw [ne_eq, List.take_eq_nil_iff, not_or]
                exact ⟨hpos.ne', List.cons_ne_nil _ _⟩
              have hbroken : b ∉ (first :: bytes).take (brokenLength (first :: bytes)) := fun hmem =>
                Nat.not_lt_of_le (le_of_mem_take_brokenLength hfirst b hmem) hb
              have hmarks := ih.other hne hbroken hother
              rw [List.take_append_drop] at hmarks
              exact hmarks

/-- **A text that is read has every letter of ASCII where the bytes have it.** -/
theorem marks_fromUtf8Lossy (hb : b.toNat < 128) (bytes : Bytes) :
    Marks b (letterOf b) bytes (fromUtf8Lossy bytes) := marks_fromUtf8LossyUpTo hb le_rfl

end Reading

end Tortillas
