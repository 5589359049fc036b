/-
**What the decoder does with any bytes at all.**

`PeerMessages::from_bytes` is given whatever a remote sends.  Each branch checks the length of its
payload before it reads, and answers an error when it is wrong, so that no read runs past the end.
One branch does not: an extended message reads its extended id from a payload that may be empty.
That the dictionary of an extended message does not seem longer than the payload rests on the
parser, whose events stand for bytes it has consumed.

Main definitions:

* `Serde.Frugal` — no event stands for more bytes than the parser has consumed for it;
* `emptyExtended` — the frame of an extended message without a payload.

Main results:

* `getExtendedMessageLength_le` — the dictionary ends within the payload;
* `decodeMessage_eq_panic` — the decoder of a payload panics on an empty extended message only;
* `fromBytes_ne_panic_iff` — **the decoder answers every byte string but those that start with the
  frame of an empty extended message**.
-/

import Tortillas.WireRoundTrip

set_option relaxedAutoImplicit false
set_option autoImplicit false

namespace Tortillas

open Outcome

/-! ### The dictionary of an extended message -/

/-- The parser reports no event whose canonical text is longer than the bytes it has consumed for
it. -/
def Serde.Frugal (s : Serde) : Prop :=
  ∀ payload, ∃ consumed : List ℕ,
    List.Forall₂ (fun (event : BencodeEvent) n => event.width ≤ n) (s.events payload) consumed ∧
      consumed.sum ≤ payload.length

/-- A scan adds up at most the widths of all events. -/
theorem BencodeEvent.scan_le {events : List BencodeEvent} {consumed : List ℕ}
    (h : List.Forall₂ (fun (event : BencodeEvent) n => event.width ≤ n) events consumed) (n : ℕ) :
    scan n events ≤ consumed.sum := by
  induction h generalizing n with
  | nil => exact Nat.zero_le _
  | @cons event k events consumed hk _ ih =>
      have hrest := ih (event.depth n)
      rw [scan, List.sum_cons]
      split
      · omega
      · omega

/-- **The dictionary ends within the payload.** -/
theorem getExtendedMessageLength_le {s : Serde} (hs : s.Frugal) (payload : Bytes) :
    getExtendedMessageLength s payload ≤ payload.length := by
  obtain ⟨consumed, hevents, hsum⟩ := hs payload
  rw [getExtendedMessageLength, extendedMessageLengthLoop_eq, Nat.zero_add]
  exact (BencodeEvent.scan_le hevents 0).trans hsum

theorem readExtendedMessage_ne_panic (s : Serde) (bytes : Bytes) :
    readExtendedMessage s bytes ≠ .panic := by
  unfold readExtendedMessage
  split <;> exact nofun

/-- An extended message can be read unless there is not even an extended id. -/
theorem decodeExtended_eq_panic {s : Serde} (hs : s.Frugal) (payload : Bytes) :
    decodeExtended s payload = .panic ↔ payload = [] := by
  cases payload with
  | nil =>
      refine iff_of_true ?_ rfl
      rfl
  | cons extendedId rest =>
      refine iff_of_false ?_ (List.cons_ne_nil _ _)
      have hle := getExtendedMessageLength_le hs rest
      have hget : (getArray 1 (extendedId :: rest) : Outcome PeerActorError _) =
          .ok (⟨#[extendedId], rfl⟩, rest) := by
        rw [getArray, dif_pos (by simp)]
        rfl
      rw [decodeExtended, hget, ok_bind]
      simp only
      split
      · intro h
        cases h
      · split
        · rw [bind_eq_panic]
          rintro (hpanic | ⟨message, -, hpanic⟩)
          · exact readExtendedMessage_ne_panic s _ hpanic
          · cases hpanic
        · rw [splitTo_of_le hle, ok_bind]
          simp only
          rw [bind_eq_panic]
          rintro (hpanic | ⟨message, -, hpanic⟩)
          · exact readExtendedMessage_ne_panic s _ hpanic
          · cases hpanic

/-! ### Payloads -/

theorem getU32_of_le {bytes : Bytes} (h : 4 ≤ bytes.length) :
    getU32 bytes = .ok (UInt32.ofNat (beNat (bytes.take 4)), bytes.drop 4) := by
  rw [getU32, getUint_of_le h]
  rfl

theorem parseTriplet_ne_panic (payload : Bytes) : parseTriplet payload ≠ .panic := by
  unfold parseTriplet
  split
  · exact nofun
  · rename_i hlen
    rw [getU32_of_le (by omega), ok_bind]
    simp only
    rw [getU32_of_le (by rw [List.length_drop]; omega), ok_bind]
    simp only
    rw [getU32_of_le (by simp only [List.length_drop]; omega), ok_bind]
    exact nofun

/-- **The decoder of a payload panics on an empty extended message only.** -/
theorem decodeMessage_eq_panic {s : Serde} (hs : s.Frugal) (id : ℕ) (payload : Bytes) :
    decodeMessage s id payload = .panic ↔ id = 20 ∧ payload = [] := by
  by_cases hid : id = 20
  · subst hid
    rw [decodeMessage, decodeExtended_eq_panic hs]
    exact (and_iff_right rfl).symm
  · refine iff_of_false ?_ fun h => hid h.1
    unfold decodeMessage
    split
    case h_10 => exact absurd rfl hid
    case h_5 =>
      split
      · intro h
        cases h
      · rw [getU32_of_le (by omega), ok_bind]
        intro h
        cases h
    case h_7 =>
      split
      · intro h
        cases h
      · rw [bind_eq_panic]
        rintro (hpanic | ⟨_, -, hpanic⟩)
        · exact parseTriplet_ne_panic payload hpanic
        · cases hpanic
    case h_8 =>
      split
      · intro h
        cases h
      · rw [getU32_of_le (by omega), ok_bind]
        simp only
        rw [getU32_of_le (by rw [List.length_drop]; omega), ok_bind]
        intro h
        cases h
    case h_9 =>
      split
      · intro h
        cases h
      · rw [bind_eq_panic]
        rintro (hpanic | ⟨_, -, hpanic⟩)
        · exact parseTriplet_ne_panic payload hpanic
        · cases hpanic
    all_goals
      intro h
      cases h

/-! ### Byte strings -/

theorem getArray_of_le {ε : Type} {n : ℕ} (bytes : Bytes) (h : n ≤ bytes.length) :
    ∃ a, (getArray n bytes : Outcome ε _) = .ok (a, bytes.drop n) :=
  ⟨_, by rw [getArray, dif_pos h]⟩

/-- What is taken for a handshake is long enough for one. -/
theorem Handshake.fromBytes_ne_panic (bytes : Bytes) : Handshake.fromBytes bytes ≠ .panic := by
  cases bytes with
  | nil =>
      intro h
      cases h
  | cons first bytes =>
      simp only [Handshake.fromBytes]
      split
      · intro h
        cases h
      · rename_i hlen
        rw [List.length_cons] at hlen
        obtain ⟨reserved, hreserved⟩ := getArray_of_le (ε := String) (n := 8)
          (bytes.drop first.toNat) (by rw [List.length_drop]; omega)
        obtain ⟨infoHash, hinfoHash⟩ := getArray_of_le (ε := String) (n := 20)
          ((bytes.drop first.toNat).drop 8) (by simp only [List.length_drop]; omega)
        obtain ⟨peerId, hpeerId⟩ := getArray_of_le (ε := String) (n := 20)
          (((bytes.drop first.toNat).drop 8).drop 20)
          (by simp only [List.length_drop]; omega)
        rw [splitTo_of_le (by omega), ok_bind]
        simp only
        rw [hreserved, ok_bind]
        simp only
        rw [hinfoHash, ok_bind]
        simp only
        rw [hpeerId, ok_bind]
        intro h
        cases h

/-- The frame of an extended message without a payload. -/
def emptyExtended : Bytes := [0, 0, 0, 1, 20]

/-- The four bytes of the number one. -/
theorem beNat_eq_one {a b c d : UInt8} : beNat [a, b, c, d] = 1 ↔ a = 0 ∧ b = 0 ∧ c = 0 ∧ d = 1 := by
  have ha := a.toNat_lt
  have hb := b.toNat_lt
  have hc := c.toNat_lt
  have hd := d.toNat_lt
  have hzero : ∀ x : UInt8, x = 0 ↔ x.toNat = 0 := fun x => UInt8.toNat_inj.symm
  have hone : d = 1 ↔ d.toNat = 1 := UInt8.toNat_inj.symm
  rw [hzero a, hzero b, hzero c, hone]
  simp only [beNat, List.foldl_cons, List.foldl_nil]
  omega

/-- The byte of the number twenty. -/
theorem beNat_eq_twenty {id : UInt8} : beNat [id] = 20 ↔ id = 20 := by
  have hinj : id = 20 ↔ id.toNat = 20 := UInt8.toNat_inj.symm
  rw [hinj]
  simp [beNat]

/-- The length and the id that the frame of an empty extended message announces. -/
theorem starts_emptyExtended_iff {a b c d : UInt8} {rest : Bytes} :
    emptyExtended <+: a :: b :: c :: d :: rest ↔
      beNat [a, b, c, d] = 1 ∧ ∃ more, rest = 20 :: more := by
  rw [beNat_eq_one]
  simp only [emptyExtended, List.cons_prefix_cons, and_assoc, eq_comm (a := (0 : UInt8)),
    eq_comm (a := (1 : UInt8))]
  cases rest with
  | nil => simp
  | cons id more => simp [eq_comm]

/-- **The decoder panics exactly on the frame of an empty extended message**, whatever follows
it. -/
theorem fromBytes_eq_panic {s : Serde} (hs : s.Frugal) (bytes : Bytes) :
    PeerMessages.fromBytes s bytes = .panic ↔ emptyExtended <+: bytes := by
  by_cases hlooks : looksLikeHandshake bytes = true
  · refine iff_of_false ?_ ?_
    · rw [PeerMessages.fromBytes, if_pos hlooks]
      have hne := Handshake.fromBytes_ne_panic bytes
      split
      · intro h
        cases h
      · intro h
        cases h
      · rename_i hpanic
        exact absurd hpanic hne
    · rintro ⟨rest, rfl⟩
      have hfirst : looksLikeHandshake (emptyExtended ++ rest) = false :=
        looksLikeHandshake_frame (n := 1) (by decide) (20 :: rest)
      rw [hfirst] at hlooks
      cases hlooks
  · -- the length, the id and the payload of a frame are read in this order
    rw [PeerMessages.fromBytes, if_neg hlooks]
    by_cases hshort : bytes.length < 4
    · rw [if_pos hshort]
      refine iff_of_false ?_ ?_
      · intro h
        cases h
      · intro h
        have hlen := h.length_le
        simp only [emptyExtended, List.length_cons, List.length_nil] at hlen
        omega
    · obtain ⟨a, b, c, d, rest, rfl⟩ : ∃ a b c d rest, bytes = a :: b :: c :: d :: rest := by
        rcases bytes with _ | ⟨a, _ | ⟨b, _ | ⟨c, _ | ⟨d, rest⟩⟩⟩⟩
        · simp at hshort
        · simp at hshort
        · simp at hshort
        · simp at hshort
        · exact ⟨a, b, c, d, rest, rfl⟩
      rw [if_neg hshort, getUint_of_le (by simp), ok_bind]
      simp only [List.take_succ_cons, List.take_zero, List.drop_succ_cons, List.drop_zero,
        List.length_cons]
      rw [starts_emptyExtended_iff]
      generalize beNat [a, b, c, d] = length
      split
      · refine iff_of_false ?_ ?_
        · intro h
          cases h
        · rintro ⟨rfl, more, rfl⟩
          rename_i hlen
          rw [List.length_cons] at hlen
          omega
      · split
        · rename_i hzero
          refine iff_of_false ?_ ?_
          · intro h
            cases h
          · intro h
            omega
        · split
          · omega
          · rename_i hlen hzero _
            obtain ⟨id, more, rfl⟩ : ∃ id more, rest = id :: more := by
              cases rest with
              | nil =>
                  rw [List.length_nil] at hlen
                  omega
              | cons id more => exact ⟨id, more, rfl⟩
            rw [List.length_cons] at hlen
            rw [getUint_of_le (by simp), ok_bind]
            simp only [List.take_succ_cons, List.take_zero, List.drop_succ_cons, List.drop_zero]
            rw [splitTo_of_le (by omega), ok_bind]
            simp only
            rw [decodeMessage_eq_panic hs]
            rw [beNat_eq_twenty]
            constructor
            · rintro ⟨rfl, hempty⟩
              have hshort := congrArg List.length hempty
              rw [List.length_take, List.length_nil] at hshort
              exact ⟨by omega, more, rfl⟩
            · rintro ⟨rfl, more', hmore⟩
              cases hmore
              exact ⟨rfl, rfl⟩

/-- **The decoder answers every byte string but those that start with the frame of an empty
extended message.** -/
theorem fromBytes_ne_panic_iff (s : Serde) (hs : s.Frugal) (bytes : Bytes) :
    PeerMessages.fromBytes s bytes ≠ .panic ↔ ¬ emptyExtended <+: bytes :=
  not_congr (fromBytes_eq_panic hs bytes)

/-- The parser of the samples consumes what it reports. -/
theorem Sample.frugal_serde : Sample.serde.Frugal := by
  intro payload
  by_cases hstarts : (Bencode.dict Sample.dataEntries).encode <+: payload
  · refine ⟨(Bencode.dict Sample.dataEntries).events.map BencodeEvent.width, ?_, ?_⟩
    · simp only [Sample.serde, if_pos hstarts]
      exact List.forall₂_map_right_iff.2 (List.forall₂_same.2 fun _ _ => le_rfl)
    · exact le_trans (by decide) hstarts.length_le
  · refine ⟨[0], ?_, Nat.zero_le _⟩
    simp only [Sample.serde, if_neg hstarts]
    exact .cons le_rfl .nil

theorem fromBytes_ne_panic_sample :
    Sample.serde.Frugal ∧ PeerMessages.fromBytes Sample.serde [0, 0, 0, 2, 20, 0] ≠ .panic :=
  ⟨Sample.frugal_serde,
    (fromBytes_ne_panic_iff Sample.serde Sample.frugal_serde _).2 (by decide)⟩

/-- **Five bytes of a remote make the decoder panic.** -/
theorem empty_extended_panics :
    Sample.serde.Frugal ∧ PeerMessages.fromBytes Sample.serde [0, 0, 0, 1, 20] = .panic :=
  ⟨Sample.frugal_serde, (fromBytes_eq_panic Sample.frugal_serde _).2 (List.prefix_refl _)⟩

end Tortillas
