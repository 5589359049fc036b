/-
**Metadata is gathered piece by piece.**

A torrent from a magnet link gets its info dictionary from a peer, in pieces of 16 KiB that are asked for one
after the other.  `handle_extended_message` appends every piece that comes to the bytes it has, as long as they
do not get longer than the peer has announced, and asks for the piece with the next number; when the bytes are
as long as announced it passes them on to the torrent.

The number of a piece decides only what is asked for next.  A piece that comes twice is appended twice; a piece
that comes early is appended where it does not belong; and an extended handshake that announces a smaller size
makes bytes complete that are too long.

Main definitions:

* `Assembly`, `Assembly.apply` — a peer actor with what it has asked for, received and passed on;
* `Assembly.InTurn` — a piece that is appended is the next one, and no size is taken up that is below what has
  been gathered;
* `metadataPiece` — a piece of metadata;
* `ExtendedInput.Truthful`, `ExtendedInput.GoesOut` — messages about true metadata, handled without a failure.

Main results:

* `PeerActor.takeMetadata_spec`, `PeerActor.beginMetadata_spec` — what the two parts of the handler do;
* `Assembly.step_spec` — what a message does;
* `metadata_in_turn` — **as long as pieces come in turn, metadata is put together in order, and the torrent gets
  it when everything has been answered**;
* `repeated_piece_appended` — a piece that comes twice is passed on as two.
-/

import Tortillas.PeerActor
import Tortillas.Transition

set_option relaxedAutoImplicit false
set_option autoImplicit false

namespace Tortillas

/-! ### Asking and passing on -/

/-- The pieces of metadata that messages ask for. -/
def requestsOf (outbox : List PeerOutput) : List ℕ :=
  outbox.filterMap fun
    | .send (.extended _ (some m) none) => if m.msgType = some .request then m.piece else none
    | _ => none

/-- The metadata that is passed on. -/
def offersOf (outbox : List PeerOutput) : List Bytes :=
  outbox.filterMap fun
    | .tell (.infoBytes bytes) => some bytes
    | _ => none

/-- A piece of metadata in an extended message, and its number. -/
def dataOf (m : ExtendedMessage) (metadata : Option Bytes) : Option (Option ℕ × Bytes) :=
  metadata.bind fun bytes => if m.isBep0009Data then some (m.piece, bytes) else none

namespace PeerInfo

/-- The bytes after a piece, if there is one. -/
def take (info : PeerInfo) (data : Option (Option ℕ × Bytes)) : PeerInfo :=
  (data.bind fun d => info.appendToBytes d.2).getD info

/-- Whether a piece is appended. -/
def takes (info : PeerInfo) (data : Option (Option ℕ × Bytes)) : Bool :=
  (data.bind fun d => info.appendToBytes d.2).isSome

/-- A size is taken up, if there is one. -/
def announce (info : PeerInfo) (size : Option ℕ) : PeerInfo := { info with infoSize := size.getD info.infoSize }

/-- A piece is asked for, if the size is known and bytes are missing. -/
def asks (info : PeerInfo) (sent : Bool) (piece : ℕ) : List ℕ :=
  if 0 < info.infoSize ∧ info.haveAllBytes = false ∧ sent = true then [piece] else []

end PeerInfo

namespace PeerActor

variable {a b c : PeerActor} {env : PeerEnv}

/-- What an actor asks for and passes on between two states. -/
structure Gathers (a b : PeerActor) (requests : List ℕ) (offers : List Bytes) : Prop where
  requests : requestsOf b.outbox = requestsOf a.outbox ++ requests
  offers : offersOf b.outbox = offersOf a.outbox ++ offers

theorem Gathers.refl (a : PeerActor) : Gathers a a [] [] := ⟨(List.append_nil _).symm, (List.append_nil _).symm⟩

theorem Gathers.trans {requests requests' : List ℕ} {offers offers' : List Bytes}
    (h₁ : Gathers a b requests offers) (h₂ : Gathers b c requests' offers') :
    Gathers a c (requests ++ requests') (offers ++ offers') := by
  refine ⟨?_, ?_⟩
  · rw [h₂.requests, h₁.requests, List.append_assoc]
  · rw [h₂.offers, h₁.offers, List.append_assoc]

/-- Nothing is sent. -/
theorem Gathers.silent (h : b.outbox = a.outbox) : Gathers a b [] [] := by
  refine ⟨?_, ?_⟩
  · rw [h, List.append_nil]
  · rw [h, List.append_nil]

theorem requestMetadata_spec (size : Option ℕ) (piece : ℕ) (env : PeerEnv) (a : PeerActor) :
    (a.requestMetadata size piece env).info = a.info.announce size ∧
      Gathers a (a.requestMetadata size piece env) ((a.info.announce size).asks env.sent piece) [] := by
  have hrequest : ∀ a : PeerActor,
      (if 0 < a.info.infoSize ∧ a.info.haveAllBytes = false then
        a.send (.extended a.bep0009
          (some { ExtendedMessage.new with piece := some piece, msgType := some .request }) none) env.sent
      else a).info = a.info ∧
      Gathers a (if 0 < a.info.infoSize ∧ a.info.haveAllBytes = false then
        a.send (.extended a.bep0009
          (some { ExtendedMessage.new with piece := some piece, msgType := some .request }) none) env.sent
      else a) (a.info.asks env.sent piece) [] := by
    intro a
    unfold PeerInfo.asks
    split
    · rename_i hask
      unfold send
      cases env.sent with
      | true =>
          refine ⟨rfl, ?_, ?_⟩
          · simp [hask, requestsOf]
          · simp [offersOf]
      | false => simpa using Gathers.refl a
    · rename_i hask
      rw [if_neg (fun h => hask ⟨h.1, h.2.1⟩)]
      exact ⟨rfl, .refl a⟩
  unfold requestMetadata
  cases size with
  | none => exact hrequest a
  | some size =>
      obtain ⟨hinfo, hgathers⟩ := hrequest { a with info := { a.info with infoSize := size } }
      exact ⟨hinfo, hgathers.requests, hgathers.offers⟩

/-- **The part that takes in a piece.**  When a piece is appended and bytes are still missing, the next one is
asked for. -/
theorem takeMetadata_spec {m : ExtendedMessage} {metadata : Option Bytes}
    (h : a.takeMetadata m metadata env = some b) :
    (a.info.takes (dataOf m metadata) = true ∧ (a.info.take (dataOf m metadata)).haveAllBytes = false ∧
        ∃ piece, m.piece = some piece ∧ b.info = (a.info.take (dataOf m metadata)).announce m.metadataSize ∧
          Gathers a b (b.info.asks env.sent (piece + 1)) []) ∨
      ((a.info.takes (dataOf m metadata) = true → (a.info.take (dataOf m metadata)).haveAllBytes = true) ∧
        b.info = a.info.take (dataOf m metadata) ∧ Gathers a b [] []) := by
  unfold takeMetadata at h
  unfold PeerInfo.takes PeerInfo.take dataOf
  cases metadata with
  | none =>
      cases h
      exact .inr ⟨nofun, rfl, .refl _⟩
  | some bytes =>
      dsimp only at h
      split at h
      · rename_i hdata
        cases h
        simp only [Option.bind_some, hdata]
        exact .inr ⟨nofun, rfl, .refl _⟩
      · rename_i hdata
        have hdata' : m.isBep0009Data = true := by simpa using hdata
        simp only [Option.bind_some, hdata', if_true]
        cases happend : a.info.appendToBytes bytes with
        | none =>
            rw [happend] at h
            cases h
            exact .inr ⟨nofun, rfl, .refl _⟩
        | some info =>
            simp only [happend] at h
            split at h
            · rename_i hall
              cases h
              exact .inr ⟨fun _ => hall, rfl, .silent rfl⟩
            · rename_i hall
              have hall' : info.haveAllBytes = false := by simpa using hall
              cases hpiece : m.piece with
              | none => simp [hpiece] at h
              | some piece =>
                  simp only [hpiece] at h
                  split at h
                  · cases h
                  · cases h
                    obtain ⟨hinfo, hgathers⟩ := requestMetadata_spec m.metadataSize (piece + 1) env
                      { a with info := info }
                    refine .inl ⟨rfl, hall', piece, rfl, hinfo, ?_⟩
                    rw [hinfo]
                    exact ⟨hgathers.requests, hgathers.offers⟩

/-- The message begins the exchange: it names the extension and a size, and the torrent lacks its dictionary. -/
def Begins (m : ExtendedMessage) (env : PeerEnv) : Prop :=
  m.supportsBep0009.isSome = true ∧ m.metadataSize.isSome = true ∧ env.hasInfoDict = some false ∧
    m.piece.getD 0 = 0

/-- **The part that begins to ask.** -/
theorem beginMetadata_spec (m : ExtendedMessage) (env : PeerEnv) (a : PeerActor) :
    (Begins m env ∧ (a.beginMetadata m env).1.info = a.info.announce m.metadataSize ∧
        Gathers a (a.beginMetadata m env).1 ((a.info.announce m.metadataSize).asks env.sent 0) [] ∧
        (a.beginMetadata m env).2 = true) ∨
      (¬Begins m env ∧ (a.beginMetadata m env).1.info = a.info ∧ Gathers a (a.beginMetadata m env).1 [] [] ∧
        (env.hasInfoDict.isSome = true → (a.beginMetadata m env).2 = true)) := by
  unfold beginMetadata Begins
  cases m.supportsBep0009 with
  | none => exact .inr ⟨fun h => (nomatch h.1), rfl, .refl a, fun _ => rfl⟩
  | some id =>
      dsimp only
      cases m.metadataSize with
      | none => exact .inr ⟨fun h => (nomatch h.2.1), rfl, .silent rfl, fun _ => rfl⟩
      | some size =>
          dsimp only
          cases env.hasInfoDict with
          | none => exact .inr ⟨fun h => (nomatch h.2.2.1), rfl, .silent rfl, nofun⟩
          | some known =>
              dsimp only
              split
              · rename_i hfirst
                obtain ⟨hinfo, hgathers⟩ := requestMetadata_spec (some size) 0 env { a with bep0009 := id }
                rw [hfirst.2]
                exact .inl ⟨⟨rfl, rfl, rfl, hfirst.1⟩, hinfo, ⟨hgathers.requests, hgathers.offers⟩, rfl⟩
              · rename_i hfirst
                refine .inr ⟨?_, rfl, .silent rfl, fun _ => rfl⟩
                rintro ⟨-, -, hknown, hpiece⟩
                exact hfirst ⟨hpiece, Option.some_inj.1 hknown⟩

theorem offerInfoBytes_spec (a : PeerActor) :
    a.offerInfoBytes.info = a.info ∧
      Gathers a a.offerInfoBytes [] (if a.info.haveAllBytes then [a.info.infoBytes] else []) := by
  unfold offerInfoBytes
  split
  · refine ⟨rfl, ?_, ?_⟩
    · simp [tell, requestsOf]
    · simp [tell, offersOf]
  · exact ⟨rfl, .refl a⟩

end PeerActor

/-! ### The assembly -/

/-- An extended message, and what its handler learns. -/
structure ExtendedInput where
  extendedId : UInt8
  message : Option ExtendedMessage
  metadata : Option Bytes
  env : PeerEnv

namespace ExtendedInput

/-- The piece of metadata in the message. -/
def data (i : ExtendedInput) : Option (Option ℕ × Bytes) := i.message.bind fun m => dataOf m i.metadata

/-- The size that the message announces. -/
def size (i : ExtendedInput) : Option ℕ := i.message.bind (·.metadataSize)

/-- Whether the message begins the exchange. -/
def Begins (i : ExtendedInput) : Prop := ∃ m, i.message = some m ∧ PeerActor.Begins m i.env

end ExtendedInput

/-- A peer actor, with what it has asked for, received and passed on.  What is passed on is kept with the size
that was announced at the time. -/
structure Assembly where
  actor : PeerActor
  /-- How many pieces have been appended. -/
  taken : ℕ
  received : List (Option ℕ × Bytes)
  announced : List ℕ
  requested : List ℕ
  /-- The requests that have not been answered since. -/
  pending : List ℕ
  offered : List (Bytes × ℕ)

namespace Assembly

/-- What an extended message does; `none` when the actor panics. -/
def apply (s : Assembly) (i : ExtendedInput) : Option Assembly :=
  ({ s.actor with outbox := [] }.handle i.env (.extended i.extendedId i.message i.metadata)).map fun a =>
    { actor := a
      taken := if s.actor.info.takes i.data then s.taken + 1 else s.taken
      received := s.received ++ i.data.toList
      announced := s.announced ++ i.size.toList
      requested := s.requested ++ requestsOf a.outbox
      pending := s.pending.filter (fun piece => i.data.map Prod.fst ≠ some (some piece)) ++ requestsOf a.outbox
      offered := s.offered ++ (offersOf a.outbox).map fun bytes => (bytes, a.info.infoSize) }

/-- A size is taken up after a piece that leaves bytes missing, and when the exchange begins. -/
def TakesUp (s : Assembly) (i : ExtendedInput) : Prop :=
  s.actor.info.takes i.data = true ∧ (s.actor.info.take i.data).haveAllBytes = false ∨ i.Begins

/-- **The condition**: a piece that is appended is the next one, and a size that is taken up is not below what
has been gathered then. -/
structure InTurn (s : Assembly) (i : ExtendedInput) : Prop where
  next : ∀ piece bytes, i.data = some (piece, bytes) → s.actor.info.takes i.data = true →
    piece = some s.taken
  size : ∀ size, i.size = some size → s.TakesUp i →
    size = 0 ∨ (s.actor.info.take i.data).infoBytes.length ≤ size

end Assembly

/-- A peer actor as it starts. -/
def assemblySystem : System Assembly ExtendedInput where
  init s := ∃ id, s = ⟨PeerActor.new id, 0, [], [], [], [], []⟩
  step s i t := s.apply i = some t

/-! ### What a message does -/

namespace Assembly

variable {s t : Assembly} {i : ExtendedInput}

/-- **What a message does to the bytes that are gathered, what it asks for and what it passes on.** -/
inductive Steps (s : Assembly) (i : ExtendedInput) (t : Assembly) : Prop
  | mk (mid : PeerInfo) (asked begun : List ℕ)
      (hmid : (s.actor.info.takes i.data = true ∧ (s.actor.info.take i.data).haveAllBytes = false ∧
          ∃ piece bytes, i.data = some (some piece, bytes) ∧
            mid = (s.actor.info.take i.data).announce i.size ∧ asked = mid.asks i.env.sent (piece + 1)) ∨
        ((s.actor.info.takes i.data = true → (s.actor.info.take i.data).haveAllBytes = true) ∧
          mid = s.actor.info.take i.data ∧ asked = []))
      (hinfo : (i.Begins ∧ t.actor.info = mid.announce i.size ∧ begun = t.actor.info.asks i.env.sent 0) ∨
        (¬i.Begins ∧ t.actor.info = mid ∧ begun = []))
      (hrequested : t.requested = s.requested ++ (asked ++ begun))
      (hpending : t.pending =
        s.pending.filter (fun piece => i.data.map Prod.fst ≠ some (some piece)) ++ (asked ++ begun))
      (hoffered : (∃ offers, t.offered = s.offered ++ offers ∧
        ∀ o ∈ offers, t.actor.info.haveAllBytes = true ∧ o = (t.actor.info.infoBytes, t.actor.info.infoSize)) ∧
        (i.env.hasInfoDict.isSome = true → t.actor.info.haveAllBytes = true →
          (t.actor.info.infoBytes, t.actor.info.infoSize) ∈ t.offered))

/-- A piece that is appended is there. -/
theorem exists_data {info : PeerInfo} {m : ExtendedMessage} {metadata : Option Bytes}
    (h : info.takes (dataOf m metadata) = true) : ∃ bytes, dataOf m metadata = some (m.piece, bytes) := by
  cases metadata with
  | none => cases h
  | some bytes =>
      unfold dataOf at h ⊢
      rw [Option.bind_some] at h ⊢
      split at h
      · rename_i hdata
        exact ⟨bytes, if_pos hdata⟩
      · cases h

/-- What is passed on at the end of the handler. -/
theorem offers_spec {a b : PeerActor} (goesOn : Bool) (offered : List (Bytes × ℕ))
    (hnone : offersOf a.outbox = []) (hb : (if goesOn then a.offerInfoBytes else a) = b) :
    b.info = a.info ∧ requestsOf b.outbox = requestsOf a.outbox ∧
      (∃ offers, offered ++ (offersOf b.outbox).map (fun bytes => (bytes, b.info.infoSize)) = offered ++ offers ∧
        ∀ o ∈ offers, b.info.haveAllBytes = true ∧ o = (b.info.infoBytes, b.info.infoSize)) ∧
      (goesOn = true → b.info.haveAllBytes = true → (b.info.infoBytes, b.info.infoSize) ∈
        offered ++ (offersOf b.outbox).map fun bytes => (bytes, b.info.infoSize)) := by
  obtain ⟨hinfo, hgathers⟩ := PeerActor.offerInfoBytes_spec a
  have hoffers := hgathers.offers
  rw [hnone, List.nil_append] at hoffers
  split at hb
  · subst hb
    rw [hgathers.requests, hinfo, hoffers, List.append_nil]
    refine ⟨rfl, rfl, ⟨_, rfl, ?_⟩, fun _ hall => ?_⟩
    · intro o ho
      split at ho
      · rename_i hall
        rw [List.map_singleton, List.mem_singleton] at ho
        exact ⟨hall, ho⟩
      · cases ho
    · rw [if_pos hall]
      exact List.mem_append_right _ (List.mem_singleton_self _)
  · rename_i hstop
    subst hb
    rw [hnone]
    exact ⟨rfl, rfl, ⟨[], rfl, nofun⟩, fun h => absurd h hstop⟩

/-- The answer to a handshake asks for nothing and passes nothing on. -/
theorem exists_answered {a : PeerActor}
    (ha : { s.actor with outbox := [] }.handle i.env (.extended i.extendedId i.message i.metadata) = some a) :
    ∃ b : PeerActor, b.handleExtendedMessage i.message i.metadata i.env = some a ∧
      b.info = s.actor.info ∧ requestsOf b.outbox = [] ∧ offersOf b.outbox = [] := by
  simp only [PeerActor.handle] at ha
  refine ⟨_, ha, ?_⟩
  split
  · unfold PeerActor.sendExtendedHandshake PeerActor.send
    split
    · exact ⟨rfl, rfl, rfl⟩
    · exact ⟨rfl, rfl, rfl⟩
  · exact ⟨rfl, rfl, rfl⟩

theorem step_spec (h : s.apply i = some t) : s.Steps i t := by
  obtain ⟨a, ha, rfl⟩ := Option.map_eq_some_iff.1 h
  obtain ⟨b, hb, hinfo, hrequests, hoffers⟩ := exists_answered ha
  unfold PeerActor.handleExtendedMessage at hb
  cases hmessage : i.message with
  | none =>
      simp only [hmessage] at hb
      have hdata : i.data = none := by rw [ExtendedInput.data, hmessage]; rfl
      have hbegins : ¬i.Begins := by
        rintro ⟨m, hm, -⟩
        cases hmessage.symm.trans hm
      obtain ⟨hsame, hasked, hoffered, hlast⟩ := offers_spec true s.offered hoffers
        (Option.some_inj.1 hb)
      have hnothing : requestsOf a.outbox = [] ++ [] := hasked.trans hrequests
      refine ⟨s.actor.info, [], [], .inr ⟨?_, ?_, rfl⟩, .inr ⟨hbegins, hsame.trans hinfo, rfl⟩, ?_, ?_, hoffered,
        fun _ => hlast rfl⟩
      · rw [hdata]
        exact nofun
      · rw [hdata]
        rfl
      · exact congrArg _ hnothing
      · exact congrArg _ hnothing
  | some m =>
      simp only [hmessage] at hb
      obtain ⟨a', htake, hend⟩ := Option.map_eq_some_iff.1 hb
      have hdata : i.data = dataOf m i.metadata := by rw [ExtendedInput.data, hmessage]; rfl
      have hsize : i.size = m.metadataSize := by rw [ExtendedInput.size, hmessage]; rfl
      have hbegins : i.Begins ↔ PeerActor.Begins m i.env := by
        constructor
        · rintro ⟨m', hm', h⟩
          cases hmessage.symm.trans hm'
          exact h
        · exact fun h => ⟨m, hmessage, h⟩
      have htaken := PeerActor.takeMetadata_spec htake
      rw [hinfo, ← hdata, ← hsize] at htaken
      obtain ⟨asked, hgather, hmid⟩ : ∃ asked, PeerActor.Gathers b a' asked [] ∧
          ((s.actor.info.takes i.data = true ∧ (s.actor.info.take i.data).haveAllBytes = false ∧
            ∃ piece bytes, i.data = some (some piece, bytes) ∧
              a'.info = (s.actor.info.take i.data).announce i.size ∧
              asked = a'.info.asks i.env.sent (piece + 1)) ∨
          ((s.actor.info.takes i.data = true → (s.actor.info.take i.data).haveAllBytes = true) ∧
            a'.info = s.actor.info.take i.data ∧ asked = [])) := by
        rcases htaken with ⟨htakes, hall, piece, hpiece, ha', hgather⟩ | ⟨hdone, ha', hgather⟩
        · obtain ⟨bytes, hbytes⟩ := exists_data (hdata ▸ htakes)
          rw [hpiece, ← hdata] at hbytes
          exact ⟨_, hgather, .inl ⟨htakes, hall, piece, bytes, hbytes, ha', rfl⟩⟩
        · exact ⟨_, hgather, .inr ⟨hdone, ha', rfl⟩⟩
      obtain ⟨begun, hgather', hbegin, hgoesOn⟩ : ∃ begun,
          PeerActor.Gathers a' (a'.beginMetadata m i.env).1 begun [] ∧
          ((i.Begins ∧ (a'.beginMetadata m i.env).1.info = a'.info.announce i.size ∧
              begun = (a'.beginMetadata m i.env).1.info.asks i.env.sent 0) ∨
            (¬i.Begins ∧ (a'.beginMetadata m i.env).1.info = a'.info ∧ begun = [])) ∧
          (i.env.hasInfoDict.isSome = true → (a'.beginMetadata m i.env).2 = true) := by
        rw [hbegins, hsize]
        rcases PeerActor.beginMetadata_spec m i.env a' with
          ⟨hb', hinfo', hgather', hgoes⟩ | ⟨hb', hinfo', hgather', hgoes⟩
        · rw [← hinfo'] at hgather'
          exact ⟨_, hgather', .inl ⟨hb', hinfo', rfl⟩, fun _ => hgoes⟩
        · exact ⟨_, hgather', .inr ⟨hb', hinfo', rfl⟩, hgoes⟩
      have hboth := hgather.trans hgather'
      have hnone : offersOf (a'.beginMetadata m i.env).1.outbox = [] := by
        rw [hboth.offers, hoffers]
        rfl
      obtain ⟨hsame, hasked, hoffered, hlast⟩ := offers_spec _ s.offered hnone hend
      have hall : requestsOf a.outbox = asked ++ begun := by
        rw [hasked, hboth.requests, hrequests, List.nil_append]
      rw [← hsame] at hbegin
      exact ⟨a'.info, asked, begun, hmid, hbegin, congrArg _ hall, congrArg _ hall, hoffered,
        fun h => hlast (hgoesOn h)⟩

/-- What is recorded of a message. -/
theorem recorded (h : s.apply i = some t) :
    t.taken = (if s.actor.info.takes i.data then s.taken + 1 else s.taken) ∧
      t.received = s.received ++ i.data.toList ∧ t.announced = s.announced ++ i.size.toList := by
  obtain ⟨a, -, rfl⟩ := Option.map_eq_some_iff.1 h
  exact ⟨rfl, rfl, rfl⟩

end Assembly

/-! ### Pieces -/

namespace PeerInfo

variable {info : PeerInfo} {data : Option (Option ℕ × Bytes)}

/-- A piece that is appended fits. -/
theorem take_of_takes (h : info.takes data = true) :
    ∃ piece bytes, data = some (piece, bytes) ∧ info.infoBytes.length + bytes.length ≤ info.infoSize ∧
      info.take data = { info with infoBytes := info.infoBytes ++ bytes } := by
  cases data with
  | none => cases h
  | some d =>
      unfold takes appendToBytes at h
      unfold take appendToBytes
      rw [Option.bind_some] at h ⊢
      split at h
      · rename_i hfits
        exact ⟨d.1, d.2, rfl, hfits, by rw [if_pos hfits]; rfl⟩
      · cases h

/-- A piece that does not fit changes nothing. -/
theorem take_of_not_takes (h : info.takes data = false) : info.take data = info := by
  unfold takes at h
  unfold take
  cases hd : data.bind fun d => info.appendToBytes d.2 with
  | none => rfl
  | some info' =>
      rw [hd] at h
      cases h

/-- A piece that fits is appended. -/
theorem takes_of_fits {piece : Option ℕ} {bytes : Bytes}
    (h : info.infoBytes.length + bytes.length ≤ info.infoSize) : info.takes (some (piece, bytes)) = true := by
  rw [takes, Option.bind_some, appendToBytes, if_pos h]
  rfl

theorem haveAllBytes_iff : info.haveAllBytes = true ↔ info.infoSize ≠ 0 ∧ info.infoSize ≤ info.infoBytes.length := by
  simp [haveAllBytes]

theorem take_infoSize : (info.take data).infoSize = info.infoSize := by
  cases h : info.takes data with
  | false => rw [take_of_not_takes h]
  | true =>
      obtain ⟨_, _, _, _, htake⟩ := take_of_takes h
      rw [htake]

end PeerInfo

/-! ### In order -/

namespace Assembly

variable {s t : Assembly} {i : ExtendedInput}

/-- Metadata is put together from the pieces 0, 1, 2, … that came, one payload for each. -/
def InOrder (received : List (Option ℕ × Bytes)) (bytes : Bytes) (pieces : ℕ) : Prop :=
  ∃ payloads : List Bytes, payloads.length = pieces ∧ payloads.flatten = bytes ∧
    ∀ k payload, payloads[k]? = some payload → (some k, payload) ∈ received

theorem InOrder.mono {received received' : List (Option ℕ × Bytes)} {bytes : Bytes} {pieces : ℕ}
    (h : InOrder received bytes pieces) (hsub : received ⊆ received') : InOrder received' bytes pieces := by
  obtain ⟨payloads, hlength, hflat, hmem⟩ := h
  exact ⟨payloads, hlength, hflat, fun k payload hk => hsub (hmem k payload hk)⟩

/-- The next piece goes to the end. -/
theorem InOrder.snoc {received : List (Option ℕ × Bytes)} {bytes payload : Bytes} {pieces : ℕ}
    (h : InOrder received bytes pieces) (hmem : (some pieces, payload) ∈ received) :
    InOrder received (bytes ++ payload) (pieces + 1) := by
  obtain ⟨payloads, hlength, hflat, hin⟩ := h
  refine ⟨payloads ++ [payload], ?_, ?_, ?_⟩
  · rw [List.length_append, hlength]
    rfl
  · rw [List.flatten_append, hflat]
    simp
  · intro k payload' hk
    rcases Nat.lt_or_ge k payloads.length with hlt | hge
    · rw [List.getElem?_append_left hlt] at hk
      exact hin k payload' hk
    · rw [List.getElem?_append_right hge, List.getElem?_singleton] at hk
      split at hk
      · cases hk
        have hkeq : k = pieces := by omega
        exact hkeq ▸ hmem
      · cases hk

/-- What is passed on is put together in order, and is as long as has been announced. -/
def OffersInOrder (s : Assembly) : Prop :=
  ∀ o ∈ s.offered, (∃ pieces, InOrder s.received o.1 pieces) ∧ o.1.length = o.2 ∧ o.2 ∈ s.announced

/-- What the pieces that have come in turn make. -/
structure Gathered (s : Assembly) : Prop where
  inOrder : InOrder s.received s.actor.info.infoBytes s.taken
  fits : s.actor.info.infoSize = 0 ∨
    s.actor.info.infoBytes.length ≤ s.actor.info.infoSize ∧ s.actor.info.infoSize ∈ s.announced
  offers : s.OffersInOrder

/-- A size that is taken up has been announced, and is not too small. -/
theorem fits_announce {info : PeerInfo} {announced : List ℕ} (hin : InTurn s i)
    (hsize : i.size.toList ⊆ announced) (htakesUp : s.TakesUp i)
    (hbytes : info.infoBytes = (s.actor.info.take i.data).infoBytes)
    (h : info.infoSize = 0 ∨ info.infoBytes.length ≤ info.infoSize ∧ info.infoSize ∈ announced) :
    (info.announce i.size).infoSize = 0 ∨
      (info.announce i.size).infoBytes.length ≤ (info.announce i.size).infoSize ∧
        (info.announce i.size).infoSize ∈ announced := by
  cases hsome : i.size with
  | none => exact h
  | some size =>
      rw [hsome] at hsize
      rcases hin.size size hsome htakesUp with hzero | hle
      · exact .inl hzero
      · exact .inr ⟨hbytes ▸ hle, hsize (List.mem_singleton_self _)⟩

theorem gathered_step (hs : s.Gathered) (hin : s.InTurn i) (h : s.apply i = some t) : t.Gathered := by
  obtain ⟨htaken, hreceived, hannounced⟩ := recorded h
  obtain ⟨mid, asked, begun, hmid, hinfo, -, -, ⟨offers, hoffered, hoffers⟩, -⟩ := step_spec h
  have hmore : s.received ⊆ t.received := hreceived ▸ List.subset_append_left _ _
  have hann : s.announced ⊆ t.announced := hannounced ▸ List.subset_append_left _ _
  have hsize : i.size.toList ⊆ t.announced := hannounced ▸ List.subset_append_right _ _
  -- the bytes after the piece
  have htake : InOrder t.received (s.actor.info.take i.data).infoBytes t.taken ∧
      ((s.actor.info.take i.data).infoSize = 0 ∨
        (s.actor.info.take i.data).infoBytes.length ≤ (s.actor.info.take i.data).infoSize ∧
          (s.actor.info.take i.data).infoSize ∈ t.announced) := by
    cases htakes : s.actor.info.takes i.data with
    | false =>
        rw [PeerInfo.take_of_not_takes htakes, htaken, htakes]
        exact ⟨hs.inOrder.mono hmore, hs.fits.imp id fun h => ⟨h.1, hann h.2⟩⟩
    | true =>
        obtain ⟨piece, bytes, hdata, hfits, htake⟩ := PeerInfo.take_of_takes htakes
        have hnext := hin.next piece bytes hdata htakes
        rw [htake, htaken, htakes]
        refine ⟨(hs.inOrder.mono hmore).snoc ?_, hs.fits.imp id fun h => ⟨?_, hann h.2⟩⟩
        · rw [hreceived, hdata, hnext]
          exact List.mem_append_right _ (List.mem_singleton_self _)
        · rw [List.length_append]
          exact hfits
  -- and after the sizes
  have hmid' : mid.infoBytes = (s.actor.info.take i.data).infoBytes ∧ (mid.infoSize = 0 ∨
      mid.infoBytes.length ≤ mid.infoSize ∧ mid.infoSize ∈ t.announced) := by
    rcases hmid with ⟨htakes, hall, -, -, -, rfl, -⟩ | ⟨-, rfl, -⟩
    · exact ⟨rfl, fits_announce hin hsize (.inl ⟨htakes, hall⟩) rfl htake.2⟩
    · exact ⟨rfl, htake.2⟩
  have hend : t.actor.info.infoBytes = (s.actor.info.take i.data).infoBytes ∧ (t.actor.info.infoSize = 0 ∨
      t.actor.info.infoBytes.length ≤ t.actor.info.infoSize ∧ t.actor.info.infoSize ∈ t.announced) := by
    rcases hinfo with ⟨hbegins, ht, -⟩ | ⟨-, ht, -⟩
    · rw [ht]
      exact ⟨hmid'.1, fits_announce hin hsize (.inr hbegins) hmid'.1 hmid'.2⟩
    · rw [ht]
      exact hmid'
  refine ⟨hend.1 ▸ htake.1, hend.2, fun o ho => ?_⟩
  rw [hoffered] at ho
  rcases List.mem_append.1 ho with hold | hnew
  · obtain ⟨⟨pieces, hpieces⟩, hlength, hmem⟩ := hs.offers o hold
    exact ⟨⟨pieces, hpieces.mono hmore⟩, hlength, hann hmem⟩
  · obtain ⟨hall, rfl⟩ := hoffers o hnew
    obtain ⟨hpos, hle⟩ := PeerInfo.haveAllBytes_iff.1 hall
    obtain ⟨hge, hmem⟩ := hend.2.resolve_left hpos
    exact ⟨⟨t.taken, hend.1 ▸ htake.1⟩, Nat.le_antisymm hge hle, hmem⟩

theorem gathered_of_reach (hs : assemblySystem.Reach InTurn s) : s.Gathered := by
  refine hs.invariant ?_ fun _ _ _ hs hin h => gathered_step hs hin h
  rintro s ⟨id, rfl⟩
  exact ⟨⟨[], rfl, rfl, nofun⟩, .inl rfl, nofun⟩

end Assembly

/-! ### Metadata -/

/-- The `k`-th piece of metadata: 16 KiB of it, or what is left at the end. -/
def metadataPiece (metadata : Bytes) (k : ℕ) : Bytes := (metadata.drop (16384 * k)).take 16384

theorem take_append_metadataPiece (metadata : Bytes) (k : ℕ) :
    metadata.take (16384 * k) ++ metadataPiece metadata k = metadata.take (16384 * (k + 1)) := by
  rw [metadataPiece, Nat.mul_succ, List.take_add]

theorem length_metadataPiece (metadata : Bytes) (k : ℕ) :
    (metadataPiece metadata k).length = min 16384 (metadata.length - 16384 * k) := by
  rw [metadataPiece, List.length_take, List.length_drop]

namespace ExtendedInput

/-- What the message says about the metadata is true. -/
structure Truthful (metadata : Bytes) (i : ExtendedInput) : Prop where
  size : ∀ size, i.size = some size → size = metadata.length
  data : ∀ piece bytes, i.data = some (piece, bytes) →
    ∃ k, piece = some k ∧ 16384 * k < metadata.length ∧ bytes = metadataPiece metadata k

/-- What is sent goes out, and the torrent answers whether it has its dictionary. -/
structure GoesOut (i : ExtendedInput) : Prop where
  sent : i.env.sent = true
  answered : i.env.hasInfoDict.isSome = true

/-- A true size that is announced again changes nothing. -/
theorem Truthful.announce {metadata : Bytes} {i : ExtendedInput} {info : PeerInfo} (h : i.Truthful metadata)
    (hinfo : info.infoSize = metadata.length) : info.announce i.size = info := by
  unfold PeerInfo.announce
  cases hsize : i.size with
  | none => rfl
  | some size => rw [Option.getD_some, h.size size hsize, ← hinfo]

end ExtendedInput

namespace Assembly

variable {s t : Assembly} {i : ExtendedInput} {metadata : Bytes}

/-- Before the first request nothing has been gathered; after it, the next piece is asked for until the metadata
has been passed on. -/
structure Progress (metadata : Bytes) (s : Assembly) : Prop where
  bytes : s.actor.info.infoBytes = metadata.take (16384 * s.taken)
  state : s.actor.info.infoSize = 0 ∧ s.taken = 0 ∧ s.requested = [] ∨
    s.actor.info.infoSize = metadata.length ∧
      (16384 * s.taken < metadata.length ∧ s.taken ∈ s.pending ∨
        metadata.length ≤ 16384 * s.taken ∧ (metadata, metadata.length) ∈ s.offered)

/-- A piece that comes before a size is known does not fit. -/
theorem not_takes_of_unknown (hi : i.Truthful metadata) (hsize : s.actor.info.infoSize = 0) :
    s.actor.info.takes i.data = false := by
  rw [← Bool.not_eq_true]
  intro htakes
  obtain ⟨piece, bytes, hdata, hfits, -⟩ := PeerInfo.take_of_takes htakes
  obtain ⟨k, -, hk, rfl⟩ := hi.data piece bytes hdata
  rw [hsize, length_metadataPiece] at hfits
  omega

/-- The next piece fits. -/
theorem takes_next (hs : s.Progress metadata) (hsize : s.actor.info.infoSize = metadata.length)
    (hleft : 16384 * s.taken < metadata.length) (hi : i.Truthful metadata)
    (hdata : i.data.map Prod.fst = some (some s.taken)) : s.actor.info.takes i.data = true := by
  obtain ⟨⟨piece, bytes⟩, hd, hpiece⟩ := Option.map_eq_some_iff.1 hdata
  obtain ⟨k, hk, -, rfl⟩ := hi.data piece bytes hd
  have hkeq : k = s.taken := Option.some_inj.1 (hk.symm.trans hpiece)
  rw [hd]
  refine PeerInfo.takes_of_fits ?_
  rw [hs.bytes, hsize, length_metadataPiece, hkeq, List.length_take]
  omega

/-- As long as no size is known, only the beginning of the exchange changes anything. -/
theorem progress_unknown (hmetadata : metadata ≠ []) (hs : s.Progress metadata) (hsize : s.actor.info.infoSize = 0)
    (hnone : s.taken = 0) (hquiet : s.requested = []) (hi : i.Truthful metadata) (hout : i.GoesOut)
    (h : s.apply i = some t) : t.Progress metadata := by
  have hpos : 0 < metadata.length := List.length_pos_iff.2 hmetadata
  have htakes := not_takes_of_unknown hi hsize
  have hempty : s.actor.info.infoBytes = [] := by rw [hs.bytes, hnone]; rfl
  obtain ⟨htaken, -, -⟩ := recorded h
  rw [htakes, hnone] at htaken
  obtain ⟨mid, asked, begun, hmid, hinfo, hrequested, hpending, -, -⟩ := step_spec h
  rw [htakes, PeerInfo.take_of_not_takes htakes] at hmid
  obtain ⟨rfl, rfl⟩ : mid = s.actor.info ∧ asked = [] := by
    rcases hmid with ⟨hfalse, -⟩ | ⟨-, hmid, hasked⟩
    · cases hfalse
    · exact ⟨hmid, hasked⟩
  rcases hinfo with ⟨hbegins, ht, hbegun⟩ | ⟨-, ht, rfl⟩
  · obtain ⟨m, hm, -, hsome, -⟩ := hbegins
    obtain ⟨size, hmsize⟩ := Option.isSome_iff_exists.1 hsome
    have hisize : i.size = some size := by rw [ExtendedInput.size, hm]; exact hmsize
    have hknown : t.actor.info.infoSize = metadata.length := by
      rw [ht, PeerInfo.announce, hisize, ← hi.size size hisize]
      rfl
    have hbytes : t.actor.info.infoBytes = [] := by rw [ht]; exact hempty
    refine ⟨by rw [hbytes, htaken]; rfl, .inr ⟨hknown, .inl ⟨by simpa [htaken] using hpos, ?_⟩⟩⟩
    have hall : t.actor.info.haveAllBytes = false := by
      rw [← Bool.not_eq_true, PeerInfo.haveAllBytes_iff, hbytes]
      simp only [List.length_nil, not_and]
      omega
    rw [PeerInfo.asks, if_pos ⟨by omega, hall, hout.sent⟩] at hbegun
    rw [hpending, hbegun, htaken]
    simp
  · refine ⟨by rw [ht, hempty, htaken]; rfl, .inl ⟨by rw [ht]; exact hsize, htaken, ?_⟩⟩
    rw [hrequested, hquiet]
    rfl

/-- A size that is known stays, and what is asked for when a piece has been taken in is the one after it. -/
theorem known_of_apply (hsize : s.actor.info.infoSize = metadata.length) (hi : i.Truthful metadata)
    (h : s.apply i = some t) :
    t.actor.info = s.actor.info.take i.data ∧
      ∀ piece bytes, s.actor.info.takes i.data = true → i.data = some (some piece, bytes) →
        t.actor.info.haveAllBytes = false → ∀ k ∈ t.actor.info.asks i.env.sent (piece + 1), k ∈ t.pending := by
  obtain ⟨mid, asked, begun, hmid, hinfo, -, hpending, -, -⟩ := step_spec h
  have htakeSize : (s.actor.info.take i.data).infoSize = metadata.length := PeerInfo.take_infoSize.trans hsize
  have hmidEq : mid = s.actor.info.take i.data := by
    rcases hmid with ⟨-, -, -, -, -, hmid, -⟩ | ⟨-, hmid, -⟩
    · rw [hmid, hi.announce htakeSize]
    · exact hmid
  have htEq : t.actor.info = s.actor.info.take i.data := by
    rcases hinfo with ⟨-, ht, -⟩ | ⟨-, ht, -⟩
    · rw [ht, hmidEq, hi.announce htakeSize]
    · rw [ht, hmidEq]
  refine ⟨htEq, fun piece bytes htakes hdata hall k hk => ?_⟩
  rcases hmid with ⟨-, -, piece', bytes', hdata', -, hasked⟩ | ⟨hdone, -, -⟩
  · obtain ⟨⟨⟩, -⟩ : some piece = some piece' ∧ bytes = bytes' :=
      Prod.mk.inj (Option.some_inj.1 (hdata.symm.trans hdata'))
    rw [hmidEq, ← htEq] at hasked
    rw [hpending, hasked]
    exact List.mem_append_right _ (List.mem_append_left _ hk)
  · rw [htEq, hdone htakes] at hall
    cases hall

/-- Nothing is taken in: what was asked for still is. -/
theorem progress_kept (hs : s.Progress metadata) (hsize : s.actor.info.infoSize = metadata.length)
    (hstate : 16384 * s.taken < metadata.length ∧ s.taken ∈ s.pending ∨
      metadata.length ≤ 16384 * s.taken ∧ (metadata, metadata.length) ∈ s.offered)
    (htakes : s.actor.info.takes i.data = false) (hi : i.Truthful metadata) (h : s.apply i = some t) :
    t.Progress metadata := by
  obtain ⟨htaken, -, -⟩ := recorded h
  obtain ⟨htEq, -⟩ := known_of_apply hsize hi h
  obtain ⟨mid, asked, begun, -, -, -, hpending, ⟨offers, hoffered, -⟩, -⟩ := step_spec h
  rw [htakes] at htaken
  rw [PeerInfo.take_of_not_takes htakes] at htEq
  refine ⟨by rw [htEq, htaken]; exact hs.bytes, .inr ⟨by rw [htEq]; exact hsize, ?_⟩⟩
  rw [htaken]
  refine hstate.imp (fun hleft => ⟨hleft.1, ?_⟩) (fun hdone => ⟨hdone.1, ?_⟩)
  · rw [hpending]
    refine List.mem_append_left _ (List.mem_filter.2 ⟨hleft.2, ?_⟩)
    rw [decide_eq_true_eq]
    intro hdata
    rw [takes_next hs hsize hleft.1 hi hdata] at htakes
    cases htakes
  · rw [hoffered]
    exact List.mem_append_left _ hdone.2

/-- The next piece is taken in: the one after it is asked for, or the metadata is passed on. -/
theorem progress_taken (hmetadata : metadata ≠ []) (hs : s.Progress metadata)
    (hsize : s.actor.info.infoSize = metadata.length) (htakes : s.actor.info.takes i.data = true) (hin : s.InTurn i)
    (hi : i.Truthful metadata) (hout : i.GoesOut) (h : s.apply i = some t) : t.Progress metadata := by
  have hpos : 0 < metadata.length := List.length_pos_iff.2 hmetadata
  obtain ⟨htaken, -, -⟩ := recorded h
  obtain ⟨htEq, hnext⟩ := known_of_apply hsize hi h
  obtain ⟨piece, bytes, hdata, hfits, htake⟩ := PeerInfo.take_of_takes htakes
  obtain ⟨k, rfl, hk, rfl⟩ := hi.data piece bytes hdata
  have hkeq : k = s.taken := Option.some_inj.1 (hin.next _ _ hdata htakes)
  subst hkeq
  rw [htakes, if_pos rfl] at htaken
  have hbytes : t.actor.info.infoBytes = metadata.take (16384 * t.taken) := by
    rw [htEq, htake, htaken, hs.bytes, take_append_metadataPiece]
  have htsize : t.actor.info.infoSize = metadata.length := by
    rw [htEq]
    exact PeerInfo.take_infoSize.trans hsize
  refine ⟨hbytes, .inr ⟨htsize, ?_⟩⟩
  rcases Nat.lt_or_ge (16384 * t.taken) metadata.length with hlt | hge
  · have hall : t.actor.info.haveAllBytes = false := by
      rw [← Bool.not_eq_true, PeerInfo.haveAllBytes_iff, htsize, hbytes, List.length_take]
      omega
    refine .inl ⟨hlt, hnext _ _ htakes hdata hall _ ?_⟩
    rw [PeerInfo.asks, if_pos ⟨by omega, hall, hout.sent⟩, htaken]
    exact List.mem_singleton_self _
  · refine .inr ⟨hge, ?_⟩
    have hwhole : t.actor.info.infoBytes = metadata := by rw [hbytes, List.take_of_length_le hge]
    have hall : t.actor.info.haveAllBytes = true := by
      rw [PeerInfo.haveAllBytes_iff, htsize, hwhole]
      omega
    obtain ⟨_, _, _, -, -, -, -, -, hlast⟩ := step_spec h
    have hmem := hlast hout.answered hall
    rwa [hwhole, htsize] at hmem

theorem progress_step (hmetadata : metadata ≠ []) (hs : s.Progress metadata) (hin : s.InTurn i)
    (hi : i.Truthful metadata) (hout : i.GoesOut) (h : s.apply i = some t) : t.Progress metadata := by
  rcases hs.state with ⟨hsize, hnone, hquiet⟩ | ⟨hsize, hstate⟩
  · exact progress_unknown hmetadata hs hsize hnone hquiet hi hout h
  · cases htakes : s.actor.info.takes i.data with
    | false => exact progress_kept hs hsize hstate htakes hi h
    | true => exact progress_taken hmetadata hs hsize htakes hin hi hout h

theorem progress_of_reach (hmetadata : metadata ≠ [])
    (hs : assemblySystem.Reach (fun s i => s.InTurn i ∧ i.Truthful metadata ∧ i.GoesOut) s) :
    s.Progress metadata := by
  refine hs.invariant (I := Progress metadata) ?_ fun s i t hs hG h =>
    progress_step hmetadata hs hG.1 hG.2.1 hG.2.2 h
  rintro s ⟨id, rfl⟩
  exact ⟨rfl, .inl ⟨rfl, rfl, rfl⟩⟩

end Assembly

/-- **As long as pieces come in turn, metadata is put together in order, and it is as long as announced.  When
also what the remote says is true and what is sent goes out, the torrent has the metadata when every request has
been answered.** -/
theorem metadata_in_turn {s : Assembly} (h : assemblySystem.Reach Assembly.InTurn s) :
    s.OffersInOrder ∧
      ∀ metadata : Bytes, metadata ≠ [] →
        assemblySystem.Reach (fun s i => s.InTurn i ∧ i.Truthful metadata ∧ i.GoesOut) s →
        s.requested ≠ [] → s.pending = [] → (metadata, metadata.length) ∈ s.offered := by
  refine ⟨(Assembly.gathered_of_reach h).offers, fun metadata hmetadata hs hrequested hpending => ?_⟩
  rcases (Assembly.progress_of_reach hmetadata hs).state with ⟨-, -, hnone⟩ | ⟨-, hleft | hdone⟩
  · exact absurd hnone hrequested
  · rw [hpending] at hleft
    cases hleft.2
  · exact hdone.2

namespace Sample

def assembly : Assembly := ⟨PeerActor.new peer, 0, [], [], [], [], []⟩

def noDictionary : PeerEnv := ⟨true, [], some true, some false, none⟩

/-- An extended handshake that announces so many bytes of metadata. -/
def announce (size : ℕ) : ExtendedInput :=
  ⟨0, some { supportedExtensions := some (HashMap.insert ∅ utMetadata 3), metadataSize := some size }, none,
    noDictionary⟩

/-- A piece of metadata. -/
def dataPiece (piece : ℕ) (bytes : Bytes) : ExtendedInput :=
  ⟨2, some { msgType := some .data, piece := some piece }, some bytes, noDictionary⟩

/-- A whole piece. -/
def wholePiece : Bytes := List.replicate 16384 7

theorem length_wholePiece : wholePiece.length = 16384 := List.length_replicate

/-- Metadata of a whole piece and one byte. -/
def twoPieces : Bytes := wholePiece ++ [8]

theorem length_twoPieces : twoPieces.length = 16385 := by
  rw [twoPieces, List.length_append, length_wholePiece]
  rfl

theorem truthful_announce : (announce 16385).Truthful twoPieces := by
  refine ⟨?_, nofun⟩
  rintro size ⟨⟩
  exact length_twoPieces.symm

theorem truthful_first : (dataPiece 0 wholePiece).Truthful twoPieces := by
  refine ⟨nofun, ?_⟩
  rintro piece bytes ⟨⟩
  refine ⟨0, rfl, ?_, ?_⟩
  · rw [length_twoPieces]
    decide
  · rw [metadataPiece, Nat.mul_zero, List.drop_zero, twoPieces, List.take_left' length_wholePiece]

theorem truthful_second : (dataPiece 1 [8]).Truthful twoPieces := by
  refine ⟨nofun, ?_⟩
  rintro piece bytes ⟨⟩
  refine ⟨1, rfl, ?_, ?_⟩
  · rw [length_twoPieces]
    decide
  · rw [metadataPiece, Nat.mul_one, twoPieces, List.drop_left' length_wholePiece]
    rfl

end Sample

open Sample in
/-- Metadata that comes in two pieces is passed on. -/
theorem metadata_in_turn_sample :
    ∃ s, assemblySystem.Reach (fun s i => s.InTurn i ∧ i.Truthful twoPieces ∧ i.GoesOut) s ∧
      s.requested = [0, 1] ∧ s.pending = [] ∧ (twoPieces, twoPieces.length) ∈ s.offered ∧ s.OffersInOrder := by
  obtain ⟨s, hs, hrest⟩ := (Option.any_eq_true _ _).1 (by decide +kernel :
    (assembly.apply (announce 16385)).any (fun s => s.taken = 0 ∧
      (s.apply (dataPiece 0 wholePiece)).any fun t => t.taken = 1 ∧
        (t.apply (dataPiece 1 [8])).any fun u => u.requested = [0, 1] ∧ u.pending = []) = true)
  obtain ⟨hnone, hrest⟩ := of_decide_eq_true hrest
  obtain ⟨t, ht, hrest⟩ := (Option.any_eq_true _ _).1 hrest
  obtain ⟨hone, hrest⟩ := of_decide_eq_true hrest
  obtain ⟨u, hu, hrest⟩ := (Option.any_eq_true _ _).1 hrest
  obtain ⟨hrequested, hpending⟩ := of_decide_eq_true hrest
  have hinit : assemblySystem.init assembly := ⟨peer, rfl⟩
  have hannounce : assembly.InTurn (announce 16385) := by
    refine ⟨nofun, ?_⟩
    rintro size ⟨⟩ -
    exact .inr (Nat.zero_le _)
  have hfirst : s.InTurn (dataPiece 0 wholePiece) := by
    refine ⟨?_, nofun⟩
    rintro piece bytes ⟨⟩ -
    rw [hnone]
  have hsecond : t.InTurn (dataPiece 1 [8]) := by
    refine ⟨?_, nofun⟩
    rintro piece bytes ⟨⟩ -
    rw [hone]
  have hreach : assemblySystem.Reach (fun s i => s.InTurn i ∧ i.Truthful twoPieces ∧ i.GoesOut) u :=
    (((System.Reach.init hinit).step ⟨hannounce, truthful_announce, rfl, rfl⟩ hs).step
      ⟨hfirst, truthful_first, rfl, rfl⟩ ht).step ⟨hsecond, truthful_second, rfl, rfl⟩ hu
  obtain ⟨horder, hdone⟩ := metadata_in_turn (hreach.mono fun _ _ h => h.1)
  refine ⟨u, hreach, hrequested, hpending, hdone twoPieces ?_ hreach ?_ hpending, horder⟩
  · exact List.append_ne_nil_of_right_ne_nil _ (List.cons_ne_nil _ _)
  · rw [hrequested]
    exact List.cons_ne_nil _ _

/-- **A piece that comes twice is appended twice**, and the torrent is passed what no pieces in order make. -/
theorem repeated_piece_appended :
    ∃ s, assemblySystem.Reach (fun _ _ => True) s ∧ ¬s.OffersInOrder := by
  obtain ⟨s, hs, hP⟩ := System.Reach.exists_foldlM (S := assemblySystem) (f := Assembly.apply)
    (fun _ _ _ h => h) (.init ⟨Sample.peer, rfl⟩)
    [Sample.announce 4, Sample.dataPiece 0 [1, 2], Sample.dataPiece 0 [1, 2]]
    (P := fun s => decide (s.received = [(some 0, [1, 2]), (some 0, [1, 2])] ∧ ([1, 2, 1, 2], 4) ∈ s.offered))
    (by decide +kernel)
  obtain ⟨hreceived, hoffered⟩ := of_decide_eq_true hP
  refine ⟨s, hs, fun h => ?_⟩
  obtain ⟨⟨pieces, payloads, -, hflat, hmem⟩, -⟩ := h _ hoffered
  rw [hreceived] at hmem
  -- only piece 0 has come, and it is not the whole
  match payloads with
  | [] => cases hflat
  | [payload] =>
      have hpayload := hmem 0 payload rfl
      simp only [List.mem_cons, Prod.mk.injEq, true_and, List.not_mem_nil, or_false, or_self] at hpayload
      subst hpayload
      cases hflat
  | _ :: payload :: _ =>
      have hsecond := hmem 1 payload rfl
      simp at hsecond

end Tortillas
