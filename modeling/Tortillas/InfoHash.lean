/-
**The info hash and the hash of the dictionary.**

The info hash of a torrent is the hash of its info dictionary as it stands in the file or comes from
a peer.  `Info::hash` hashes what the program writes for the record it has read.  The two agree
exactly for the dictionaries whose keys are all kept, and a torrent whose metadata was such a
dictionary keeps its hashes in order in every run.

Main definitions:

* `SerdeBencode` — what the program relies on when it reads and writes bencoded records;
* `TorrentSnapshot.HashChecks` — the checks on a snapshot that compare hashes;
* `ResolvesListed` — metadata is taken over only from a listed dictionary.

Main results:

* `hash_eq_iff` — for one dictionary;
* `TorrentActor.HashesMatch.step` — one step of the torrent;
* `info_hash_iff` — **when the hash of a record is the hash of the dictionary it was read from**, and
  what follows for runs.
-/

import Tortillas.InfoDict
import Tortillas.SnapshotValid

set_option relaxedAutoImplicit false
set_option autoImplicit false

namespace Tortillas

/-- The codec writes records as their canonical text, and what it reads from a canonical text is the
record of its value. -/
structure SerdeBencode (c : Codec Bytes) : Prop where
  toBytes : ∀ info, c.toBytes info = Bencode.encode info.serialize
  fromBytes : ∀ v : Bencode, v.Sorted → ∀ info, c.fromBytes v.encode = some info →
    Info.deserialize v = some info

/-- For one dictionary: its hash is that of the record exactly if it is listed. -/
theorem hash_eq_iff {c : Codec Bytes} (hc : SerdeBencode c) (hsha : Function.Injective c.sha1)
    {entries : List (Bytes × Bencode)} (hsorted : (Bencode.dict entries).Sorted) {info : Info Bytes}
    (h : Info.deserialize (.dict entries) = some info) :
    info.hash c = c.sha1 (Bencode.dict entries).encode ↔ Info.Listed entries := by
  rw [Info.hash, hsha.eq_iff, hc.toBytes, Bencode.encode_injective.eq_iff,
    Info.serialize_eq_iff hsorted h]

/-! ### The hashes of the torrent -/

/-- The checks on a snapshot that compare hashes. -/
structure TorrentSnapshot.HashChecks {H : Type} (c : Codec H) (snap : TorrentSnapshot H) : Prop where
  infoHash : snap.metainfo.infoHash c = some snap.infoHash
  resolved : ∀ info, snap.resolvedMagnetInfo = some info → info.hash c = snap.infoHash

namespace TorrentActor

variable {H : Type} {c : Codec H} {s t : TorrentActor H}

/-- The info hash is that of the source, and that of the metadata. -/
structure HashesMatch (c : Codec H) (s : TorrentActor H) : Prop where
  infoHash : s.metainfo.infoHash c = some s.infoHash
  resolved : ∀ info, s.resolvedMagnetInfo = some info → info.hash c = s.infoHash

/-- A snapshot of such a torrent passes the checks. -/
theorem HashesMatch.hashChecks (hs : s.HashesMatch c) {snap : TorrentSnapshot H}
    (h : s.snapshot = .ok snap) : snap.HashChecks c := by
  rw [snapshot] at h
  cases hmanager : s.pieceManager with
  | custom => simp [hmanager] at h
  | default manager =>
      rw [hmanager] at h
      cases h
      exact ⟨hs.infoHash, hs.resolved⟩

theorem HashesMatch.of_source (hs : s.HashesMatch c) (hmeta : t.metainfo = s.metainfo)
    (hhash : t.infoHash = s.infoHash) (hres : t.resolvedMagnetInfo = s.resolvedMagnetInfo) :
    t.HashesMatch c := by
  constructor
  · rw [hmeta, hhash]
    exact hs.infoHash
  · rw [hres, hhash]
    exact hs.resolved

theorem SameBits.hashesMatch (h : SameBits s t) (hs : s.HashesMatch c) : t.HashesMatch c :=
  hs.of_source h.metainfo h.infoHash h.resolvedMagnetInfo

theorem hashesMatch_onStart {args : Args H} {disk : FileStore Path}
    (h : onStart c args disk = some s) : s.HashesMatch c :=
  ⟨(saveable_onStart h).infoHash, (saveable_onStart h).resolved⟩

/-- A restored snapshot has been checked. -/
theorem HashesMatch.restoreSnapshot (hs : s.HashesMatch c) {snap : TorrentSnapshot H}
    (hv : snap.IsValid c) (hown : snap.metainfo = s.metainfo) :
    (s.restoreSnapshot snap).HashesMatch c := by
  have hhash : snap.infoHash = s.infoHash := by
    have h := hv.infoHash
    rw [hown, hs.infoHash] at h
    exact (Option.some.inj h).symm
  constructor
  · exact hs.infoHash
  · intro info hres
    exact (hv.resolved info hres).trans hhash

variable [DecidableEq H]

/-- Metadata that is taken over has the hash that was asked for, when it is written. -/
def ResolvesInOrder (s : TorrentActor H) (i : Input c) : Prop :=
  ∀ bytes env, i.message = .infoBytes bytes env → s.infoDict = none → c.sha1 bytes = s.infoHash →
    ∀ info, c.fromBytes bytes = some info → info.hash c = c.sha1 bytes

/-- **One step of the torrent.** -/
theorem HashesMatch.step (hs : s.HashesMatch c) {i : Input c} (hown : s.RestoresOwn i.message)
    (hres : s.ResolvesInOrder i) : (s.step i).HashesMatch c := by
  have hnext := sameData_next i.check s
  have hs' : (s.next i.check).HashesMatch c := hnext.toBits.hashesMatch hs
  unfold TorrentActor.step
  cases hm : i.message with
  | incomingPiece p index offset block env =>
      obtain ⟨hmeta, hhash, hresolved⟩ :=
        (handlesBlock c (s.next i.check) p index offset block env).source
      exact hs'.of_source hmeta hhash hresolved
  | infoBytes bytes env =>
      change ((s.next i.check).infoBytes c bytes env).HashesMatch c
      rcases infoBytes_cases c bytes env (s.next i.check) with heq | ⟨info, hnone, hhash, hinfo, heq⟩
      · rw [heq]
        exact hs'
      · rw [heq]
        constructor
        · exact hs'.infoHash
        · intro dict hdict
          change some info = some dict at hdict
          cases hdict
          rw [hnext.infoDict] at hnone
          rw [hnext.infoHash] at hhash
          have hhash' := hres bytes env hm hnone hhash info hinfo
          exact hhash'.trans (hhash.trans hnext.infoHash.symm)
  | restoreSnapshot v =>
      rw [hm] at hown
      have hmeta : v.snapshot.metainfo = (s.next i.check).metainfo := by
        rw [hnext.metainfo]
        exact hown
      exact hs'.restoreSnapshot v.valid hmeta
  | _ =>
      refine (sameBits_handle _ ?_).hashesMatch hs'
      exact trivial

end TorrentActor

/-! ### Every run -/

/-- Metadata is taken over only from the canonical text of a listed dictionary. -/
def ResolvesListed {c : Codec Bytes} (s : TorrentActor Bytes) (i : TorrentActor.Input c) : Prop :=
  ∀ bytes env, i.message = .infoBytes bytes env → s.infoDict = none → c.sha1 bytes = s.infoHash →
    (c.fromBytes bytes).isSome → ∃ entries, bytes = (Bencode.dict entries).encode ∧
      (Bencode.dict entries).Sorted ∧ Info.Listed entries

/-- **When the hash of a record is the hash of the dictionary it was read from**: exactly if the
dictionary is listed.  In every run in which metadata is taken over only from such dictionaries, the
metadata has the info hash, and snapshots pass the checks that compare hashes. -/
theorem info_hash_iff {c : Codec Bytes} (hc : SerdeBencode c) (hsha : Function.Injective c.sha1) :
    (∀ entries, (Bencode.dict entries).Sorted →
      ∀ info, Info.deserialize (.dict entries) = some info →
        (info.hash c = c.sha1 (Bencode.dict entries).encode ↔ Info.Listed entries)) ∧
    ∀ s, (torrentSystem c).Reach ResolvesListed s →
      (∀ info, s.resolvedMagnetInfo = some info → info.hash c = s.infoHash) ∧
      ∀ snap, s.snapshot = .ok snap → snap.HashChecks c := by
  refine ⟨fun entries hsorted info h => hash_eq_iff hc hsha hsorted h, ?_⟩
  intro s hreach
  have hs : s.HashesMatch c := by
    refine hreach.invariant ?_ ?_
    · rintro s ⟨args, disk, hstart⟩
      exact TorrentActor.hashesMatch_onStart hstart
    · rintro s i t hs hlisted ⟨hown, rfl⟩
      refine hs.step hown ?_
      intro bytes env hm hnone hhash info hinfo
      obtain ⟨entries, rfl, hsorted, hkeys⟩ := hlisted bytes env hm hnone hhash (by rw [hinfo]; rfl)
      exact (hash_eq_iff hc hsha hsorted (hc.fromBytes _ hsorted info hinfo)).2 hkeys
  exact ⟨hs.resolved, fun snap hsnap => hs.hashChecks hsnap⟩

/-! ### A dictionary with a key of its own -/

namespace Sample

/-- A codec that reads and writes canonical texts, with hashes that are the hashed bytes. -/
def bencodeCodec : Codec Bytes where
  sha1 := id
  toBytes info := Bencode.encode info.serialize
  fromBytes bytes := (Bencode.decode bytes.length bytes).bind fun found => Info.deserialize found.1
  toHex hash := hash.map fun byte => Char.ofNat byte.toNat

theorem serdeBencode_bencodeCodec : SerdeBencode bencodeCodec := by
  refine ⟨fun _ => rfl, ?_⟩
  intro v _ info h
  have hdecode := Bencode.decode_encode v [] v.encode.length le_rfl
  rw [List.append_nil] at hdecode
  change (Bencode.decode v.encode.length v.encode).bind (fun found => Info.deserialize found.1) =
    some info at h
  rw [hdecode] at h
  exact h

/-- The dictionary of a file of one byte. -/
def entries : List (Bytes × Bencode) :=
  [(Key.length, .int 1), (Key.name, .bytes (utf8 ['a'])), (Key.pieceLength, .int 1),
    (Key.pieces, .bytes (List.replicate 20 7))]

/-- The same with a key that is not listed, as a file for two versions of the protocol has it. -/
def extended : List (Bytes × Bencode) :=
  [(Key.length, .int 1),
    (ascii ['m', 'e', 't', 'a', ' ', 'v', 'e', 'r', 's', 'i', 'o', 'n'], .int 2),
    (Key.name, .bytes (utf8 ['a'])), (Key.pieceLength, .int 1),
    (Key.pieces, .bytes (List.replicate 20 7))]

/-- What is read from either. -/
def record : Info Bytes := { info with pieces := [List.replicate 20 7] }

theorem sorted_entries : (Bencode.dict entries).Sorted := by
  refine ⟨?_, ?_⟩
  · simp only [SortedKeys, entries]
    decide
  · simp [entries, Bencode.SortedEntries, Bencode.Sorted]

theorem sorted_extended : (Bencode.dict extended).Sorted := by
  refine ⟨?_, ?_⟩
  · simp only [SortedKeys, extended]
    decide
  · simp [extended, Bencode.SortedEntries, Bencode.Sorted]

theorem deserialize_entries : Info.deserialize (.dict entries) = some record := by
  have hname : entries.lookup Key.name = some (.bytes (utf8 ['a'])) := rfl
  rw [Info.deserialize, hname, required, Option.bind_some, readText, readUtf8_utf8]
  rfl

theorem deserialize_extended : Info.deserialize (.dict extended) = some record := by
  have hname : extended.lookup Key.name = some (.bytes (utf8 ['a'])) := rfl
  rw [Info.deserialize, hname, required, Option.bind_some, readText, readUtf8_utf8]
  rfl

theorem listed_entries : Info.Listed entries := by
  refine ⟨?_, ⟨_, rfl⟩, .inl ⟨rfl, rfl⟩⟩
  simp only [entries]
  decide

end Sample

theorem info_hash_sample :
    Sample.record.hash Sample.bencodeCodec = Sample.bencodeCodec.sha1 (Bencode.dict Sample.entries).encode :=
  ((info_hash_iff Sample.serdeBencode_bencodeCodec Function.injective_id).1 Sample.entries
    Sample.sorted_entries Sample.record Sample.deserialize_entries).2 Sample.listed_entries

/-- **A key that is not listed changes the hash.** -/
theorem unlisted_key_changes_hash :
    (Bencode.dict Sample.extended).Sorted ∧
      Info.deserialize (.dict Sample.extended) = some Sample.record ∧
      Sample.record.hash Sample.bencodeCodec ≠
        Sample.bencodeCodec.sha1 (Bencode.dict Sample.extended).encode := by
  refine ⟨Sample.sorted_extended, Sample.deserialize_extended, ?_⟩
  intro h
  have hlisted := (hash_eq_iff Sample.serdeBencode_bencodeCodec Function.injective_id
    Sample.sorted_extended Sample.deserialize_extended).1 h
  have hkey := hlisted.keys (Sample.extended.get ⟨1, by decide⟩) (List.get_mem ..)
  exact absurd hkey (by decide)

end Tortillas
