/-
**How peer ids are shown.**

A log line shows a peer by the name of its client and by the version in its id, which every format has elsewhere in the
twenty bytes.  The bytes come from the peer.  All formats but one take letters from fixed places.  The style of the
main line has numbers between dashes, and the three first of them are taken whether they are there or not: an id that
begins with an `M` and has too few dashes behind it panics when it is shown.

Main definitions:

* `Client.name`, `PeerId.clientInfo` — what is known about a client;
* `PeerId.version`, `PeerId.display` — how an id is shown;
* `PeerId.Shown` — an id is shown and kept;
* `DashedVersion` — what follows the first byte has no part, or three.

Main results:

* `PeerId.clientInfo_eq_ok` — every client is in the table;
* `PeerId.classify_eq_mainline_iff` — the style of the main line is that of the ids with an `M` in front;
* `PeerId.shown_iff` — **an id is shown exactly if it has no such version, or a whole one**.
-/

import Tortillas.LossyText
import Tortillas.PeerId

set_option relaxedAutoImplicit false
set_option autoImplicit false

namespace Tortillas

/-! ### Clients -/

/-- `client_name` -/
def Client.name : Client → Text
  | .ares => "Ares".toList
  | .aresV2 => "AresV2".toList
  | .arctic => "Arctic".toList
  | .avicora => "Avicora".toList
  | .bitPump => "BitPump".toList
  | .azureus => "Azureus".toList
  | .bitBuddy => "BitBuddy".toList
  | .bitComet => "BitComet".toList
  | .bitflu => "Bitflu".toList
  | .btg => "BTG".toList
  | .bitRocket => "BitRocket".toList
  | .btSlave => "BTSlave".toList
  | .bittorrentX => "BitTorrent X".toList
  | .enhancedCTorrent => "Enhanced CTorrent".toList
  | .ctorrent => "CTorrent".toList
  | .deluge => "Deluge".toList
  | .propagateData => "Propagate Data Client".toList
  | .eBit => "EBit".toList
  | .electricSheep => "Electric Sheep".toList
  | .foxTorrent => "FoxTorrent".toList
  | .frostWire => "FrostWire".toList
  | .freebox => "Freebox BitTorrent".toList
  | .gsTorrent => "GSTorrent".toList
  | .halite => "Halite".toList
  | .hydranode => "Hydranode".toList
  | .kGet => "KGet".toList
  | .kTorrent => "KTorrent".toList
  | .lhAbc => "LH-ABC".toList
  | .lphant => "Lphant".toList
  | .libtorrent => "libtorrent".toList
  | .libTorrent => "libTorrent".toList
  | .limeWire => "LimeWire".toList
  | .monoTorrent => "MonoTorrent".toList
  | .mooPolice => "MooPolice".toList
  | .miro => "Miro".toList
  | .moonlightTorrent => "MoonlightTorrent".toList
  | .netTransport => "Net Transport".toList
  | .pando => "Pando".toList
  | .qbittorrent => "qBittorrent".toList
  | .qqDownload => "QQDownload".toList
  | .qtExample => "Qt 4 Torrent example".toList
  | .retriever => "Retriever".toList
  | .shareazaAlpha => "Shareaza (alpha/beta)".toList
  | .swiftbit => "Swiftbit".toList
  | .swarmScope => "SwarmScope".toList
  | .symTorrent => "SymTorrent".toList
  | .sharktorrent => "sharktorrent".toList
  | .shareaza => "Shareaza".toList
  | .tortillas => "Tortillas".toList
  | .torrentDotNet => "TorrentDotNET".toList
  | .transmission => "Transmission".toList
  | .torrentstorm => "Torrentstorm".toList
  | .tuoTu => "TuoTu".toList
  | .uLeecher => "uLeecher!".toList
  | .utorrent => "µTorrent".toList
  | .utorrentWeb => "µTorrent Web".toList
  | .vagaa => "Vagaa".toList
  | .webTorrentDesktop => "WebTorrent Desktop".toList
  | .bitLet => "BitLet".toList
  | .webTorrent => "WebTorrent".toList
  | .fireTorrent => "FireTorrent".toList
  | .xunlei => "Xunlei".toList
  | .xanTorrent => "XanTorrent".toList
  | .xtorrent => "Xtorrent".toList
  | .zipTorrent => "ZipTorrent".toList
  | .abc => "ABC".toList
  | .ospreyPermaseed => "Osprey Permaseed".toList
  | .btQueue => "BTQueue".toList
  | .tribler => "Tribler".toList
  | .shadowClient => "Shadow's client".toList
  | .bitTornado => "BitTornado".toList
  | .upnpNatBitTorrent => "UPnP NAT Bit Torrent".toList
  | .mainlineBitTorrent => "Mainline BitTorrent".toList
  | .bitCometLegacy => "BitComet (legacy)".toList
  | .xbtClient => "XBT Client".toList
  | .opera => "Opera".toList
  | .mlDonkey => "MLdonkey".toList
  | .bitsOnWheels => "Bits on Wheels".toList
  | .queenBee => "Queen Bee".toList
  | .bitTyrant => "BitTyrant".toList
  | .torrenTopia => "TorrenTopia".toList
  | .bitSpirit => "BitSpirit".toList
  | .rufus => "Rufus".toList
  | .g3Torrent => "G3 Torrent".toList
  | .flashGet => "FlashGet".toList
  | .allPeers => "AllPeers".toList
  | .unknown => "Unknown".toList

namespace PeerId

/-- `client_info`: the entry of the table that has the name of the variant. -/
def clientInfo (p : PeerId) : Outcome Empty ClientInfo :=
  if p.client = .unknown then .ok ⟨.unknown, ascii "??".toList, .azureus⟩
  else
    match Tortillas.clientInfo.find? (fun info => info.client = p.client) with
    | some info => .ok info
    | none => .panic

/-- `u8 as char` -/
def asChar (b : UInt8) : Char := Char.ofNat b.toNat

/-- `{:02}` -/
def twoDigits (n : ℕ) : Text := if n < 10 then '0' :: Nat.toDigits 10 n else Nat.toDigits 10 n

/-- `parts[i]` -/
def index (parts : List Text) (i : ℕ) : Outcome Empty Text :=
  match parts[i]? with
  | some part => .ok part
  | none => .panic

/-- The part of the version that follows the `M`. -/
def versionPart (id : Id) : Text := trimEndMatches '-' (fromUtf8Lossy (slice id 1 20))

def version (p : PeerId) : Outcome Empty (Option Text) := do
  let info ← p.clientInfo
  let id := p.id
  match info.format with
  | .azureus =>
      if azureusDashes id then
        .ok (some [asChar id[3], '.', asChar id[4], '.', asChar id[5], asChar id[6]])
      else .ok none
  | .shadow =>
      let versionStr := trimEndMatches '-' (fromUtf8Lossy (slice id 1 6))
      .ok (if versionStr ≠ [] then some versionStr else none)
  | .mainline =>
      if slice id 0 1 = ascii ['M'] then
        let versionPart := versionPart id
        if versionPart ≠ [] then do
          let parts := versionPart.splitOn '-'
          let major ← index parts 0
          let minor ← index parts 1
          let patch ← index parts 2
          .ok (some (major ++ ['.'] ++ minor ++ ['.'] ++ patch))
        else .ok none
      else .ok none
  | .bitCometLegacy =>
      if slice id 0 4 = ascii "exbc".toList then
        .ok (some (Nat.toDigits 10 id[4].toNat ++ ['.'] ++ twoDigits id[5].toNat))
      else .ok none
  | .xbt =>
      if slice id 0 3 = ascii "XBT".toList then
        .ok (some [asChar id[3], '.', asChar id[4], '.', asChar id[5]])
      else .ok none
  | .opera =>
      if slice id 0 2 = ascii "OP".toList then .ok (some ("build ".toList ++ fromUtf8Lossy (slice id 2 6)))
      else .ok none
  | _ => .ok none

/-- `Display` -/
def display (p : PeerId) : Outcome Empty Text := do
  match ← p.version with
  | some version => .ok (p.client.name ++ ' ' :: version)
  | none => .ok p.client.name

/-- **An id of the wire is shown, and it is kept**: its bytes are there, and they are filed under the same client
again. -/
def Shown (id : Id) : Prop :=
  (∃ version, (ofId id).version = .ok version) ∧ (∃ text, (ofId id).display = .ok text) ∧
    (ofId id).id = id ∧ ofId (ofId id).id = ofId id

example : (ofId #v[77, 52, 45, 51, 45, 54, 45, 45, 97, 98, 99, 100, 101, 102, 103, 104, 105, 106, 107, 108]).display =
    .ok "Mainline BitTorrent 4.3.6".toList := by decide

/-! ### The table -/

theorem isSome_find_client {client : Client} (h : client ≠ .unknown) :
    (Tortillas.clientInfo.find? fun info => info.client = client).isSome := by
  revert h
  cases client <;> decide

/-- Every client is in the table, so that `unwrap` does not panic; and only one of them has the style of the main
line. -/
theorem clientInfo_eq_ok (p : PeerId) :
    ∃ info, p.clientInfo = .ok info ∧ (info.format = .mainline ↔ p.client = .mainlineBitTorrent) := by
  rw [clientInfo]
  by_cases hunknown : p.client = .unknown
  · rw [if_pos hunknown, hunknown]
    exact ⟨_, rfl, by decide⟩
  · rw [if_neg hunknown]
    have htable : ∀ info ∈ Tortillas.clientInfo, info.format = .mainline ↔ info.client = .mainlineBitTorrent := by
      decide
    cases hfind : Tortillas.clientInfo.find? fun info => info.client = p.client with
    | none =>
        have hsome := isSome_find_client hunknown
        rw [hfind] at hsome
        exact absurd hsome nofun
    | some info =>
        have hclient : info.client = p.client := by simpa using List.find?_some hfind
        exact ⟨info, rfl, hclient ▸ htable info (List.mem_of_find?_eq_some hfind)⟩

theorem slice_one (id : Id) : slice id 0 1 = [id[0]] := by
  have hlength : 0 < id.toList.length := by rw [Vector.length_toList]; decide
  rw [slice, List.drop_zero, List.take_one, List.head?_eq_getElem?, List.getElem?_eq_getElem hlength,
    Vector.getElem_toList]
  rfl

theorem slice_tail (id : Id) : slice id 1 20 = id.toList.tail := by
  rw [slice, List.drop_one]
  refine List.take_of_length_le ?_
  rw [List.length_tail, Vector.length_toList]

/-- What an id of the main line begins with. -/
theorem slice_eq_M_iff (id : Id) : slice id 0 1 = ascii ['M'] ↔ id[0] = 77 := by
  have hM : ascii ['M'] = [77] := by decide
  rw [slice_one, hM, List.singleton_inj]

/-- The entries in front of the main line, and those behind it. -/
theorem clientInfo_eq_append : ∃ front back : List ClientInfo,
    Tortillas.clientInfo = front ++ ⟨.mainlineBitTorrent, ascii ['M'], .mainline⟩ :: back ∧
      ∀ info ∈ front, info.format = .azureus ∨ info.format = .shadow ∧ info.pfx.length = 1 ∧ info.pfx ≠ ascii ['M'] :=
  ⟨Tortillas.clientInfo.take 72, Tortillas.clientInfo.drop 73, rfl, by decide⟩

theorem matchesFormat_azureus (id : Id) (pfx : Bytes) :
    matchesFormat id pfx .azureus = (azureusDashes id && slice id 1 3 == pfx) := rfl

theorem matchesFormat_shadow (id : Id) (pfx : Bytes) :
    matchesFormat id pfx .shadow = (slice id 0 pfx.length == pfx) := rfl

theorem matchesFormat_mainline (id : Id) :
    matchesFormat id (ascii ['M']) .mainline = true ↔ id[0] = 77 := beq_iff_eq.trans (slice_eq_M_iff id)

/-- **The style of the main line is that of the ids that begin with an `M`.**  No entry in front of it takes such an
id. -/
theorem classify_eq_mainline_iff (id : Id) : classify id = .mainlineBitTorrent ↔ id[0] = 77 := by
  refine ⟨fun hclient => ?_, fun hM => ?_⟩
  · have htable : ∀ info ∈ Tortillas.clientInfo, info.client = .mainlineBitTorrent →
        info.format = .mainline ∧ info.pfx = ascii ['M'] := by decide
    simp only [classify] at hclient
    cases hazureus : Tortillas.clientInfo.find? fun c =>
        azureusDashes id && c.format == .azureus && slice id 1 3 == c.pfx with
    | some info =>
        rw [hazureus] at hclient
        obtain ⟨hformat, -⟩ := htable info (List.mem_of_find?_eq_some hazureus) hclient
        have hfound := List.find?_some hazureus
        rw [hformat] at hfound
        simp at hfound
    | none =>
        rw [hazureus, Option.none_or] at hclient
        cases hother : Tortillas.clientInfo.find? fun c => matchesFormat id c.pfx c.format with
        | none =>
            rw [hother] at hclient
            exact absurd hclient nofun
        | some info =>
            rw [hother] at hclient
            obtain ⟨hformat, hpfx⟩ := htable info (List.mem_of_find?_eq_some hother) hclient
            have hfound := List.find?_some hother
            rw [hformat, hpfx] at hfound
            exact (matchesFormat_mainline id).1 hfound
  · have hdashes : azureusDashes id = false := by
      rw [azureusDashes, slice_one, hM]
      rfl
    obtain ⟨front, back, htable, hfront⟩ := clientInfo_eq_append
    have hnone : ∀ info ∈ front, matchesFormat id info.pfx info.format = false := by
      intro info hinfo
      rcases hfront info hinfo with hformat | ⟨hformat, hlength, hpfx⟩
      · rw [hformat, matchesFormat_azureus, hdashes, Bool.false_and]
      · rw [hformat, matchesFormat_shadow, hlength, beq_eq_false_iff_ne, (slice_eq_M_iff id).2 hM]
        exact hpfx.symm
    have hazureus : (Tortillas.clientInfo.find? fun c =>
        azureusDashes id && c.format == .azureus && slice id 1 3 == c.pfx) = none := by
      refine List.find?_eq_none.2 fun info _ => ?_
      rw [hdashes, Bool.false_and, Bool.false_and]
      exact Bool.false_ne_true
    have hother : (Tortillas.clientInfo.find? fun c => matchesFormat id c.pfx c.format) =
        some ⟨.mainlineBitTorrent, ascii ['M'], .mainline⟩ := by
      rw [htable, List.find?_append, List.find?_eq_none.2 fun info hinfo => by simp [hnone info hinfo],
        Option.none_or, List.find?_cons_of_pos]
      exact (matchesFormat_mainline id).2 hM
    simp only [classify, hazureus, hother]
    rfl

/-! ### Versions -/

theorem length_splitOn {α : Type} [DecidableEq α] (sep : α) (l : List α) :
    (l.splitOn sep).length = l.count sep + 1 := by
  induction l with
  | nil => rw [List.splitOn_nil]; rfl
  | cons c l ih =>
      rw [List.splitOn_cons_eq_if_modifyHead, List.count_cons]
      split
      · rw [List.length_cons, ih]
      · rw [List.length_modifyHead, ih, Nat.add_zero]

theorem index_of_lt {parts : List Text} {i : ℕ} (h : i < parts.length) : index parts i = .ok parts[i] := by
  rw [index, List.getElem?_eq_getElem h]

theorem index_of_le {parts : List Text} {i : ℕ} (h : parts.length ≤ i) : index parts i = .panic := by
  rw [index, List.getElem?_eq_none h]

/-- Every other format takes the version from fixed places. -/
theorem version_eq_ok {p : PeerId} (h : p.client ≠ .mainlineBitTorrent) : ∃ version, p.version = .ok version := by
  obtain ⟨info, hinfo, hformat⟩ := clientInfo_eq_ok p
  have hne : info.format ≠ .mainline := fun heq => h (hformat.1 heq)
  rw [version, hinfo, Outcome.ok_bind]
  cases hformat : info.format with
  | mainline => exact absurd hformat hne
  | azureus => dsimp only; split <;> exact ⟨_, rfl⟩
  | shadow => exact ⟨_, rfl⟩
  | bitCometLegacy => dsimp only; split <;> exact ⟨_, rfl⟩
  | xbt => dsimp only; split <;> exact ⟨_, rfl⟩
  | opera => dsimp only; split <;> exact ⟨_, rfl⟩
  | mlDonkey | bitsOnWheels | queenBee | bitTyrant | torrenTopia | bitSpirit | rufus | g3Torrent | flashGet
    | allPeers => exact ⟨_, rfl⟩

/-- The three parts of a version of the main line are taken from the front of its parts. -/
theorem version_mainline {p : PeerId} (hclient : p.client = .mainlineBitTorrent) (hM : p.id[0] = 77) :
    (∃ version, p.version = .ok version) ↔ versionPart p.id = [] ∨ 2 ≤ (versionPart p.id).count '-' := by
  obtain ⟨info, hinfo, hformat⟩ := clientInfo_eq_ok p
  rw [version, hinfo, Outcome.ok_bind, hformat.2 hclient]
  dsimp only
  rw [if_pos ((slice_eq_M_iff p.id).2 hM)]
  by_cases hnil : versionPart p.id = []
  · rw [if_neg (not_not_intro hnil)]
    exact iff_of_true ⟨none, rfl⟩ (.inl hnil)
  · rw [if_pos hnil, or_iff_right hnil]
    have hlength := length_splitOn '-' (versionPart p.id)
    by_cases hcount : 2 ≤ (versionPart p.id).count '-'
    · rw [index_of_lt (i := 0) (by omega), index_of_lt (i := 1) (by omega), index_of_lt (i := 2) (by omega)]
      exact iff_of_true ⟨_, rfl⟩ hcount
    · refine iff_of_false ?_ hcount
      rintro ⟨version, hversion⟩
      obtain ⟨major, -, hversion⟩ := Outcome.bind_eq_ok.1 hversion
      obtain ⟨minor, -, hversion⟩ := Outcome.bind_eq_ok.1 hversion
      obtain ⟨patch, hpatch, -⟩ := Outcome.bind_eq_ok.1 hversion
      rw [index_of_le (by omega)] at hpatch
      exact absurd hpatch nofun

/-- An id is shown if it has a version, or has none, but not if taking it panics. -/
theorem display_eq_ok_iff (p : PeerId) : (∃ text, p.display = .ok text) ↔ ∃ version, p.version = .ok version := by
  rw [display]
  cases p.version with
  | ok version =>
      refine iff_of_true ?_ ⟨version, rfl⟩
      cases version <;> exact ⟨_, rfl⟩
  | err e => exact e.elim
  | panic => exact iff_of_false (fun ⟨_, h⟩ => absurd h nofun) (fun ⟨_, h⟩ => absurd h nofun)

/-! ### Which ids are shown -/

/-- What follows the first byte of an id, without the dashes at the end, is nothing or has two dashes. -/
def DashedVersion (id : Id) : Prop :=
  let rest := trimEndMatches 45 id.toList.tail
  rest = [] ∨ 2 ≤ rest.count 45

instance (id : Id) : Decidable (DashedVersion id) := inferInstanceAs (Decidable (_ ∨ _))

/-- The dashes of the text are those of the bytes. -/
theorem dashedVersion_iff (id : Id) : DashedVersion id ↔ versionPart id = [] ∨ 2 ≤ (versionPart id).count '-' := by
  have hmarks := (marks_fromUtf8Lossy (b := 45) (by decide) (slice id 1 20)).trimEndMatches
  have hletter : letterOf 45 = '-' := by decide
  rw [hletter, slice_tail] at hmarks
  rw [DashedVersion, versionPart, slice_tail, hmarks.eq_nil_iff, hmarks.count]

/-- **An id is shown exactly if it has no version of the main line, or a whole one.**  All other ids are shown, and
every id is kept. -/
theorem shown_iff (id : Id) : Shown id ↔ (id[0] = 77 → DashedVersion id) := by
  have hshown : Shown id ↔ ∃ version, (ofId id).version = .ok version := by
    rw [Shown, display_eq_ok_iff]
    exact ⟨And.left, fun h => ⟨h, h, ofId_id id, ofId_ofId_id id⟩⟩
  rw [hshown]
  by_cases hM : id[0] = 77
  · rw [forall_prop_of_true hM, dashedVersion_iff]
    exact version_mainline (p := ofId id) ((classify_eq_mainline_iff id).2 hM) hM
  · have hclient : (ofId id).client ≠ .mainlineBitTorrent := mt (classify_eq_mainline_iff id).1 hM
    exact iff_of_true (version_eq_ok hclient) fun h => absurd h hM

/-- `MtorrentClient123456`: an `M`, and no dashes behind it. -/
theorem display_panics :
    let id : Id := #v[77, 116, 111, 114, 114, 101, 110, 116, 67, 108, 105, 101, 110, 116, 49, 50, 51, 52, 53, 54]
    (ofId id).version = .panic ∧ (ofId id).display = .panic ∧ ¬ Shown id := by
  intro id
  have hversion : (ofId id).version = .panic := by decide
  refine ⟨hversion, by decide, ?_⟩
  rintro ⟨⟨version, hok⟩, -⟩
  rw [hversion] at hok
  exact absurd hok nofun

end PeerId

end Tortillas
