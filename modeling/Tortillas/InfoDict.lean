/-
**Info dictionaries, read and written.**

`metainfo/file.rs`: the info dictionary is a record whose fields are the listed keys of a bencoded
dictionary.  The keys for the files are those of an enumeration without a tag, flattened into the
record: the dictionary is tried for a single file first, and then for a list of files, which is empty
when it is missing.  Keys that are not listed are ignored.  Writing goes the other way: one entry for
each field that is present, in the order of the keys.  What is written for a dictionary that was read
is that dictionary, but for a few kinds of dictionaries.

Main definitions:

* `Info.deserialize`, `Info.serialize` — reading and writing the record;
* `Info.Listed` — the dictionary has no other keys than those of the record that is read from it.

Main results:

* `InfoFile.serialize_eq_iff`, `Info.serialize_eq_iff` — **what is written for a dictionary that was
  read is the dictionary exactly if it is listed**.
-/

import Tortillas.BencodeDecode
import Tortillas.Chunks
import Tortillas.Fields
import Tortillas.MetaInfo

set_option relaxedAutoImplicit false
set_option autoImplicit false

namespace Tortillas

/-! ### The keys -/

namespace Key

def files : Bytes := ascii ['f', 'i', 'l', 'e', 's']
def length : Bytes := ascii ['l', 'e', 'n', 'g', 't', 'h']
def md5sum : Bytes := ascii ['m', 'd', '5', 's', 'u', 'm']
def name : Bytes := ascii ['n', 'a', 'm', 'e']
def path : Bytes := ascii ['p', 'a', 't', 'h']
def pieceLength : Bytes := ascii ['p', 'i', 'e', 'c', 'e', ' ', 'l', 'e', 'n', 'g', 't', 'h']
def pieces : Bytes := ascii ['p', 'i', 'e', 'c', 'e', 's']
def isPrivate : Bytes := ascii ['p', 'r', 'i', 'v', 'a', 't', 'e']
def publisher : Bytes := ascii ['p', 'u', 'b', 'l', 'i', 's', 'h', 'e', 'r']
def publisherUrl : Bytes :=
  ascii ['p', 'u', 'b', 'l', 'i', 's', 'h', 'e', 'r', '-', 'u', 'r', 'l']
def source : Bytes := ascii ['s', 'o', 'u', 'r', 'c', 'e']

/-- The keys of a file. -/
def ofFile : List Bytes := [length, md5sum, path]

/-- The keys of an info dictionary. -/
def ofInfo : List Bytes :=
  [files, length, md5sum, name, pieceLength, pieces, isPrivate, publisher, publisherUrl, source]

theorem sorted_ofFile : ofFile.Pairwise (· < ·) := by decide

theorem sorted_ofInfo : ofInfo.Pairwise (· < ·) := by decide

end Key

/-! ### Reading and writing values -/

/-- Text as bytes, and back. -/
def utf8 (text : Text) : Bytes := (String.ofList text).toUTF8.data.toList

def readUtf8 (b : Bytes) : Option Text := (String.fromUTF8? ⟨b.toArray⟩).map String.toList

def readText : Bencode → Option Text
  | .bytes b => readUtf8 b
  | _ => none

def writeText (text : Text) : Bencode := .bytes (utf8 text)

/-- A number of 64 bits.  Numbers in a bencoded text are signed ones. -/
def readU64 : Bencode → Option UInt64
  | .int n => if 0 ≤ n ∧ n < 2 ^ 63 then some (UInt64.ofNat n.toNat) else none
  | _ => none

def writeU64 (n : UInt64) : Bencode := .int n.toNat

def readU8 : Bencode → Option UInt8
  | .int n => if 0 ≤ n ∧ n < 2 ^ 8 then some (UInt8.ofNat n.toNat) else none
  | _ => none

/-- `BoolFromInt`. -/
def readBool : Bencode → Option Bool
  | .int n => if n = 0 then some false else if n = 1 then some true else none
  | _ => none

def writeBool (b : Bool) : Bencode := .int (if b then 1 else 0)

def readPath : Bencode → Option Path
  | .list items => items.mapM readText
  | _ => none

def writePath (path : Path) : Bencode := .list (path.map writeText)

/-- Hashes of 20 bytes each, one behind the other. -/
def hashesOf (b : Bytes) : Option (List Bytes) :=
  if b.length % 20 = 0 then
    some ((List.range (b.length / 20)).map fun i => (b.drop (20 * i)).take 20)
  else none

/-- `HashVec` is read from a byte string, and also from a list of bytes. -/
def readHashes : Bencode → Option (List Bytes)
  | .bytes b => hashesOf b
  | .list items => (items.mapM readU8).bind hashesOf
  | _ => none

def writeHashes (hashes : List Bytes) : Bencode := .bytes hashes.flatten

/-- A key that has to be there. -/
def required {α : Type} (read : Bencode → Option α) (found : Option Bencode) : Option α :=
  found.bind read

/-- A key that may be missing. -/
def optional {α : Type} (read : Bencode → Option α) : Option Bencode → Option (Option α)
  | none => some none
  | some v => (read v).map some

/-! ### Files -/

namespace InfoFile

/-- A file is read from a dictionary, or from a list with a value for each key. -/
def deserialize : Bencode → Option InfoFile
  | .dict entries => do
      let length ← required readU64 (entries.lookup Key.length)
      let path ← required readPath (entries.lookup Key.path)
      let md5sum ← optional readText (entries.lookup Key.md5sum)
      some ⟨length, path, md5sum⟩
  | .list [length, path, md5sum] => do
      let length ← readU64 length
      let path ← readPath path
      let md5sum ← readText md5sum
      some ⟨length, path, some md5sum⟩
  | _ => none

def fields (file : InfoFile) : List (Bytes × Option Bencode) :=
  [(Key.length, some (writeU64 file.length)),
    (Key.md5sum, file.md5sum.map writeText),
    (Key.path, some (writePath file.path))]

def serialize (file : InfoFile) : Bencode := .dict (present file.fields)

end InfoFile

def readFiles : Bencode → Option (List InfoFile)
  | .list items => items.mapM InfoFile.deserialize
  | _ => none

namespace InfoKeys

/-- The variant for a single file. -/
def readSingle (entries : List (Bytes × Bencode)) : Option InfoKeys := do
  let length ← required readU64 (entries.lookup Key.length)
  let md5sum ← optional readText (entries.lookup Key.md5sum)
  some (.single length md5sum)

/-- The variant for several files; without the key there are none. -/
def readMulti (entries : List (Bytes × Bencode)) : Option InfoKeys :=
  match entries.lookup Key.files with
  | none => some (.multi [])
  | some v => (readFiles v).map .multi

/-- The variants are tried in order. -/
def deserialize (entries : List (Bytes × Bencode)) : Option InfoKeys :=
  match readSingle entries with
  | some keys => some keys
  | none => readMulti entries

def fields : InfoKeys → List (Bytes × Option Bencode)
  | .single length md5sum =>
      [(Key.files, none), (Key.length, some (writeU64 length)),
        (Key.md5sum, md5sum.map writeText)]
  | .multi files =>
      [(Key.files, some (.list (files.map InfoFile.serialize))), (Key.length, none),
        (Key.md5sum, none)]

end InfoKeys

/-! ### The info dictionary -/

namespace Info

/-- Reading an info dictionary, for dictionaries in which no key is repeated. -/
def deserialize : Bencode → Option (Info Bytes)
  | .dict entries => do
      let name ← required readText (entries.lookup Key.name)
      let pieceLength ← required readU64 (entries.lookup Key.pieceLength)
      let pieces ← required readHashes (entries.lookup Key.pieces)
      let file ← InfoKeys.deserialize entries
      let isPrivate ← optional readBool (entries.lookup Key.isPrivate)
      let publisher ← optional readText (entries.lookup Key.publisher)
      let publisherUrl ← optional readText (entries.lookup Key.publisherUrl)
      let source ← optional readText (entries.lookup Key.source)
      some ⟨name, pieceLength, pieces, file, isPrivate, publisher, publisherUrl, source⟩
  | _ => none

/-- The fields, in the order of their keys. -/
def fields (info : Info Bytes) : List (Bytes × Option Bencode) :=
  info.file.fields ++
    [(Key.name, some (writeText info.name)),
      (Key.pieceLength, some (writeU64 info.pieceLength)),
      (Key.pieces, some (writeHashes info.pieces)),
      (Key.isPrivate, info.isPrivate.map writeBool),
      (Key.publisher, info.publisher.map writeText),
      (Key.publisherUrl, info.publisherUrl.map writeText),
      (Key.source, info.source.map writeText)]

/-- Writing an info dictionary. -/
def serialize (info : Info Bytes) : Bencode := .dict (present info.fields)

end Info

/-! ### What is read is written back -/

theorem utf8_of_readUtf8 {b : Bytes} {text : Text} (h : readUtf8 b = some text) :
    utf8 text = b := by
  obtain ⟨s, hs, rfl⟩ := Option.map_eq_some_iff.1 h
  rw [String.fromUTF8?] at hs
  split at hs
  · cases hs
    rw [utf8, String.ofList_toList]
    rfl
  · cases hs

theorem readUtf8_utf8 (text : Text) : readUtf8 (utf8 text) = some text := by
  have hbytes : (⟨(String.ofList text).toUTF8.data.toList.toArray⟩ : ByteArray) =
      (String.ofList text).toUTF8 := rfl
  rw [readUtf8, utf8, hbytes, String.fromUTF8?, dif_pos (show (String.ofList text).toUTF8.IsValidUTF8 from (String.ofList text).isValidUTF8)]
  exact congrArg some String.toList_ofList

theorem writeText_of_readText {v : Bencode} {text : Text} (h : readText v = some text) :
    writeText text = v := by
  cases v with
  | bytes b => rw [writeText, utf8_of_readUtf8 h]
  | int n => cases h
  | list items => cases h
  | dict entries => cases h

theorem writeU64_of_readU64 {v : Bencode} {n : UInt64} (h : readU64 v = some n) :
    writeU64 n = v := by
  cases v with
  | int m =>
      rw [readU64] at h
      split at h
      · rename_i hrange
        cases h
        rw [writeU64, UInt64.toNat_ofNat', Nat.mod_eq_of_lt (by omega)]
        congr 1
        omega
      · cases h
  | bytes b => cases h
  | list items => cases h
  | dict entries => cases h

theorem writeBool_of_readBool {v : Bencode} {b : Bool} (h : readBool v = some b) :
    writeBool b = v := by
  cases v with
  | int n =>
      rw [readBool] at h
      split at h
      · rename_i hzero
        cases h
        rw [hzero]
        rfl
      · split at h
        · rename_i hone
          cases h
          rw [hone]
          rfl
        · cases h
  | bytes b => cases h
  | list items => cases h
  | dict entries => cases h

/-- Items that are each written back are written back. -/
theorem map_of_mapM {α : Type} {read : Bencode → Option α} {write : α → Bencode}
    (hwrite : ∀ {v a}, read v = some a → write a = v) {items : List Bencode} {as : List α}
    (h : items.mapM read = some as) : as.map write = items := by
  induction items generalizing as with
  | nil =>
      cases h
      rfl
  | cons v items ih =>
      rw [List.mapM_cons] at h
      obtain ⟨a, ha, h⟩ := Option.bind_eq_some_iff.1 h
      obtain ⟨as', has, h⟩ := Option.bind_eq_some_iff.1 h
      cases h
      rw [List.map_cons, hwrite ha, ih has]

theorem writePath_of_readPath {v : Bencode} {path : Path} (h : readPath v = some path) :
    writePath path = v := by
  cases v with
  | list items => rw [writePath, map_of_mapM writeText_of_readText h]
  | int n => cases h
  | bytes b => cases h
  | dict entries => cases h

theorem flatten_of_hashesOf {b : Bytes} {hashes : List Bytes} (h : hashesOf b = some hashes) :
    hashes.flatten = b := by
  rw [hashesOf] at h
  split at h
  · rename_i hmod
    cases h
    simp only [Nat.mul_comm 20]
    rw [← List.flatMap_def, flatMap_pieces, List.take_of_length_le (by omega)]
  · cases h

/-- What is under a key that has to be there is written back. -/
theorem found_of_required {α : Type} {read : Bencode → Option α} {write : α → Bencode}
    (hwrite : ∀ {v a}, read v = some a → write a = v) {found : Option Bencode} {a : α}
    (h : required read found = some a) : found = some (write a) := by
  obtain ⟨v, rfl, ha⟩ := Option.bind_eq_some_iff.1 h
  rw [hwrite ha]

/-- What is under a key that may be missing is written back. -/
theorem found_of_optional {α : Type} {read : Bencode → Option α} {write : α → Bencode}
    (hwrite : ∀ {v a}, read v = some a → write a = v) {found : Option Bencode} {o : Option α}
    (h : optional read found = some o) : found = o.map write := by
  cases found with
  | none =>
      cases h
      rfl
  | some v =>
      obtain ⟨a, ha, rfl⟩ := Option.map_eq_some_iff.1 h
      rw [Option.map_some, hwrite ha]

/-! ### Canonical values -/

namespace Bencode

mutual

/-- The keys of every dictionary in a value are in order, and different. -/
def Sorted : Bencode → Prop
  | int _ => True
  | bytes _ => True
  | list items => SortedItems items
  | dict entries => SortedKeys entries ∧ SortedEntries entries

def SortedItems : List Bencode → Prop
  | [] => True
  | v :: items => Sorted v ∧ SortedItems items

def SortedEntries : List (Bytes × Bencode) → Prop
  | [] => True
  | (_, v) :: entries => Sorted v ∧ SortedEntries entries

end

theorem sortedItems_iff {items : List Bencode} : SortedItems items ↔ ∀ v ∈ items, Sorted v := by
  induction items with
  | nil => simp [SortedItems]
  | cons v items ih => rw [SortedItems, ih, List.forall_mem_cons]

theorem sortedEntries_iff {entries : List (Bytes × Bencode)} :
    SortedEntries entries ↔ ∀ entry ∈ entries, Sorted entry.2 := by
  induction entries with
  | nil => simp [SortedEntries]
  | cons entry entries ih => rw [SortedEntries, ih, List.forall_mem_cons]

/-- What is found in a canonical dictionary is canonical. -/
theorem Sorted.of_lookup {entries : List (Bytes × Bencode)} (h : (dict entries).Sorted) {k : Bytes}
    {v : Bencode} (hv : entries.lookup k = some v) : v.Sorted := by
  rw [Sorted] at h
  exact sortedEntries_iff.1 h.2 (k, v) (h.1.mem_iff_lookup.2 hv)

end Bencode

/-! ### Files -/

/-- A file that is a dictionary without other keys. -/
def ListedFile : Bencode → Prop
  | .dict entries => ∀ entry ∈ entries, entry.1 ∈ Key.ofFile
  | _ => False

theorem InfoFile.sortedKeys_fields (file : InfoFile) : SortedKeys file.fields :=
  List.pairwise_map.1 Key.sorted_ofFile

/-- **What is written for a file that was read is what was read exactly if it is listed.** -/
theorem InfoFile.serialize_eq_iff {v : Bencode} {file : InfoFile} (hv : v.Sorted)
    (h : InfoFile.deserialize v = some file) : file.serialize = v ↔ ListedFile v := by
  cases v with
  | int n => cases h
  | bytes b => cases h
  | list items =>
      refine iff_of_false ?_ id
      rw [InfoFile.serialize]
      exact nofun
  | dict entries =>
      rw [Bencode.Sorted] at hv
      rw [InfoFile.deserialize] at h
      obtain ⟨length, hlength, h⟩ := Option.bind_eq_some_iff.1 h
      obtain ⟨path, hpath, h⟩ := Option.bind_eq_some_iff.1 h
      obtain ⟨md5sum, hmd5sum, h⟩ := Option.bind_eq_some_iff.1 h
      cases h
      rw [InfoFile.serialize, Bencode.dict.injEq, present_eq_iff (sortedKeys_fields _) hv.1]
      refine and_iff_left ?_
      -- under its own keys the file has what was read
      simp only [InfoFile.fields, List.forall_mem_cons, List.not_mem_nil, false_imp_iff,
        implies_true, and_true]
      exact ⟨found_of_required writeU64_of_readU64 hlength,
        found_of_optional writeText_of_readText hmd5sum,
        found_of_required writePath_of_readPath hpath⟩

/-- The same for a list of files. -/
theorem map_serialize_eq_iff {items : List Bencode} {files : List InfoFile}
    (hsorted : ∀ v ∈ items, v.Sorted) (h : items.mapM InfoFile.deserialize = some files) :
    files.map InfoFile.serialize = items ↔ ∀ v ∈ items, ListedFile v := by
  induction items generalizing files with
  | nil =>
      cases h
      simp
  | cons v items ih =>
      rw [List.mapM_cons] at h
      obtain ⟨file, hfile, h⟩ := Option.bind_eq_some_iff.1 h
      obtain ⟨files', hfiles, h⟩ := Option.bind_eq_some_iff.1 h
      cases h
      rw [List.forall_mem_cons] at hsorted
      rw [List.map_cons, List.cons.injEq, InfoFile.serialize_eq_iff hsorted.1 hfile,
        ih hsorted.2 hfiles, List.forall_mem_cons]

/-! ### The info dictionary -/

namespace Info

/-- The keys for the files are those of one variant: of a single file, or of a list of files without
other keys. -/
def ListedKeys (entries : List (Bytes × Bencode)) : Prop :=
  (InfoKeys.readSingle entries).isSome ∧ entries.lookup Key.files = none ∨
    (∃ items, entries.lookup Key.files = some (.list items) ∧ ∀ v ∈ items, ListedFile v) ∧
      entries.lookup Key.length = none ∧ entries.lookup Key.md5sum = none

/-- The dictionary has no other keys than those of the record that is read from it, and its hashes
are a byte string. -/
structure Listed (entries : List (Bytes × Bencode)) : Prop where
  keys : ∀ entry ∈ entries, entry.1 ∈ Key.ofInfo
  pieces : ∃ b, entries.lookup Key.pieces = some (.bytes b)
  file : ListedKeys entries

end Info

/-- The fields for the files agree with the dictionary exactly if it has those of one variant. -/
theorem InfoKeys.fields_iff {entries : List (Bytes × Bencode)} {keys : InfoKeys}
    (hsorted : (Bencode.dict entries).Sorted) (h : InfoKeys.deserialize entries = some keys) :
    (∀ field ∈ keys.fields, entries.lookup field.1 = field.2) ↔ Info.ListedKeys entries := by
  rw [InfoKeys.deserialize] at h
  rw [Info.ListedKeys]
  cases hsingle : InfoKeys.readSingle entries with
  | some found =>
      rw [hsingle] at h
      cases h
      rw [InfoKeys.readSingle] at hsingle
      obtain ⟨length, hlength, hsingle⟩ := Option.bind_eq_some_iff.1 hsingle
      obtain ⟨md5sum, hmd5sum, hsingle⟩ := Option.bind_eq_some_iff.1 hsingle
      cases hsingle
      have hlength := found_of_required writeU64_of_readU64 hlength
      have hmd5sum := found_of_optional writeText_of_readText hmd5sum
      simp only [InfoKeys.fields, List.forall_mem_cons, List.not_mem_nil, false_imp_iff,
        implies_true, and_true, hlength, hmd5sum, Option.isSome_some, true_and, reduceCtorEq,
        false_and, and_false, or_false]
  | none =>
      rw [hsingle] at h
      rw [InfoKeys.readMulti] at h
      cases hfiles : entries.lookup Key.files with
      | none =>
          rw [hfiles] at h
          cases h
          simp [InfoKeys.fields, hfiles]
      | some v =>
          rw [hfiles] at h
          obtain ⟨files, hread, rfl⟩ := Option.map_eq_some_iff.1 h
          cases v with
          | int n => cases hread
          | bytes b => cases hread
          | dict entries' => cases hread
          | list items =>
              have hitems := hsorted.of_lookup hfiles
              rw [Bencode.Sorted, Bencode.sortedItems_iff] at hitems
              have hlisted := map_serialize_eq_iff hitems hread
              simp only [InfoKeys.fields, List.forall_mem_cons, List.not_mem_nil, false_imp_iff,
                implies_true, and_true, hfiles, Option.some.injEq, Bencode.list.injEq,
                Option.isSome_none, Bool.false_eq_true, false_and, false_or, exists_eq_left',
                ← hlisted]
              exact and_congr_left' eq_comm

theorem Info.map_fst_fields (info : Info Bytes) : info.fields.map Prod.fst = Key.ofInfo := by
  rw [Info.fields]
  cases info.file with
  | single length md5sum => rfl
  | multi files => rfl

theorem Info.sortedKeys_fields (info : Info Bytes) : SortedKeys info.fields := by
  refine List.pairwise_map.1 ?_
  rw [info.map_fst_fields]
  exact Key.sorted_ofInfo

/-- The hashes are written back exactly if they were a byte string. -/
theorem writeHashes_iff {found : Option Bencode} {hashes : List Bytes}
    (h : required readHashes found = some hashes) :
    found = some (writeHashes hashes) ↔ ∃ b, found = some (.bytes b) := by
  obtain ⟨v, rfl, hread⟩ := Option.bind_eq_some_iff.1 h
  constructor
  · intro hv
    exact ⟨_, hv⟩
  · rintro ⟨b, hb⟩
    cases hb
    rw [writeHashes, flatten_of_hashesOf hread]

/-- **What is written for a dictionary that was read is the dictionary exactly if it is listed.** -/
theorem Info.serialize_eq_iff {entries : List (Bytes × Bencode)} {info : Info Bytes}
    (hsorted : (Bencode.dict entries).Sorted)
    (h : Info.deserialize (.dict entries) = some info) :
    info.serialize = .dict entries ↔ Info.Listed entries := by
  have hkeys : SortedKeys entries := by
    rw [Bencode.Sorted] at hsorted
    exact hsorted.1
  rw [Info.deserialize] at h
  obtain ⟨name, hname, h⟩ := Option.bind_eq_some_iff.1 h
  obtain ⟨pieceLength, hpieceLength, h⟩ := Option.bind_eq_some_iff.1 h
  obtain ⟨pieces, hpieces, h⟩ := Option.bind_eq_some_iff.1 h
  obtain ⟨file, hfile, h⟩ := Option.bind_eq_some_iff.1 h
  obtain ⟨isPrivate, hisPrivate, h⟩ := Option.bind_eq_some_iff.1 h
  obtain ⟨publisher, hpublisher, h⟩ := Option.bind_eq_some_iff.1 h
  obtain ⟨publisherUrl, hpublisherUrl, h⟩ := Option.bind_eq_some_iff.1 h
  obtain ⟨source, hsource, h⟩ := Option.bind_eq_some_iff.1 h
  cases h
  rw [Info.serialize, Bencode.dict.injEq, present_eq_iff (sortedKeys_fields _) hkeys,
    map_fst_fields, Info.fields, List.forall_mem_append, InfoKeys.fields_iff hsorted hfile]
  simp only [List.forall_mem_cons, List.not_mem_nil, false_imp_iff, implies_true, and_true,
    writeHashes_iff hpieces]
  constructor
  · rintro ⟨hlisted, hvariant, -, -, hbytes, -⟩
    exact ⟨hlisted, hbytes, hvariant⟩
  · intro hlisted
    exact ⟨hlisted.keys, hlisted.file, found_of_required writeText_of_readText hname,
      found_of_required writeU64_of_readU64 hpieceLength, hlisted.pieces,
      found_of_optional writeBool_of_readBool hisPrivate,
      found_of_optional writeText_of_readText hpublisher,
      found_of_optional writeText_of_readText hpublisherUrl,
      found_of_optional writeText_of_readText hsource⟩

end Tortillas
