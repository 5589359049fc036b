/-
**Metadata of a torrent.**

`metainfo/file.rs` and `metainfo/magnet.rs`: the info dictionary with its piece hashes and files,
and the two sources it comes from, a `.torrent` file or a magnet link.  Hashing and the bencode
serialisation of the dictionary are third-party code; they enter as a parameter, `Codec`, over an
arbitrary type of hashes.

Main definitions:

* `Info`, `InfoKeys`, `InfoFile` — the info dictionary;
* `MetaInfo` — the source of a torrent;
* `Codec` — SHA-1, the bencode serialisation of `Info`, and the hexadecimal text of a hash.
-/

import Tortillas.Bytes
import Tortillas.Usize

set_option relaxedAutoImplicit false
set_option autoImplicit false

namespace Tortillas

/-- The text of a name or of a path component. -/
abbrev Text := List Char

/-- A path, by its components. -/
abbrev Path := List Text

structure InfoFile where
  length : UInt64
  path : Path
  md5sum : Option Text
  deriving DecidableEq

inductive InfoKeys
  | single (length : UInt64) (md5sum : Option Text)
  | multi (files : List InfoFile)
  deriving DecidableEq

/-- The info dictionary; `H` is the type of hashes. -/
structure Info (H : Type) where
  name : Text
  pieceLength : UInt64
  pieces : List H
  file : InfoKeys
  isPrivate : Option Bool
  publisher : Option Text
  publisherUrl : Option Text
  source : Option Text
  deriving DecidableEq

/-- The source of a torrent.  A magnet link carries the hash it names, if it names one. -/
inductive MetaInfo (H : Type)
  | torrent (info : Info H)
  | magnetUri (xt : Option H)
  deriving DecidableEq

/-- The third-party functions the program hashes and serialises with. -/
structure Codec (H : Type) where
  sha1 : Bytes → H
  toBytes : Info H → Bytes
  fromBytes : Bytes → Option (Info H)
  toHex : H → Text

variable {H : Type}

namespace Info

def pieceCount (info : Info H) : ℕ := info.pieces.length

/-- The total length of all the files in the torrent. -/
def totalLength (info : Info H) : ℕ :=
  match info.file with
  | .single length _ => length.toNat
  | .multi files => (files.map fun file => file.length.toNat).foldl saturatingAdd 0

/-- The hash of the dictionary as it is serialised. -/
def hash (c : Codec H) (info : Info H) : H := c.sha1 (c.toBytes info)

/-- The number of pieces is what the lengths say. -/
structure Consistent (info : Info H) : Prop where
  pos : 0 < info.pieceLength.toNat
  count : info.pieceCount = divCeil info.totalLength info.pieceLength.toNat

theorem totalLength_le (info : Info H) : info.totalLength ≤ usizeMax := by
  unfold totalLength
  split
  · rename_i length _ _
    have h : length.toNat < 2 ^ 64 := length.toNat_lt
    unfold usizeMax
    omega
  · rename_i files _
    rw [foldl_saturatingAdd _ (Nat.zero_le _)]
    exact Nat.min_le_right _ _

end Info

/-- The source is a `.torrent` file. -/
def MetaInfo.isTorrent : MetaInfo H → Bool
  | .torrent _ => true
  | .magnetUri _ => false

/-- Whether peer discovery must be limited to the trackers, as far as the source says. -/
def MetaInfo.isPrivate : MetaInfo H → Bool
  | .torrent info => info.isPrivate.getD false
  | .magnetUri _ => false

/-- The hash of the dictionary, or the one the link names. -/
def MetaInfo.infoHash (c : Codec H) : MetaInfo H → Option H
  | .torrent info => some (info.hash c)
  | .magnetUri xt => xt

end Tortillas
