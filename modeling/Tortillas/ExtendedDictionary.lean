/-
**Where the metadata of an extended message begins.**

`protocol/messages.rs`: an extended message is a dictionary, and a piece of metadata may follow it.  Neither has its
length written in front of it.  The code adds up what the events of a streaming parser stand for, until the dictionary
that was opened first is closed, and cuts the payload there.

A stack of dictionaries is enough to find that end.  Lists close in the order in which they were opened, so that an
end of a list is never taken for the end of a dictionary, and a dictionary inside another one is closed before it.

Main definitions:

* `parserEvents` — the events of a parser that reads the first value of a text.

Main results:

* `reports_parserEvents` — such a parser reports every dictionary before it looks at what is behind it;
* `extended_dictionary_found` — **the dictionary ends where its text ends**, and what is behind it is the metadata.
-/

import Tortillas.BencodeDecode
import Tortillas.WireRoundTrip

set_option relaxedAutoImplicit false
set_option autoImplicit false

namespace Tortillas

open Outcome

/-- The events of the first value of a text. -/
def parserEvents (text : Bytes) : List BencodeEvent :=
  match Bencode.decode text.length text with
  | some (value, _) => value.events
  | none => [.parseError "unexpected character"]

/-- **A parser that reads the first value reports all of it**, whatever follows. -/
theorem reports_parserEvents {s : Serde} (hs : s.events = parserEvents) (entries : List (Bytes × Bencode)) :
    s.Reports entries := by
  intro rest
  have hdecode := Bencode.decode_encode (.dict entries) rest ((Bencode.dict entries).encode ++ rest).length (by
    rw [List.length_append]
    exact Nat.le_add_right _ _)
  have hevents : s.events ((Bencode.dict entries).encode ++ rest) = (Bencode.dict entries).events := by
    rw [hs, parserEvents, hdecode]
  exact hevents ▸ List.prefix_refl _

/-- **The dictionary of an extended message is found exactly**, for every dictionary whose events the parser reports
before anything behind it.  The message is read from the text of the dictionary, and what is behind it is the
metadata. -/
theorem extended_dictionary_found {s : Serde} {entries : List (Bytes × Bencode)} (h : s.Reports entries)
    (rest : Bytes) :
    getExtendedMessageLength s ((Bencode.dict entries).encode ++ rest) = (Bencode.dict entries).encode.length ∧
      ∀ id message, s.fromBytes (Bencode.dict entries).encode = .ok message →
        decodeExtended s (id :: ((Bencode.dict entries).encode ++ rest)) =
          .ok (.extended id (some message) (if rest = [] then none else some rest)) := by
  have hlength := getExtendedMessageLength_encode h rest
  refine ⟨hlength, fun id message hmessage => ?_⟩
  have hid := getArray_append (ε := PeerActorError) #v[id] ((Bencode.dict entries).encode ++ rest)
  have hcons : (#v[id] : Vector UInt8 1).toList = [id] := rfl
  rw [hcons, List.singleton_append] at hid
  have hne := encode_dict_ne_nil entries
  have hread : readExtendedMessage s (Bencode.dict entries).encode = .ok message := by
    rw [readExtendedMessage, hmessage]
  rw [decodeExtended, hid, ok_bind]
  simp only [hlength]
  cases rest with
  | nil => simp [hne, hread]
  | cons b rest => simp [hne, splitTo_append, hread]

namespace Sample

/-- A dictionary with an empty byte string, and with another dictionary and a list inside of a list. -/
def nestedEntries : List (Bytes × Bencode) :=
  [(ascii ['a'], .bytes []), (ascii ['d', 'e', ':'], .list [.dict [(ascii ['e'], .int (-1))], .list []])]

/-- A parser that reads the first value. -/
def parsingSerde : Serde := { serde with events := parserEvents }

end Sample

theorem extended_dictionary_found_sample :
    getExtendedMessageLength Sample.parsingSerde
      ((Bencode.dict Sample.nestedEntries).encode ++ ascii ['d', 'e']) = 25 := by
  have hreports := reports_parserEvents (s := Sample.parsingSerde) rfl Sample.nestedEntries
  rw [(extended_dictionary_found hreports (ascii ['d', 'e'])).1]
  decide +kernel

end Tortillas
