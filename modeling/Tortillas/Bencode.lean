/-
**Bencoded values, their text, and the events of a parser.**

A bencoded value is a number, a byte string, a list or a dictionary.  Its canonical text has one
form only: numbers and lengths are written in decimal, lists and dictionaries between an opening
letter and `e`.  A streaming parser reports the same value as a flat sequence of events; how many
bytes of the text each event stands for can be told from the event alone, so that the end of a
value is found by adding up the events of the value.

Main definitions:

* `Bencode`, `Bencode.encode` — values and their canonical text;
* `BencodeEvent`, `Bencode.events` — the events a parser reports for a value;
* `BencodeEvent.width` — the number of bytes of the text that an event stands for;
* `BencodeEvent.scan` — the bytes up to the end of the first dictionary, from the events alone.

Main results:

* `Bencode.scan_events` — inside a dictionary, a scan passes over a whole value;
* `Bencode.scan_dict` — **a scan from the start of a dictionary ends where its text ends**.
-/

import Tortillas.Bytes
import Mathlib.Data.Int.Notation

set_option relaxedAutoImplicit false
set_option autoImplicit false

namespace Tortillas

/-- A number in decimal, with a sign if it is negative. -/
def decimal (n : ℤ) : Bytes :=
  ascii ((if n < 0 then ['-'] else []) ++ Nat.toDigits 10 n.natAbs)

/-- A bencoded value. -/
inductive Bencode
  | int (n : ℤ)
  | bytes (b : Bytes)
  | list (items : List Bencode)
  | dict (entries : List (Bytes × Bencode))

/-- What a streaming parser reports.  The errors of a parser carry a message. -/
inductive BencodeEvent
  | numberValue (n : ℤ)
  | byteStringValue (b : Bytes)
  | listStart
  | listEnd
  | dictStart
  | dictKey (b : Bytes)
  | dictEnd
  | parseError (message : String)
  deriving DecidableEq

namespace BencodeEvent

/-- The number of bytes a byte string takes up: its length, a colon, and the bytes. -/
def stringWidth (b : Bytes) : ℕ := (decimal b.length).length + 1 + b.length

/-- The number of bytes of the text that an event stands for. -/
def width : BencodeEvent → ℕ
  | numberValue n => (decimal n).length + 2
  | byteStringValue b => stringWidth b
  | dictKey b => stringWidth b
  | listStart | listEnd | dictStart | dictEnd => 1
  | parseError _ => 0

/-- How many dictionaries are open behind an event, if `n` are open before it. -/
def depth (n : ℕ) : BencodeEvent → ℕ
  | dictStart => n + 1
  | dictEnd => n - 1
  | _ => n

/-- Whether a scan ends with an event: the last open dictionary is closed, or there is an error. -/
def stops (n : ℕ) : BencodeEvent → Bool
  | dictEnd => n - 1 == 0
  | parseError _ => true
  | _ => false

/-- The bytes up to the end of the first dictionary, if `n` dictionaries are open. -/
def scan : ℕ → List BencodeEvent → ℕ
  | _, [] => 0
  | n, e :: es => e.width + if e.stops n then 0 else scan (e.depth n) es

end BencodeEvent

namespace Bencode

open BencodeEvent

/-- A byte string behind its length. -/
def encodeString (b : Bytes) : Bytes := decimal b.length ++ ascii [':'] ++ b

mutual

/-- The canonical text of a value. -/
def encode : Bencode → Bytes
  | int n => ascii ['i'] ++ decimal n ++ ascii ['e']
  | bytes b => encodeString b
  | list items => ascii ['l'] ++ encodeItems items ++ ascii ['e']
  | dict entries => ascii ['d'] ++ encodeEntries entries ++ ascii ['e']

def encodeItems : List Bencode → Bytes
  | [] => []
  | v :: items => encode v ++ encodeItems items

def encodeEntries : List (Bytes × Bencode) → Bytes
  | [] => []
  | (k, v) :: entries => encodeString k ++ encode v ++ encodeEntries entries

end

mutual

/-- The events a parser reports for a value. -/
def events : Bencode → List BencodeEvent
  | int n => [numberValue n]
  | bytes b => [byteStringValue b]
  | list items => [listStart] ++ eventsItems items ++ [listEnd]
  | dict entries => [dictStart] ++ eventsEntries entries ++ [dictEnd]

def eventsItems : List Bencode → List BencodeEvent
  | [] => []
  | v :: items => events v ++ eventsItems items

def eventsEntries : List (Bytes × Bencode) → List BencodeEvent
  | [] => []
  | (k, v) :: entries => dictKey k :: events v ++ eventsEntries entries

end

@[simp] theorem length_ascii (text : List Char) : (ascii text).length = text.length := by
  simp [ascii]

theorem length_encodeString (b : Bytes) : (encodeString b).length = stringWidth b := by
  simp [encodeString, stringWidth]
  omega

/-! ### Finding the end of a dictionary -/

mutual

/-- Inside a dictionary, a scan passes over a whole value: no end inside the value closes the
dictionary around it. -/
theorem scan_events (n : ℕ) (rest : List BencodeEvent) :
    ∀ v : Bencode, scan (n + 1) (events v ++ rest) = (encode v).length + scan (n + 1) rest
  | int m => by
      simp [events, encode, scan, width, stops, depth]
      omega
  | bytes b => by simp [events, encode, scan, width, stops, depth, length_encodeString]
  | list items => by
      have hitems := scan_eventsItems n (listEnd :: rest) items
      simp [events, encode, scan, width, stops, depth, hitems]
      omega
  | dict entries => by
      -- one dictionary more is open inside, so that its end leaves the outer one open
      have hentries := scan_eventsEntries (n + 1) (dictEnd :: rest) entries
      simp [events, encode, scan, width, stops, depth, hentries]
      omega

theorem scan_eventsItems (n : ℕ) (rest : List BencodeEvent) : ∀ items : List Bencode,
    scan (n + 1) (eventsItems items ++ rest) = (encodeItems items).length + scan (n + 1) rest
  | [] => by simp [eventsItems, encodeItems]
  | v :: items => by
      have hv := scan_events n (eventsItems items ++ rest) v
      have hitems := scan_eventsItems n rest items
      simp [eventsItems, encodeItems, hv, hitems]
      omega

theorem scan_eventsEntries (n : ℕ) (rest : List BencodeEvent) :
    ∀ entries : List (Bytes × Bencode),
      scan (n + 1) (eventsEntries entries ++ rest) =
        (encodeEntries entries).length + scan (n + 1) rest
  | [] => by simp [eventsEntries, encodeEntries]
  | (k, v) :: entries => by
      have hv := scan_events n (eventsEntries entries ++ rest) v
      have hentries := scan_eventsEntries n rest entries
      simp [eventsEntries, encodeEntries, scan, width, stops, depth, length_encodeString, hv,
        hentries]
      omega

end

/-- **A scan from the start of a dictionary ends where its text ends**, whatever follows. -/
theorem scan_dict (entries : List (Bytes × Bencode)) (rest : List BencodeEvent) :
    scan 0 (events (dict entries) ++ rest) = (encode (dict entries)).length := by
  have hentries := scan_eventsEntries 0 (dictEnd :: rest) entries
  rw [Nat.zero_add] at hentries
  simp [events, encode, scan, width, stops, depth, hentries]

end Bencode

end Tortillas
