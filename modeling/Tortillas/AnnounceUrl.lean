/-
**What an HTTP tracker is asked.**

`tracker/http.rs` puts a question mark and its parameters behind the announce URI.  That makes them the query of the
URI, unless it has a query or a fragment already.  With a query the question mark is a letter of the last pair, which
is not the pair of the URI any more, and the first parameter is lost in it.  Private trackers tell their users apart by
such a pair.  With a fragment nothing is asked for at all, since fragments are not sent.

Main definitions:

* `IpAddr.display`, `urlencode`, `Http.TrackerRequest.toString`, `HttpTracker.announceUrl` — the URL;
* `queryOf`, `queryPairs`, `percentDecode` — how it is read;
* `AnnounceParameters`, `KeepsQuery` — what is asked for.

Main results:

* `percentDecode_urlencode` — hashes and ids are read back;
* `announceParameters_parameters` — every parameter is there once;
* `keepsQuery_iff` — **the URI's own query is kept exactly if it has none, and no fragment**.
-/

import Tortillas.Chunks
import Tortillas.PeerId
import Tortillas.PeerMessages
import Tortillas.TrackerActor
import Tortillas.TrackerUri
import Mathlib.Data.List.TakeWhile

set_option relaxedAutoImplicit false
set_option autoImplicit false

namespace Tortillas

/-! ### The parameters -/

/-- A number in decimal. -/
def showNat (n : ℕ) : Text := Nat.toDigits 10 n

/-- A number in hexadecimal, with small letters. -/
def showHex (n : ℕ) : Text := Nat.toDigits 16 n

/-- Some of the segments of an address. -/
structure Span where
  start : ℕ
  len : ℕ

namespace IpAddr

def displayV4 (octets : List UInt8) : Text := ['.'].intercalate (octets.map fun octet => showNat octet.toNat)

/-- The eight segments of an address, of two octets each. -/
def segments (octets : Vector UInt8 16) : List ℕ := (chunks 2 octets.toList).map beNat

/-- The longest run of zeros, and the first of those. -/
def zeroes (segments : List ℕ) : Span :=
  (segments.zipIdx.foldl (fun (longest, current) (segment, i) =>
    if segment = 0 then
      let current : Span := ⟨if current.len = 0 then i else current.start, current.len + 1⟩
      (if longest.len < current.len then current else longest, current)
    else (longest, ⟨0, 0⟩)) ((⟨0, 0⟩, ⟨0, 0⟩) : Span × Span)).1

/-- `fmt_subslice` -/
def fmtSubslice (chunk : List ℕ) : Text := [':'].intercalate (chunk.map showHex)

/-- `Display` -/
def display : IpAddr → Text
  | v4 octets => displayV4 octets.toList
  | v6 octets =>
      -- an IPv4 address in disguise
      if octets.toList.take 12 = List.replicate 10 0 ++ [255, 255] then
        "::ffff:".toList ++ displayV4 (octets.toList.drop 12)
      else
        let segments := segments octets
        let zeroes := zeroes segments
        if 1 < zeroes.len then
          fmtSubslice (segments.take zeroes.start) ++ "::".toList ++
            fmtSubslice (segments.drop (zeroes.start + zeroes.len))
        else fmtSubslice segments

example : display (.v6 #v[32, 1, 13, 184, 0, 0, 0, 0, 0, 0, 0, 0, 0, 0, 0, 1]) = "2001:db8::1".toList := by decide

end IpAddr

/-- The name of an event in `Debug`. -/
def Event.debug : Event → Text
  | empty => "Empty".toList
  | started => "Started".toList
  | completed => "Completed".toList
  | stopped => "Stopped".toList

structure Http.TrackerRequest where
  port : UInt16
  ip : Option IpAddr
  uploaded : ℕ
  downloaded : ℕ
  left : Option ℕ
  event : Event
  compact : Bool

/-- `to_string` -/
def Http.TrackerRequest.toString (request : Http.TrackerRequest) : Text :=
  ['&'].intercalate <|
    (request.ip.elim [] fun ip => ["ip=".toList ++ ip.display]) ++
    ["port=".toList ++ showNat request.port.toNat] ++
    ["uploaded=".toList ++ showNat request.uploaded] ++
    ["downloaded=".toList ++ showNat request.downloaded] ++
    (request.left.elim [] fun left => ["left=".toList ++ showNat left]) ++
    (if request.event ≠ .empty then [("event=".toList ++ request.event.debug).map Char.toLower] else []) ++
    ["compact=".toList ++ showNat request.compact.toNat]

/-- `hex::encode` of a byte. -/
def hexEncode (byte : UInt8) : Text := [Nat.digitChar (byte.toNat / 16), Nat.digitChar (byte.toNat % 16)]

def urlencode (t : Id) : Text := t.toList.flatMap fun byte => '%' :: hexEncode byte

/-- An HTTP tracker, as far as its announces depend on it. -/
structure HttpTracker where
  uri : Text
  peerId : PeerId
  infoHash : Id
  params : Http.TrackerRequest

/-- What `announce` requests. -/
def HttpTracker.announceUrl (tracker : HttpTracker) : Text :=
  let paramsEncoded := tracker.params.toString
  let infoHashEncoded := urlencode tracker.infoHash
  let peerIdEncoded := urlencode tracker.peerId.id
  let uriParams :=
    paramsEncoded ++ "&info_hash=".toList ++ infoHashEncoded ++ "&peer_id=".toList ++ peerIdEncoded
  tracker.uri ++ '?' :: uriParams

/-! ### What a URL asks for -/

/-- The query of a URL: what is behind the first question mark, up to the fragment. -/
def queryOf (url : Text) : Option Text :=
  match (url.takeWhile (· ≠ '#')).dropWhile (· ≠ '?') with
  | [] => none
  | _ :: query => some query

/-- The pairs of a query. -/
def queryPairs (url : Text) : List Text := (queryOf url).elim [] (·.splitOn '&')

/-- The digit a letter stands for in hexadecimal. -/
def hexValue (c : Char) : Option ℕ :=
  if '0' ≤ c ∧ c ≤ '9' then some (c.toNat - '0'.toNat)
  else if 'a' ≤ c ∧ c ≤ 'f' then some (c.toNat - 'a'.toNat + 10)
  else if 'A' ≤ c ∧ c ≤ 'F' then some (c.toNat - 'A'.toNat + 10)
  else none

/-- The bytes of a text that is percent-encoded where it has to be. -/
def percentDecode : Text → Option Bytes
  | [] => some []
  | '%' :: high :: low :: text => do
      some (UInt8.ofNat ((← hexValue high) * 16 + (← hexValue low)) :: (← percentDecode text))
  | c :: text => if c ≠ '%' ∧ c.toNat < 128 then (percentDecode text).map (UInt8.ofNat c.toNat :: ·) else none

example : percentDecode "a%20%e2".toList = some [97, 32, 226] := by decide

/-- A parameter and its value, as it is written. -/
def pair (parameter : Text × Text) : Text := parameter.1 ++ '=' :: parameter.2

/-- The names of all parameters. -/
def parameterNames : List Text :=
  ["ip".toList, "port".toList, "uploaded".toList, "downloaded".toList, "left".toList, "event".toList,
    "compact".toList, "info_hash".toList, "peer_id".toList]

/-- **What an announce has to say, each once.**  What is not known is left out, and so is an event if there is none. -/
structure AnnounceParameters (tracker : HttpTracker) (parameters : List (Text × Text)) : Prop where
  once : (parameters.map Prod.fst).Nodup
  ip : ∀ value, ("ip".toList, value) ∈ parameters ↔ ∃ ip, tracker.params.ip = some ip ∧ value = ip.display
  port : ("port".toList, showNat tracker.params.port.toNat) ∈ parameters
  uploaded : ("uploaded".toList, showNat tracker.params.uploaded) ∈ parameters
  downloaded : ("downloaded".toList, showNat tracker.params.downloaded) ∈ parameters
  left : ∀ value, ("left".toList, value) ∈ parameters ↔ ∃ n, tracker.params.left = some n ∧ value = showNat n
  event : ∀ value, ("event".toList, value) ∈ parameters ↔
    tracker.params.event ≠ .empty ∧ value = tracker.params.event.debug.map Char.toLower
  compact : ("compact".toList, if tracker.params.compact then ['1'] else ['0']) ∈ parameters
  infoHash : ∃ value, ("info_hash".toList, value) ∈ parameters ∧
    percentDecode value = some tracker.infoHash.toList
  peerId : ∃ value, ("peer_id".toList, value) ∈ parameters ∧
    percentDecode value = some tracker.peerId.id.toList
  others : ∀ parameter ∈ parameters, parameter.1 ∈ parameterNames

/-- **What is asked for is what the URI asks for, and then what an announce has to say.** -/
def KeepsQuery (tracker : HttpTracker) : Prop :=
  ∃ parameters, AnnounceParameters tracker parameters ∧
    queryPairs tracker.announceUrl = queryPairs tracker.uri ++ parameters.map pair

/-! ### Every parameter, once -/

theorem hexValue_digitChar {n : ℕ} (h : n < 16) : hexValue (Nat.digitChar n) = some n := by
  have hall : ∀ n < 16, hexValue (Nat.digitChar n) = some n := by decide
  exact hall n h

/-- **Bytes are read back.** -/
theorem percentDecode_hexEncode (bytes : Bytes) :
    percentDecode (bytes.flatMap fun byte => '%' :: hexEncode byte) = some bytes := by
  induction bytes with
  | nil => rfl
  | cons byte bytes ih =>
      have hlt := byte.toNat_lt
      have hhigh := hexValue_digitChar (n := byte.toNat / 16) (by omega)
      have hlow := hexValue_digitChar (n := byte.toNat % 16) (by omega)
      have hbyte : byte.toNat / 16 * 16 + byte.toNat % 16 = byte.toNat := by omega
      rw [List.flatMap_cons, hexEncode, List.cons_append, List.cons_append, List.cons_append, List.nil_append,
        percentDecode, hhigh, hlow, ih]
      simp only [Option.bind_eq_bind, Option.bind_some, hbyte, UInt8.ofNat_toNat]

theorem percentDecode_urlencode (t : Id) : percentDecode (urlencode t) = some t.toList :=
  percentDecode_hexEncode t.toList

/-- The parameters of an announce. -/
def parameters (tracker : HttpTracker) : List (Text × Text) :=
  (tracker.params.ip.elim [] fun ip => [("ip".toList, ip.display)]) ++
  [("port".toList, showNat tracker.params.port.toNat)] ++
  [("uploaded".toList, showNat tracker.params.uploaded)] ++
  [("downloaded".toList, showNat tracker.params.downloaded)] ++
  (tracker.params.left.elim [] fun left => [("left".toList, showNat left)]) ++
  (if tracker.params.event ≠ .empty then
    [("event".toList, tracker.params.event.debug.map Char.toLower)] else []) ++
  [("compact".toList, if tracker.params.compact then ['1'] else ['0'])] ++
  [("info_hash".toList, urlencode tracker.infoHash)] ++ [("peer_id".toList, urlencode tracker.peerId.id)]

theorem mem_elim_nil {α β : Type} (o : Option α) (f : α → β) (b : β) :
    b ∈ o.elim [] (fun a => [f a]) ↔ ∃ a, o = some a ∧ b = f a := by
  cases o <;> simp

theorem map_fst_elim_sublist {α : Type} (o : Option α) (name : Text) (f : α → Text) :
    ((o.elim [] fun a => [(name, f a)]).map Prod.fst).Sublist [name] := by
  cases o with
  | none => exact List.nil_sublist _
  | some a => exact List.Sublist.refl _

theorem map_fst_ite_sublist (p : Prop) [Decidable p] (parameter : Text × Text) :
    ((if p then [parameter] else []).map Prod.fst).Sublist [parameter.1] := by
  split
  · exact List.Sublist.refl _
  · exact List.nil_sublist _

/-- The parameters have different names, in a fixed order. -/
theorem names_sublist (tracker : HttpTracker) : ((parameters tracker).map Prod.fst).Sublist parameterNames := by
  have hfixed : ∀ name value : Text, ([(name, value)].map Prod.fst).Sublist [name] :=
    fun _ _ => List.Sublist.refl _
  have hip := map_fst_elim_sublist tracker.params.ip "ip".toList IpAddr.display
  have hleft := map_fst_elim_sublist tracker.params.left "left".toList showNat
  have hevent := map_fst_ite_sublist (tracker.params.event ≠ .empty)
    ("event".toList, tracker.params.event.debug.map Char.toLower)
  simp only [parameters, List.map_append]
  exact (((((((hip.append (hfixed _ _)).append (hfixed _ _)).append (hfixed _ _)).append hleft).append
    hevent).append (hfixed _ _)).append (hfixed _ _)).append (hfixed _ _)

theorem announceParameters_parameters (tracker : HttpTracker) :
    AnnounceParameters tracker (parameters tracker) where
  once := (names_sublist tracker).nodup (by decide)
  ip value := by simp [parameters, mem_elim_nil]
  port := by simp [parameters]
  uploaded := by simp [parameters]
  downloaded := by simp [parameters]
  left value := by simp [parameters, mem_elim_nil]
  event value := by simp [parameters, mem_elim_nil]
  compact := by simp [parameters]
  infoHash := ⟨_, by simp [parameters], percentDecode_urlencode tracker.infoHash⟩
  peerId := ⟨_, by simp [parameters], percentDecode_urlencode tracker.peerId.id⟩
  others parameter hmem := (names_sublist tracker).subset (List.mem_map_of_mem hmem)

/-! ### The URL -/

/-- A text that goes into a query as it is. -/
def Plain (text : Text) : Prop := ∀ c ∈ text, c ≠ '&' ∧ c ≠ '?' ∧ c ≠ '#'

instance (text : Text) : Decidable (Plain text) :=
  List.decidableBAll (fun c => c ≠ '&' ∧ c ≠ '?' ∧ c ≠ '#') text

theorem plain_append {front back : Text} (hfront : Plain front) (hback : Plain back) : Plain (front ++ back) :=
  fun c hc => (List.mem_append.1 hc).elim (hfront c) (hback c)

/-- The digits of a number are those of the base, as letters. -/
theorem exists_of_mem_toDigits {base n : ℕ} {c : Char} (h : c ∈ Nat.toDigits base n) : ∃ k, c = Nat.digitChar k := by
  have hcore : ∀ fuel n digits, c ∈ Nat.toDigitsCore base fuel n digits → c ∈ digits ∨ ∃ k, c = Nat.digitChar k := by
    intro fuel
    induction fuel with
    | zero => exact fun n digits hc => .inl hc
    | succ fuel ih =>
        intro n digits hc
        have hcons : c ∈ Nat.digitChar (n % base) :: digits → c ∈ digits ∨ ∃ k, c = Nat.digitChar k :=
          fun hmem => (List.mem_cons.1 hmem).elim (fun h => .inr ⟨_, h⟩) .inl
        rw [Nat.toDigitsCore] at hc
        split at hc
        · exact hcons hc
        · exact (ih _ _ hc).elim hcons .inr
  exact (hcore _ _ _ h).resolve_left List.not_mem_nil

theorem plain_toDigits (base n : ℕ) : Plain (Nat.toDigits base n) := by
  intro c hc
  obtain ⟨k, rfl⟩ := exists_of_mem_toDigits hc
  exact ⟨Nat.digitChar_ne _ (by decide), Nat.digitChar_ne _ (by decide), Nat.digitChar_ne _ (by decide)⟩

theorem mem_of_mem_intercalate {sep : Text} {c : Char} {texts : List Text} (h : c ∈ sep.intercalate texts) :
    c ∈ sep ∨ ∃ text ∈ texts, c ∈ text := by
  induction texts with
  | nil => exact absurd h List.not_mem_nil
  | cons text texts ih =>
      cases texts with
      | nil =>
          rw [List.intercalate_singleton] at h
          exact .inr ⟨text, List.mem_cons_self, h⟩
      | cons text' texts =>
          rw [List.intercalate_cons_cons, List.mem_append, List.mem_append] at h
          rcases h with (htext | hsep) | hrest
          · exact .inr ⟨text, List.mem_cons_self, htext⟩
          · exact .inl hsep
          · exact (ih hrest).imp_right fun ⟨t, ht, hc⟩ => ⟨t, List.mem_cons_of_mem _ ht, hc⟩

theorem plain_intercalate {sep : Text} (hsep : Plain sep) {texts : List Text} (h : ∀ text ∈ texts, Plain text) :
    Plain (sep.intercalate texts) := fun c hc =>
  (mem_of_mem_intercalate hc).elim (hsep c) fun ⟨text, htext, hmem⟩ => h text htext c hmem

theorem plain_displayV4 (octets : List UInt8) : Plain (IpAddr.displayV4 octets) := by
  refine plain_intercalate (by decide) fun text htext => ?_
  obtain ⟨octet, -, rfl⟩ := List.mem_map.1 htext
  exact plain_toDigits _ _

theorem plain_fmtSubslice (chunk : List ℕ) : Plain (IpAddr.fmtSubslice chunk) := by
  refine plain_intercalate (by decide) fun text htext => ?_
  obtain ⟨segment, -, rfl⟩ := List.mem_map.1 htext
  exact plain_toDigits _ _

theorem plain_display (ip : IpAddr) : Plain ip.display := by
  cases ip with
  | v4 octets => exact plain_displayV4 _
  | v6 octets =>
      simp only [IpAddr.display]
      split
      · exact plain_append (by decide) (plain_displayV4 _)
      · split
        · exact plain_append (plain_append (plain_fmtSubslice _) (by decide)) (plain_fmtSubslice _)
        · exact plain_fmtSubslice _

theorem plain_urlencode (t : Id) : Plain (urlencode t) := by
  intro c hc
  obtain ⟨byte, -, hbyte⟩ := List.mem_flatMap.1 hc
  rw [hexEncode, List.mem_cons, List.mem_cons, List.mem_singleton] at hbyte
  rcases hbyte with rfl | rfl | rfl
  · decide
  · exact ⟨Nat.digitChar_ne _ (by decide), Nat.digitChar_ne _ (by decide), Nat.digitChar_ne _ (by decide)⟩
  · exact ⟨Nat.digitChar_ne _ (by decide), Nat.digitChar_ne _ (by decide), Nat.digitChar_ne _ (by decide)⟩

/-- No parameter contains a delimiter. -/
theorem plain_pair {tracker : HttpTracker} {parameter : Text × Text} (h : parameter ∈ parameters tracker) :
    Plain (pair parameter) := by
  have hvalue : Plain parameter.2 := by
    simp only [parameters, List.mem_append, mem_elim_nil, List.mem_ite_nil_right, List.mem_singleton] at h
    rcases h with ((((((((⟨ip, -, rfl⟩ | rfl) | rfl) | rfl) | ⟨left, -, rfl⟩) | ⟨-, rfl⟩) | rfl) | rfl) | rfl)
    · exact plain_display ip
    · exact plain_toDigits _ _
    · exact plain_toDigits _ _
    · exact plain_toDigits _ _
    · exact plain_toDigits _ _
    · cases tracker.params.event <;> decide
    · cases tracker.params.compact <;> decide
    · exact plain_urlencode _
    · exact plain_urlencode _
  have hname : Plain parameter.1 := by
    have hall : ∀ name ∈ parameterNames, Plain name := by decide
    exact hall _ ((names_sublist tracker).subset (List.mem_map_of_mem h))
  have hequals : Plain ['='] := by decide
  exact plain_append hname (plain_append hequals hvalue)

theorem intercalate_append_singleton {sep text : Text} {texts : List Text} (h : texts ≠ []) :
    sep.intercalate (texts ++ [text]) = sep.intercalate texts ++ (sep ++ text) := by
  induction texts with
  | nil => exact absurd rfl h
  | cons front texts ih =>
      cases texts with
      | nil => rw [List.singleton_append, List.intercalate_cons_cons, List.intercalate_singleton,
          List.intercalate_singleton, List.append_assoc]
      | cons next texts =>
          rw [List.cons_append, List.cons_append, List.intercalate_cons_cons, ← List.cons_append,
            ih (List.cons_ne_nil _ _), List.intercalate_cons_cons]
          simp only [List.append_assoc]

theorem intercalate_append_pair {sep text text' : Text} {texts : List Text} (h : texts ≠ []) :
    sep.intercalate (texts ++ [text] ++ [text']) = sep.intercalate texts ++ (sep ++ text) ++ (sep ++ text') := by
  rw [intercalate_append_singleton (List.append_ne_nil_of_left_ne_nil h _), intercalate_append_singleton h]

/-- The parameters are what is behind the question mark. -/
theorem announceUrl_eq (tracker : HttpTracker) :
    tracker.announceUrl = tracker.uri ++ '?' :: ['&'].intercalate ((parameters tracker).map pair) := by
  have hcompact : "compact=".toList ++ showNat tracker.params.compact.toNat =
      pair ("compact".toList, if tracker.params.compact then ['1'] else ['0']) := by
    cases tracker.params.compact <;> decide
  have hevent : ("event=".toList ++ tracker.params.event.debug).map Char.toLower =
      pair ("event".toList, tracker.params.event.debug.map Char.toLower) := by
    cases tracker.params.event <;> decide
  have hip : (tracker.params.ip.elim [] fun ip => [("ip".toList, ip.display)]).map pair =
      tracker.params.ip.elim [] fun ip => ["ip=".toList ++ ip.display] := by
    cases tracker.params.ip <;> rfl
  have hleft : (tracker.params.left.elim [] fun left => [("left".toList, showNat left)]).map pair =
      tracker.params.left.elim [] fun left => ["left=".toList ++ showNat left] := by
    cases tracker.params.left <;> rfl
  simp only [HttpTracker.announceUrl, Http.TrackerRequest.toString, hcompact, hevent, parameters, List.map_append, hip,
    hleft, apply_ite (List.map pair), List.map_cons, List.map_nil]
  rw [intercalate_append_pair (by simp)]
  simp only [List.append_assoc]
  rfl

/-! ### Queries -/

/-- What is behind a fragment mark is not asked for. -/
theorem queryOf_fragment (front back : Text) : queryOf (front ++ '#' :: back) = queryOf front := by
  have htake : (front ++ '#' :: back).takeWhile (· ≠ '#') = front.takeWhile (· ≠ '#') := by
    induction front with
    | nil => rfl
    | cons c front ih => rw [List.cons_append, List.takeWhile_cons, List.takeWhile_cons, ih]
  rw [queryOf, queryOf, htake]

/-- The query is what is behind the first question mark. -/
theorem queryOf_append {front query : Text} (hfront : '?' ∉ front) (hfragment : '#' ∉ front ++ '?' :: query) :
    queryOf (front ++ '?' :: query) = some query := by
  have htake : (front ++ '?' :: query).takeWhile (· ≠ '#') = front ++ '?' :: query := by
    refine List.takeWhile_eq_self_iff.2 fun c hc => decide_eq_true ?_
    rintro rfl
    exact hfragment hc
  have hdrop : (front ++ '?' :: query).dropWhile (· ≠ '?') = '?' :: query := by
    rw [List.dropWhile_append_of_pos]
    · rfl
    · intro c hc
      refine decide_eq_true ?_
      rintro rfl
      exact hfront hc
  rw [queryOf, htake, hdrop]

theorem queryOf_of_not_mem {url : Text} (h : '?' ∉ url) : queryOf url = none := by
  have hdrop : (url.takeWhile (· ≠ '#')).dropWhile (· ≠ '?') = [] := by
    refine List.dropWhile_eq_nil_iff.2 fun c hc => decide_eq_true ?_
    rintro rfl
    exact h ((List.takeWhile_prefix _).subset hc)
  rw [queryOf, hdrop]

/-- The last part of a text changes when something other than a separator is put behind the text. -/
theorem not_splitOn_prefix {sep c : Char} (h : c ≠ sep) (text behind : Text) :
    ¬ text.splitOn sep <+: (text ++ c :: behind).splitOn sep := by
  induction text with
  | nil =>
      rw [List.nil_append, List.splitOn_nil, List.splitOn_cons_eq_if_modifyHead, if_neg (by simpa using h)]
      cases hsplit : behind.splitOn sep with
      | nil => exact absurd hsplit (List.splitOn_ne_nil _ _)
      | cons first parts => simp
  | cons d text ih =>
      rw [List.cons_append, List.splitOn_cons_eq_if_modifyHead, List.splitOn_cons_eq_if_modifyHead]
      split
      · rw [List.cons_prefix_cons]
        exact fun hstarts => ih hstarts.2
      · intro hstarts
        cases hsplit : text.splitOn sep with
        | nil => exact List.splitOn_ne_nil _ _ hsplit
        | cons first parts =>
            cases hsplit' : (text ++ c :: behind).splitOn sep with
            | nil => exact List.splitOn_ne_nil _ _ hsplit'
            | cons first' parts' =>
                rw [hsplit, hsplit', List.cons_prefix_cons] at ih
                rw [hsplit, hsplit', List.modifyHead_cons, List.modifyHead_cons, List.cons_prefix_cons] at hstarts
                exact ih ⟨List.tail_eq_of_cons_eq hstarts.1, hstarts.2⟩

/-! ### Whether the query is kept -/

section Announces

variable {tracker : HttpTracker}

/-- Behind a fragment mark no parameter is asked for. -/
theorem not_keepsQuery_fragment (h : '#' ∈ tracker.uri) : ¬ KeepsQuery tracker := by
  rintro ⟨params, hparams, hpairs⟩
  obtain ⟨front, back, huri⟩ := List.append_of_mem h
  have hsame : queryPairs tracker.announceUrl = queryPairs tracker.uri := by
    rw [queryPairs, queryPairs, announceUrl_eq, huri, List.append_assoc, List.cons_append, queryOf_fragment,
      queryOf_fragment]
  rw [hsame, List.self_eq_append_right, List.map_eq_nil_iff] at hpairs
  rw [hpairs] at hparams
  exact absurd hparams.port List.not_mem_nil

theorem hash_not_mem_announceUrl (h : '#' ∉ tracker.uri) : '#' ∉ tracker.announceUrl := by
  have hparams : '#' ∉ ['&'].intercalate ((parameters tracker).map pair) := by
    intro hmem
    rcases mem_of_mem_intercalate hmem with hsep | ⟨text, htext, hmem⟩
    · exact absurd hsep (by decide)
    · obtain ⟨parameter, hparameter, rfl⟩ := List.mem_map.1 htext
      exact (plain_pair hparameter _ hmem).2.2 rfl
  rw [announceUrl_eq, List.mem_append, List.mem_cons, not_or, not_or]
  exact ⟨h, by decide, hparams⟩

/-- Behind a query the question mark becomes a part of its last pair. -/
theorem not_keepsQuery_query (h : '?' ∈ tracker.uri) (hfragment : '#' ∉ tracker.uri) : ¬ KeepsQuery tracker := by
  rintro ⟨params, -, hpairs⟩
  obtain ⟨front, query, huri, hfront⟩ := List.eq_append_cons_of_mem h
  have hurl := hash_not_mem_announceUrl hfragment
  rw [announceUrl_eq, huri, List.append_assoc, List.cons_append] at hurl
  rw [huri] at hfragment
  rw [queryPairs, queryPairs, announceUrl_eq, huri, List.append_assoc, List.cons_append,
    queryOf_append hfront hurl, queryOf_append hfront hfragment] at hpairs
  exact not_splitOn_prefix (by decide) query _ ⟨_, hpairs.symm⟩

/-- Without a query and a fragment the parameters are the query. -/
theorem keepsQuery_of_not_mem (h : '?' ∉ tracker.uri) (hfragment : '#' ∉ tracker.uri) : KeepsQuery tracker := by
  have hurl := hash_not_mem_announceUrl hfragment
  rw [announceUrl_eq] at hurl
  have hne : (parameters tracker).map pair ≠ [] := by simp [parameters]
  refine ⟨parameters tracker, announceParameters_parameters tracker, ?_⟩
  rw [queryPairs, queryPairs, announceUrl_eq, queryOf_append h hurl, queryOf_of_not_mem h]
  refine List.splitOn_intercalate '&' (fun text htext hmem => ?_) hne
  obtain ⟨parameter, hparameter, rfl⟩ := List.mem_map.1 htext
  exact (plain_pair hparameter _ hmem).1 rfl

end Announces

/-- **The URI's own query is kept exactly if it has none, and no fragment.**  Then every parameter is asked for once; a
query loses its last pair and a parameter with it, and behind a fragment mark nothing is asked for. -/
theorem keepsQuery_iff (tracker : HttpTracker) :
    KeepsQuery tracker ↔ '?' ∉ tracker.uri ∧ '#' ∉ tracker.uri := by
  refine ⟨fun hkeeps => ?_, fun ⟨hquery, hfragment⟩ => keepsQuery_of_not_mem hquery hfragment⟩
  have hfragment : '#' ∉ tracker.uri := fun hmem => not_keepsQuery_fragment hmem hkeeps
  exact ⟨fun hmem => not_keepsQuery_query hmem hfragment hkeeps, hfragment⟩

/-- A private tracker that tells its users by a key in the query: the key it is asked with is a different one. -/
theorem announceUrl_passkey :
    let tracker : HttpTracker :=
      ⟨"https://t.example/announce?passkey=abc".toList, ⟨.unknown, Vector.replicate 20 65⟩, Vector.replicate 20 1,
        ⟨6881, none, 0, 0, none, .started, true⟩⟩
    trackerFromUri tracker.uri = .ok (.http tracker.uri) ∧
      queryPairs tracker.uri = ["passkey=abc".toList] ∧
      (queryPairs tracker.announceUrl).head? = some "passkey=abc?port=6881".toList ∧ ¬ KeepsQuery tracker := by
  intro tracker
  exact ⟨by decide, by decide, by decide, not_keepsQuery_query (by decide) (by decide)⟩

end Tortillas
