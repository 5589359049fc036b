/-
**Which host a UDP tracker is looked up by.**

`tracker/model.rs` accepts an announce URI by its scheme alone, and `tracker/udp.rs` takes the scheme away and looks up
what is left.  That is the host and the port only if nothing else is in the URI: user information, a path, a query and
a fragment are looked up with them, less every `udp://` in them, and no such host is found.  Most UDP trackers have a
path.

Main definitions:

* `Tracker`, `trackerFromUri` — announce URIs;
* `UdpTracker.lookupTarget` — what is handed to the resolver;
* `UdpUri` — the URIs of UDP trackers, by their parts.

Main results:

* `trackerFromUri_udpUri` — all of them are accepted;
* `lookupTarget_text` — what is looked up: the authority, and the rest with every `udp://` taken out;
* `lookupTarget_eq_iff` — **it is the host and the port exactly if there is nothing else in the URI**.
-/

import Tortillas.MetaInfo
import Tortillas.Substrings

set_option relaxedAutoImplicit false
set_option autoImplicit false

namespace Tortillas

/-! ### Announce URIs -/

/-- An announce URI from a torrent file or a magnet URI. -/
inductive Tracker
  | http (uri : Text)
  | udp (uri : Text)
  | websocket (uri : Text)
  deriving DecidableEq

/-- `tracker_from_uri` -/
def trackerFromUri (uri : Text) : Except Text Tracker :=
  match splitOnce "://".toList uri with
  | none => .error ("tracker URI is missing a scheme: ".toList ++ uri)
  | some (scheme, _) =>
      if scheme = "http".toList ∨ scheme = "https".toList then .ok (.http uri)
      else if scheme = "udp".toList then .ok (.udp uri)
      else if scheme = "ws".toList ∨ scheme = "wss".toList then .ok (.websocket uri)
      else .error ("unsupported tracker scheme: ".toList ++ scheme)

/-- What `UdpTracker::new_with_settings` hands to `lookup_host`. -/
def UdpTracker.lookupTarget (uri : Text) : Text := replace "udp://".toList [] uri

/-- `udp://[userinfo@]host:port[/path][?query][#fragment]`.  The host may be a name or an address, also one in brackets;
a part that is there may be empty, except for the port. -/
structure UdpUri where
  userinfo : Option Text
  host : Text
  port : Text
  path : Option Text
  query : Option Text
  fragment : Option Text
  userinfo_valid : ∀ c ∈ userinfo.getD [], c ≠ '/' ∧ c ≠ '?' ∧ c ≠ '#'
  host_valid : ∀ c ∈ host, c ≠ '/' ∧ c ≠ '?' ∧ c ≠ '#' ∧ c ≠ '@'
  port_ne_nil : port ≠ []
  port_valid : ∀ c ∈ port, c.isDigit
  path_valid : ∀ c ∈ path.getD [], c ≠ '?' ∧ c ≠ '#'
  query_valid : ∀ c ∈ query.getD [], c ≠ '#'

namespace UdpUri

variable (u : UdpUri)

/-- What is in front of the host. -/
def front : Text := u.userinfo.elim [] (· ++ ['@'])

def hostPort : Text := u.host ++ ':' :: u.port

/-- What is behind the port. -/
def rest : Text :=
  u.path.elim [] ('/' :: ·) ++ u.query.elim [] ('?' :: ·) ++ u.fragment.elim [] ('#' :: ·)

/-- The URI as it is written. -/
def text : Text := "udp://".toList ++ (u.front ++ u.hostPort ++ u.rest)

/-! ### The parts of a URI -/

theorem front_eq_nil_iff : u.front = [] ↔ u.userinfo = none := by
  rw [front]
  cases u.userinfo with
  | none => simp
  | some userinfo => simp

theorem rest_eq_nil_iff : u.rest = [] ↔ u.path = none ∧ u.query = none ∧ u.fragment = none := by
  rw [rest]
  cases u.path <;> cases u.query <;> cases u.fragment <;> simp

/-- What is behind the port begins with a delimiter. -/
theorem rest_cases : u.rest = [] ∨ ∃ c text, u.rest = c :: text ∧ (c = '/' ∨ c = '?' ∨ c = '#') := by
  rw [rest]
  cases u.path <;> cases u.query <;> cases u.fragment <;> simp

theorem slash_not_mem : '/' ∉ u.front ++ u.hostPort := by
  have hfront : '/' ∉ u.front := by
    rw [front]
    cases hu : u.userinfo with
    | none => exact List.not_mem_nil
    | some userinfo =>
        have hvalid := u.userinfo_valid
        rw [hu] at hvalid
        intro hmem
        rcases List.mem_append.1 hmem with hmem | hmem
        · exact (hvalid _ hmem).1 rfl
        · exact absurd hmem (by decide)
  have hport : '/' ∉ u.port := fun hmem => absurd (u.port_valid _ hmem) (by decide)
  have hhost : '/' ∉ u.host := fun hmem => (u.host_valid _ hmem).1 rfl
  simp only [hostPort, List.mem_append, List.mem_cons, hfront, hhost, hport, or_false, false_or]
  decide

/-- The port ends with a digit. -/
theorem exists_digit : ∃ text c, u.front ++ u.hostPort = text ++ [c] ∧ c.isDigit := by
  obtain ⟨port, c, hport⟩ := (List.eq_nil_or_concat' u.port).resolve_left u.port_ne_nil
  refine ⟨u.front ++ u.host ++ ':' :: port, c, ?_, u.port_valid c ?_⟩
  · rw [hostPort, hport]
    simp only [List.append_assoc, List.cons_append]
  · rw [hport]
    exact List.mem_append_right _ List.mem_cons_self

end UdpUri

/-- A UDP URI is accepted whatever its parts are. -/
theorem trackerFromUri_udpUri (u : UdpUri) : trackerFromUri u.text = .ok (.udp u.text) := by
  have hcolon : ':' ∉ "udp".toList := by decide
  have hsplit : splitOnce "://".toList u.text = some ("udp".toList, u.front ++ u.hostPort ++ u.rest) :=
    splitOnce_append hcolon _
  rw [trackerFromUri, hsplit]
  rfl

/-- The authority is looked up, with what is behind it less every `udp://`. -/
theorem lookupTarget_text (u : UdpUri) :
    UdpTracker.lookupTarget u.text = u.front ++ u.hostPort ++ replace "udp://".toList [] u.rest := by
  obtain ⟨text, c, htext, hc⟩ := u.exists_digit
  have hpattern : c ∉ "udp://".toList := by
    intro hmem
    have hnone : "udp://".toList.any Char.isDigit = false := by decide
    exact List.any_eq_false.1 hnone c hmem hc
  have hslash : '/' ∉ text ++ [c] := htext ▸ u.slash_not_mem
  have hauthority : replace "udp://".toList [] (text ++ [c]) = text ++ [c] :=
    replace_of_not_mem (by decide) hslash
  rw [replace_append_cons (by decide) hpattern, replace_nil] at hauthority
  calc UdpTracker.lookupTarget u.text
      = replace "udp://".toList [] (u.front ++ u.hostPort ++ u.rest) := replace_append _
    _ = replace "udp://".toList [] (text ++ c :: u.rest) := by
        rw [htext, List.append_assoc, List.singleton_append]
    _ = replace "udp://".toList [] text ++ c :: replace "udp://".toList [] u.rest :=
        replace_append_cons (by decide) hpattern _ _
    _ = u.front ++ u.hostPort ++ replace "udp://".toList [] u.rest := by
        rw [htext, ← hauthority, List.append_assoc, List.singleton_append]

/-- What is behind the port leaves something, even if it is full of what is taken out. -/
theorem replace_rest_eq_nil_iff (u : UdpUri) : replace "udp://".toList [] u.rest = [] ↔ u.rest = [] := by
  rcases u.rest_cases with hnil | ⟨c, text, hrest, hc⟩
  · rw [hnil]
    exact iff_of_true replace_nil rfl
  · have hstarts : ¬ "udp://".toList <+: c :: text := by
      intro hstarts
      have hu : 'u' = c := (List.cons_prefix_cons.1 hstarts).1
      subst hu
      exact absurd hc (by decide)
    rw [hrest, replace_cons hstarts]
    simp

/-- **The host and the port are looked up exactly if there is nothing else in the URI.**  Every URI is accepted; but user
information, a path, a query or a fragment is looked up with them, and what is then looked up is never the host and the
port. -/
theorem lookupTarget_eq_iff (u : UdpUri) :
    trackerFromUri u.text = .ok (.udp u.text) ∧
      (UdpTracker.lookupTarget u.text = u.host ++ ':' :: u.port ↔
        u.userinfo = none ∧ u.path = none ∧ u.query = none ∧ u.fragment = none) := by
  refine ⟨trackerFromUri_udpUri u, ?_⟩
  have hfront := u.front_eq_nil_iff
  have hrest := (replace_rest_eq_nil_iff u).trans u.rest_eq_nil_iff
  rw [lookupTarget_text, ← hfront, ← hrest]
  refine ⟨fun heq => ?_, fun ⟨hf, hr⟩ => ?_⟩
  · have hlength := congrArg List.length heq
    simp only [UdpUri.hostPort, List.length_append, List.length_cons] at hlength
    refine ⟨List.eq_nil_of_length_eq_zero ?_, List.eq_nil_of_length_eq_zero ?_⟩
    · omega
    · omega
  · rw [hf, hr, List.nil_append, List.append_nil]
    rfl

/-- A condition on every letter of a text is decided by going through the text. -/
theorem forall_mem_of_all {p : Char → Prop} [DecidablePred p] {text : Text}
    (h : text.all (fun c => decide (p c)) = true) : ∀ c ∈ text, p c := fun c hc =>
  of_decide_eq_true (List.all_eq_true.1 h c hc)

/-- A public tracker, as magnet links name it: the path is looked up with the port. -/
theorem lookupTarget_path :
    let u : UdpUri :=
      ⟨none, "tracker.opentrackr.org".toList, "1337".toList, some "announce".toList, none, none, nofun,
        forall_mem_of_all (by decide), by decide, forall_mem_of_all (by decide), forall_mem_of_all (by decide), nofun⟩
    u.text = "udp://tracker.opentrackr.org:1337/announce".toList ∧
      trackerFromUri u.text = .ok (.udp u.text) ∧
      UdpTracker.lookupTarget u.text = "tracker.opentrackr.org:1337/announce".toList ∧
      UdpTracker.lookupTarget u.text ≠ u.host ++ ':' :: u.port := by
  decide

end Tortillas
