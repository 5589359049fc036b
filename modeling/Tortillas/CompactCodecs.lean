/-
**Compact forms of addresses.**

`dht/compact.rs`, `tracker/http.rs` and `tracker/udp.rs`: an endpoint of IPv4 is written in six bytes, its address
and its port, and a contact of the DHT in 26, its identifier and its endpoint.  Endpoints of IPv6 have no such form
and are left out.

Three places read the six bytes.  The DHT has them one by one; an HTTP tracker sends them in a row, which is cut into
chunks; a UDP tracker sends them behind the header of a response, where a cursor reads them as big-endian numbers.

Main definitions:

* `compactPeer` — the endpoint that six bytes stand for;
* `WirePeer`, `PeerVisitor.visitBytes` — a peer from a tracker, and the peers of an HTTP response.

Main results:

* `decodeNodes_of_dvd`, `encodeNodes_eq` — the codec of contacts, chunk by chunk;
* `TrackerResponse.fromBytes_peers` — the peers of a UDP response, chunk by chunk;
* `compact_codecs_agree` — **what is written is read back, and the three readers agree**.
-/

import Tortillas.Chunks
import Tortillas.PeerAnswers
import Tortillas.UdpWire

set_option relaxedAutoImplicit false
set_option autoImplicit false

namespace Tortillas

/-! ### Peers of an HTTP response -/

structure WirePeer where
  ip : IpAddr
  port : UInt16
  id : Option PeerId
  deriving DecidableEq

namespace WirePeer

def new (ip : IpAddr) (port : UInt16) : WirePeer := ⟨ip, port, none⟩

def fromIpv4 (octets : Vector UInt8 4) (port : UInt16) : WirePeer := new (.v4 octets) port

def socketAddr (peer : WirePeer) : SocketAddr := ⟨peer.ip, peer.port⟩

end WirePeer

namespace PeerVisitor

/-- `PEER_SIZE` of the visitor. -/
def peerSize : ℕ := 6

/-- `visit_bytes` -/
def visitBytes (bytes : Bytes) : Except Text (List WirePeer) :=
  if bytes.length % peerSize ≠ 0 then
    .error s!"Peer data length ({bytes.length}) is not a multiple of peer size ({peerSize})".toList
  else
    .ok ((chunks peerSize bytes).filterMap fun chunk =>
      if chunk.length ≠ peerSize then none
      else
        some (WirePeer.fromIpv4 (Vector.ofFn fun i => chunk.getD i 0) (UInt16.ofNat (beNat ((chunk.drop 4).take 2)))))

end PeerVisitor

/-! ### Parts of a chunk -/

variable {chunk : Bytes}

/-- Some bytes of a chunk. -/
theorem toList_ofFn_getD (bytes : Bytes) {offset n : ℕ} (h : offset + n ≤ bytes.length) :
    (Vector.ofFn fun i : Fin n => bytes.getD (offset + i) 0).toList = (bytes.drop offset).take n := by
  refine List.ext_getElem ?_ fun i hi hi' => ?_
  · rw [Vector.length_toList, List.length_take, List.length_drop]
    omega
  · rw [Vector.length_toList] at hi
    have hlt : offset + i < bytes.length := by omega
    simp [hlt]

/-- A port is written as it was read. -/
theorem beBytes_port {word : Bytes} (hword : word.length = 2) : beBytes 2 (UInt16.ofNat (beNat word)).toNat = word := by
  have hlt := beNat_lt word
  rw [hword] at hlt
  have hback := beBytes_beNat word
  rw [hword] at hback
  rw [UInt16.toNat_ofNat_of_lt' hlt, hback]

instance (addr : SocketAddr) : Decidable addr.IsV4 :=
  match addr with
  | ⟨.v4 octets, _⟩ => .isTrue ⟨octets, rfl⟩
  | ⟨.v6 _, _⟩ => .isFalse fun h => nomatch h

/-! ### Contacts -/

/-- A contact is written as it was read. -/
theorem encodeNode_decodeNode (hchunk : chunk.length = 26) : encodeNode (decodeNode chunk) = chunk := by
  have hid := toList_ofFn_getD chunk (show 0 + 20 ≤ chunk.length by omega)
  have hip := toList_ofFn_getD chunk (show 20 + 4 ≤ chunk.length by omega)
  have hport : ((chunk.drop 24).take 2).length = 2 := by
    rw [List.length_take, List.length_drop]
    omega
  simp only [Nat.zero_add, List.drop_zero] at hid
  simp only [encodeNode, decodeNode, hid, hip, beBytes_port hport]
  rw [List.take_of_length_le (show (chunk.drop 24).length ≤ 2 by rw [List.length_drop]; omega), List.append_assoc,
    show chunk.drop 24 = (chunk.drop 20).drop 4 by rw [List.drop_drop], List.take_append_drop, List.take_append_drop]

theorem length_encodeNode {contact : Contact} (hv4 : contact.addr.IsV4) : (encodeNode contact).length = 26 := by
  obtain ⟨octets, hoctets⟩ := hv4
  rw [encodeNode, hoctets]
  simp

/-- Bytes between others are read back as a vector. -/
theorem ofFn_getD_append {n : ℕ} (before : Bytes) (v : Vector UInt8 n) (after : Bytes) :
    (Vector.ofFn fun i : Fin n => (before ++ v.toList ++ after).getD (before.length + i) 0) = v := by
  apply Vector.toList_inj.1
  rw [toList_ofFn_getD _ (by simp), List.append_assoc, List.drop_left, List.take_left' v.length_toList]

/-- A contact of IPv4 is read back. -/
theorem decodeNode_encodeNode {contact : Contact} (hv4 : contact.addr.IsV4) :
    decodeNode (encodeNode contact) = contact := by
  obtain ⟨id, ip, port⟩ := contact
  obtain ⟨octets, rfl⟩ : ∃ octets, ip = .v4 octets := hv4
  have hid := ofFn_getD_append [] id (octets.toList ++ beBytes 2 port.toNat)
  have hip := ofFn_getD_append id.toList octets (beBytes 2 port.toNat)
  have hport : (id.toList ++ octets.toList ++ beBytes 2 port.toNat).drop 24 = beBytes 2 port.toNat := by
    exact List.drop_left' (by simp)
  simp only [List.nil_append, List.length_nil, Nat.zero_add, ← List.append_assoc] at hid
  simp only [Vector.length_toList] at hip
  simp only [encodeNode, decodeNode, hid, hip, hport]
  have hmod : port.toNat % 256 ^ 2 = port.toNat := Nat.mod_eq_of_lt port.toNat_lt
  rw [List.take_of_length_le (length_beBytes 2 _).le, beNat_beBytes, hmod, UInt16.ofNat_toNat]

/-- Contacts are read chunk by chunk. -/
theorem decodeChunks_eq (n : ℕ) (bytes : Bytes) :
    decodeChunks n bytes = (List.range n).map fun i => decodeNode ((bytes.drop (i * 26)).take 26) := by
  induction n generalizing bytes with
  | zero => rfl
  | succ n ih =>
      rw [decodeChunks, ih, List.range_succ_eq_map, List.map_cons, List.map_map, Nat.zero_mul, List.drop_zero]
      refine congrArg (decodeNode (bytes.take 26) :: ·) (List.map_congr_left fun i _ => ?_)
      rw [List.drop_drop, Function.comp_apply, Nat.succ_mul, Nat.add_comm]

theorem decodeNodes_of_dvd {bytes : Bytes} (h : 26 ∣ bytes.length) :
    decodeNodes bytes = .ok ((chunks 26 bytes).map decodeNode) := by
  rw [decodeNodes, if_neg (not_not.2 (Nat.mod_eq_zero_of_dvd h)), decodeChunks_eq, chunks,
    divCeil_of_dvd (by decide) h, List.map_map]
  rfl

/-- Contacts are written one by one, those of IPv6 not at all. -/
theorem encodeNodes_eq (contacts : List Contact) :
    encodeNodes contacts = ((contacts.filter fun contact => contact.addr.IsV4).map encodeNode).flatten := by
  induction contacts with
  | nil => rfl
  | cons contact contacts ih =>
      rw [encodeNodes, List.flatMap_cons, ← encodeNodes, ih, List.filter_cons]
      split
      · rw [List.map_cons, List.flatten_cons]
      · rename_i hv6
        have hnone : encodeNode contact = [] := by
          rw [encodeNode]
          split
          · rename_i octets hoctets
            exact absurd (decide_eq_true ⟨octets, hoctets⟩) hv6
          · rfl
        rw [hnone, List.nil_append]

/-! ### Peers -/

/-- The endpoint that six bytes stand for. -/
def compactPeer (bytes : Bytes) : SocketAddr :=
  ⟨.v4 (Vector.ofFn fun i => bytes.getD i 0), UInt16.ofNat (beNat (bytes.drop 4))⟩

theorem decodePeers_of_length {values : List Bytes} (h : ∀ value ∈ values, value.length = 6) :
    decodePeers values = .ok (values.map compactPeer) := by
  induction values with
  | nil => rfl
  | cons value values ih =>
      rw [List.forall_mem_cons] at h
      have hvalue : decodePeer value = .ok (compactPeer value) := if_neg (not_not.2 h.1)
      have hvalues := ih h.2
      rw [decodePeers] at hvalues ⊢
      rw [List.mapM_cons, hvalue, hvalues]
      rfl

/-- **Endpoints of IPv4 are read back from their compact forms.** -/
theorem decodePeers_encodePeers (peers : List SocketAddr) :
    decodePeers (encodePeers peers) = .ok (peers.filter fun peer => peer.IsV4) := by
  induction peers with
  | nil => rfl
  | cons peer peers ih =>
      obtain ⟨ip, port⟩ := peer
      cases ip with
      | v6 octets => exact ih
      | v4 octets =>
          change decodePeers ((octets.toList ++ beBytes 2 port.toNat) :: encodePeers peers) = _
          rw [decodePeers] at ih ⊢
          rw [List.mapM_cons, decodePeer_encode, ih]
          rfl

/-- The visitor reads chunk by chunk. -/
theorem visitBytes_of_dvd {bytes : Bytes} (h : 6 ∣ bytes.length) :
    ∃ peers, PeerVisitor.visitBytes bytes = .ok peers ∧
      peers.map WirePeer.socketAddr = (chunks 6 bytes).map compactPeer := by
  refine ⟨_, if_neg (not_not.2 (Nat.mod_eq_zero_of_dvd h)), ?_⟩
  rw [List.map_filterMap, ← List.filterMap_eq_map]
  refine List.filterMap_congr fun chunk hchunk => ?_
  have hlen : chunk.length = 6 := length_of_mem_chunks h hchunk
  have hport : (chunk.drop 4).take 2 = chunk.drop 4 := by
    refine List.take_of_length_le ?_
    rw [List.length_drop, hlen]
  rw [PeerVisitor.peerSize, if_neg (not_not.2 hlen), hport]
  rfl

namespace TrackerResponse

variable {header bytes : Bytes}

theorem peer_append (hheader : header.length = 20) (i : ℕ) :
    Bep15.peer (header ++ bytes) (20 + 6 * i) = compactPeer ((bytes.drop (i * 6)).take 6) := by
  have hoctet : ∀ j : Fin 4, (header ++ bytes).getD (20 + 6 * i + j) 0 = ((bytes.drop (i * 6)).take 6).getD j 0 := by
    intro j
    have hj := j.isLt
    simp only [List.getD_eq_getElem?_getD]
    rw [List.getElem?_append_right (by omega), List.getElem?_take_of_lt (by omega), List.getElem?_drop]
    congr 2
    omega
  have hport : ((header ++ bytes).drop (20 + 6 * i + 4)).take 2 = ((bytes.drop (i * 6)).take 6).drop 4 := by
    rw [List.drop_take, List.drop_drop, List.drop_append, List.drop_eq_nil_of_le (by omega), List.nil_append, hheader]
    congr 2
    omega
  rw [Bep15.peer, compactPeer, Bep15.word, Bep15.slice, hport]
  simp only [hoctet]

/-- **The peers of a UDP response**, chunk by chunk, whatever the other fields of its header. -/
theorem fromBytes_peers (hheader : header.length = 20) (haction : Bep15.word header 0 4 = 1)
    (hdvd : 6 ∣ bytes.length) :
    ∃ transactionId interval leechers seeders, fromBytes (header ++ bytes) =
      .ok (.announce transactionId interval leechers seeders ((chunks 6 bytes).map compactPeer)) := by
  have hcode : Bep15.action (Bep15.word (header ++ bytes) 0 4) = some .announce := by
    have hword : Bep15.word (header ++ bytes) 0 4 = Bep15.word header 0 4 := by
      rw [Bep15.word, Bep15.word, Bep15.slice, Bep15.slice, List.drop_zero, List.drop_zero,
        List.take_append_of_le_length (by omega)]
    rw [hword, haction]
    rfl
  have hlen : (header ++ bytes).length = 20 + bytes.length := by rw [List.length_append, hheader]
  have hpeers : ((List.range (((header ++ bytes).length - 20) / 6)).map fun i =>
      Bep15.peer (header ++ bytes) (20 + 6 * i)) = (chunks 6 bytes).map compactPeer := by
    rw [chunks, List.map_map, divCeil_of_dvd (by decide) hdvd, hlen, Nat.add_sub_cancel_left]
    exact List.map_congr_left fun i _ => peer_append hheader i
  obtain ⟨response, hread, hdecode⟩ | ⟨-, hdecode⟩ := fromBytes_eq (header ++ bytes)
  · rw [Bep15.decodeResponse, hcode] at hdecode
    dsimp only at hdecode
    rw [if_pos (by omega), hpeers] at hdecode
    cases hdecode
    exact ⟨_, _, _, _, hread⟩
  · rw [Bep15.decodeResponse, hcode] at hdecode
    dsimp only at hdecode
    rw [if_pos (by omega)] at hdecode
    cases hdecode

end TrackerResponse

/-! ### All of them -/

/-- **The compact codecs agree.**  Contacts and endpoints of IPv4 are read back in order, and the others are left out;
bytes of contacts are written as they were read, and those of any other length are refused.  The same bytes of peers
are read alike by the DHT, from the response of an HTTP tracker and from that of a UDP tracker. -/
theorem compact_codecs_agree :
    (∀ contacts, decodeNodes (encodeNodes contacts) = .ok (contacts.filter fun contact => contact.addr.IsV4)) ∧
      (∀ bytes : Bytes, 26 ∣ bytes.length → ∃ contacts, decodeNodes bytes = .ok contacts ∧ encodeNodes contacts = bytes) ∧
      (∀ bytes : Bytes, ¬26 ∣ bytes.length → ∃ error, decodeNodes bytes = .error error) ∧
      (∀ peers, decodePeers (encodePeers peers) = .ok (peers.filter fun peer => peer.IsV4)) ∧
      ∀ bytes : Bytes, 6 ∣ bytes.length → ∃ addrs, decodePeers (chunks 6 bytes) = .ok addrs ∧
        (∃ peers, PeerVisitor.visitBytes bytes = .ok peers ∧ peers.map WirePeer.socketAddr = addrs) ∧
        ∀ header : Bytes, header.length = 20 → Bep15.word header 0 4 = 1 →
          ∃ transactionId interval leechers seeders, TrackerResponse.fromBytes (header ++ bytes) =
            .ok (.announce transactionId interval leechers seeders addrs) := by
  refine ⟨fun contacts => ?_, fun bytes hdvd => ?_, fun bytes hdvd => ⟨_, if_pos ?_⟩, decodePeers_encodePeers,
    fun bytes hdvd => ⟨_, decodePeers_of_length fun _ => length_of_mem_chunks hdvd, visitBytes_of_dvd hdvd,
      fun header hheader haction => TrackerResponse.fromBytes_peers hheader haction hdvd⟩⟩
  · have hlen : ∀ part ∈ (contacts.filter fun contact => contact.addr.IsV4).map encodeNode, part.length = 26 := by
      intro part hpart
      obtain ⟨contact, hcontact, rfl⟩ := List.mem_map.1 hpart
      exact length_encodeNode (of_decide_eq_true (List.mem_filter.1 hcontact).2)
    rw [encodeNodes_eq, decodeNodes_of_dvd (dvd_length_flatten hlen), chunks_flatten (by decide) hlen, List.map_map]
    refine congrArg Except.ok ((List.map_congr_left fun contact hcontact => ?_).trans (List.map_id _))
    exact decodeNode_encodeNode (of_decide_eq_true (List.mem_filter.1 hcontact).2)
  · refine ⟨_, decodeNodes_of_dvd hdvd, ?_⟩
    have hall : ((chunks 26 bytes).map decodeNode).filter (fun contact => contact.addr.IsV4) =
        (chunks 26 bytes).map decodeNode := by
      refine List.filter_eq_self.2 fun contact hcontact => decide_eq_true ?_
      obtain ⟨chunk, -, rfl⟩ := List.mem_map.1 hcontact
      exact ⟨_, rfl⟩
    have hback : (chunks 26 bytes).map (encodeNode ∘ decodeNode) = chunks 26 bytes := by
      refine (List.map_congr_left fun chunk hchunk => ?_).trans (List.map_id _)
      exact encodeNode_decodeNode (length_of_mem_chunks hdvd hchunk)
    rw [encodeNodes_eq, hall, List.map_map, hback, flatten_chunks (by decide)]
  · exact fun hmod => hdvd (Nat.dvd_of_mod_eq_zero hmod)

/-- The peer 10.0.0.1:6881, from each of the three. -/
theorem compact_codecs_agree_sample :
    ∃ addrs, decodePeers (chunks 6 [10, 0, 0, 1, 26, 225]) = .ok addrs ∧
      (∃ peers, PeerVisitor.visitBytes [10, 0, 0, 1, 26, 225] = .ok peers ∧ peers.map WirePeer.socketAddr = addrs) ∧
      ∃ transactionId interval leechers seeders, TrackerResponse.fromBytes
          ([0, 0, 0, 1] ++ List.replicate 16 0 ++ [10, 0, 0, 1, 26, 225]) =
        .ok (.announce transactionId interval leechers seeders addrs) := by
  obtain ⟨-, -, -, -, hpeers⟩ := compact_codecs_agree
  obtain ⟨addrs, hdht, hhttp, hudp⟩ := hpeers [10, 0, 0, 1, 26, 225] (by decide)
  exact ⟨addrs, hdht, hhttp, hudp _ (by decide) (by decide)⟩

end Tortillas
