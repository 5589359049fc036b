/-
**The messages of the DHT and their codec.**

`dht/message.rs`: queries, responses and errors of BEP 5.  All of them travel in one structure of
optional parts, `WireMessage`, which is written and read as bencode; the letter `y` says which of the
parts count.  A message is written by filling the parts of its kind, and read by checking them.

Main definitions:

* `Krpc.Query`, `Krpc.Response`, `Krpc.DhtError`, `Krpc.Message` — the messages;
* `Krpc.WireMessage`, `Krpc.WireMessage.ofMessage`, `Krpc.WireMessage.toMessage` — the structure, and
  the two directions of the codec;
* `Krpc.WireMessage.Complete` — the parts that the kind needs are there, and are well formed;
* `Krpc.WireMessage.used` — the parts that the kind uses.

Main results:

* `Krpc.WireMessage.toMessage_ofMessage` — a message that is written is read back;
* `Krpc.WireMessage.isOk_toMessage_iff` — which structures are messages;
* `krpc_codec` — **the codec of the DHT**.
-/

import Tortillas.MetaInfo
import Tortillas.PeerId

set_option relaxedAutoImplicit false
set_option autoImplicit false

namespace Tortillas

/-- The identifier of a node, or an info hash. -/
abbrev NodeId := Vector UInt8 20

namespace Krpc

/-! ### Messages -/

inductive Query
  | ping (id : NodeId)
  | findNode (id target : NodeId)
  | getPeers (id infoHash : NodeId)
  | announcePeer (id infoHash : NodeId) (port : UInt16) (token : Bytes) (impliedPort : Bool)
  deriving DecidableEq

def Query.id : Query → NodeId
  | ping id => id
  | findNode id _ => id
  | getPeers id _ => id
  | announcePeer id _ _ _ _ => id

structure Response where
  id : NodeId
  nodes : Option Bytes
  token : Option Bytes
  values : Option (List Bytes)
  deriving DecidableEq

def Response.pong (id : NodeId) : Response := ⟨id, none, none, none⟩

structure DhtError where
  code : Int64
  message : Text
  deriving DecidableEq

/-- `KRPC_PROTOCOL_ERROR` -/
def krpcProtocolError : Int64 := 203

def DhtError.protocol (message : Text) : DhtError := ⟨krpcProtocolError, message⟩

inductive Message
  | query (transactionId : Bytes) (query : Query)
  | response (transactionId : Bytes) (response : Response)
  | error (transactionId : Bytes) (error : DhtError)
  deriving DecidableEq

/-! ### The structure on the wire -/

structure WireArguments where
  id : Bytes := []
  target : Option Bytes := none
  infoHash : Option Bytes := none
  port : Option UInt16 := none
  token : Option Bytes := none
  impliedPort : Option UInt8 := none
  deriving DecidableEq

structure WireResponse where
  id : Bytes
  nodes : Option Bytes
  token : Option Bytes
  values : Option (List Bytes)
  deriving DecidableEq

structure WireMessage where
  transactionId : Bytes
  kind : Text
  query : Option Text
  arguments : Option WireArguments
  response : Option WireResponse
  error : Option (Int64 × Text)
  version : Option Bytes
  deriving DecidableEq

/-- `CLIENT_VERSION` -/
def clientVersion : Bytes := ascii "TO00".toList

/-- `WireArguments::with_id` -/
def WireArguments.withId (id : NodeId) : WireArguments := { id := id.toList }

namespace WireMessage

/-- The names of the queries. -/
def pingName : Text := "ping".toList
def findNodeName : Text := "find_node".toList
def getPeersName : Text := "get_peers".toList
def announcePeerName : Text := "announce_peer".toList

/-- `From<&Message> for WireMessage`, the arguments of a query. -/
def ofQuery : Query → Text × WireArguments
  | .ping id => (pingName, .withId id)
  | .findNode id target => (findNodeName, { WireArguments.withId id with target := some target.toList })
  | .getPeers id infoHash =>
      (getPeersName, { WireArguments.withId id with infoHash := some infoHash.toList })
  | .announcePeer id infoHash port token impliedPort =>
      (announcePeerName, { WireArguments.withId id with
        infoHash := some infoHash.toList
        port := some port
        token := some token
        impliedPort := some (if impliedPort then 1 else 0) })

/-- `From<&Message> for WireMessage` -/
def ofMessage : Message → WireMessage
  | .query transactionId query =>
      { transactionId
        kind := ['q']
        query := some (ofQuery query).1
        arguments := some (ofQuery query).2
        response := none
        error := none
        version := some clientVersion }
  | .response transactionId response =>
      { transactionId
        kind := ['r']
        query := none
        arguments := none
        response := some ⟨response.id.toList, response.nodes, response.token, response.values⟩
        error := none
        version := some clientVersion }
  | .error transactionId error =>
      { transactionId
        kind := ['e']
        query := none
        arguments := none
        response := none
        error := some (error.code, error.message)
        version := some clientVersion }

/-- `NodeId::try_from` -/
def nodeId (bytes : Bytes) : Except Text NodeId :=
  if h : bytes.length = 20 then .ok ⟨bytes.toArray, by simpa using h⟩
  else .error ("Expected length is 20, found ".toList ++ (toString bytes.length).toList)

/-- `ok_or_else`: a part that has to be there. -/
def need {α : Type} (part : Option α) (missing : Text) : Except Text α :=
  match part with
  | some value => .ok value
  | none => .error missing

/-- `node_argument` -/
def nodeArgument (value : Option Bytes) (name : Text) : Except Text NodeId := do
  nodeId (← need value ("DHT query is missing ".toList ++ name))

/-- `TryFrom<WireMessage> for Message`, the query with this name. -/
def toQuery (name : Text) (arguments : WireArguments) : Except Text Query := do
  let id ← nodeId arguments.id
  if name = pingName then
    return .ping id
  else if name = findNodeName then
    return .findNode id (← nodeArgument arguments.target "target".toList)
  else if name = getPeersName then
    return .getPeers id (← nodeArgument arguments.infoHash "info_hash".toList)
  else if name = announcePeerName then
    let infoHash ← nodeArgument arguments.infoHash "info_hash".toList
    let port ← need arguments.port "announce_peer is missing port".toList
    let token ← need arguments.token "announce_peer is missing token".toList
    return .announcePeer id infoHash port token (arguments.impliedPort.getD 0 != 0)
  else .error ("unknown DHT query ".toList ++ name)

/-- `TryFrom<WireMessage> for Message` -/
def toMessage (wire : WireMessage) : Except Text Message := do
  if wire.kind = ['q'] then
    let name ← need wire.query "DHT query is missing q".toList
    let arguments ← need wire.arguments "DHT query is missing a".toList
    return .query wire.transactionId (← toQuery name arguments)
  else if wire.kind = ['r'] then
    let response ← need wire.response "DHT response is missing r".toList
    let id ← nodeId response.id
    return .response wire.transactionId ⟨id, response.nodes, response.token, response.values⟩
  else if wire.kind = ['e'] then
    let error ← need wire.error "DHT error is missing e".toList
    return .error wire.transactionId ⟨error.1, error.2⟩
  else .error ("unknown DHT message type ".toList ++ wire.kind)

/-! ### Which structures are messages -/

theorem nodeId_eq_ok {bytes : Bytes} {id : NodeId} : nodeId bytes = .ok id ↔ bytes = id.toList := by
  unfold nodeId
  constructor
  · intro h
    split at h
    · cases h
      simp
    · cases h
  · rintro rfl
    have hid : id.toList.toArray = id.toArray := Array.toArray_toList
    simp [hid]

theorem need_eq_ok {α : Type} {part : Option α} {missing : Text} {value : α} :
    need part missing = .ok value ↔ part = some value := by
  cases part with
  | none => simp [need]
  | some found => simp [need]

theorem nodeArgument_eq_ok {value : Option Bytes} {name : Text} {id : NodeId} :
    nodeArgument value name = .ok id ↔ value = some id.toList := by
  cases value with
  | none => simp [nodeArgument, need, bind, Except.bind]
  | some bytes => simpa [nodeArgument, need, bind, Except.bind] using nodeId_eq_ok

/-- What the arguments of a query have to be. -/
def HoldsQuery (name : Text) (arguments : WireArguments) : Query → Prop
  | .ping id => name = pingName ∧ arguments.id = id.toList
  | .findNode id target =>
      name = findNodeName ∧ arguments.id = id.toList ∧ arguments.target = some target.toList
  | .getPeers id infoHash =>
      name = getPeersName ∧ arguments.id = id.toList ∧ arguments.infoHash = some infoHash.toList
  | .announcePeer id infoHash port token impliedPort =>
      name = announcePeerName ∧ arguments.id = id.toList ∧
        arguments.infoHash = some infoHash.toList ∧ arguments.port = some port ∧
        arguments.token = some token ∧ (arguments.impliedPort.getD 0 != 0) = impliedPort

/-- A computation that may fail succeeds when its parts do. -/
theorem bind_eq_ok {α β : Type} {x : Except Text α} {f : α → Except Text β} {b : β} :
    (x >>= f) = .ok b ↔ ∃ a, x = .ok a ∧ f a = .ok b := by
  cases x with
  | error e => simp [bind, Except.bind]
  | ok a => simp [bind, Except.bind]

/-- The names of the queries differ. -/
theorem names_ne : pingName ≠ findNodeName ∧ pingName ≠ getPeersName ∧
    pingName ≠ announcePeerName ∧ findNodeName ≠ getPeersName ∧
    findNodeName ≠ announcePeerName ∧ getPeersName ≠ announcePeerName := by
  decide

theorem toQuery_eq_ok {name : Text} {arguments : WireArguments} {query : Query} :
    toQuery name arguments = .ok query ↔ HoldsQuery name arguments query := by
  obtain ⟨hpf, hpg, hpa, hfg, hfa, hga⟩ := names_ne
  unfold toQuery
  rw [bind_eq_ok]
  by_cases hping : name = pingName
  · subst hping
    cases query <;> simp [HoldsQuery, nodeId_eq_ok, pure, Except.pure, hpf, hpg, hpa]
  · by_cases hfind : name = findNodeName
    · subst hfind
      cases query <;>
        simp [HoldsQuery, nodeId_eq_ok, nodeArgument_eq_ok, bind_eq_ok, pure, Except.pure, hpf.symm,
          hfg, hfa]
    · by_cases hget : name = getPeersName
      · subst hget
        cases query <;>
          simp [HoldsQuery, nodeId_eq_ok, nodeArgument_eq_ok, bind_eq_ok, pure, Except.pure,
            hpg.symm, hfg.symm, hga]
      · by_cases hannounce : name = announcePeerName
        · subst hannounce
          cases query <;>
            simp [HoldsQuery, nodeId_eq_ok, nodeArgument_eq_ok, need_eq_ok, bind_eq_ok, pure,
              Except.pure, hpa.symm, hfa.symm, hga.symm]
        · cases query <;> simp [HoldsQuery, hping, hfind, hget, hannounce]

/-- **What a structure is read as**, by the kind of the message. -/
theorem toMessage_eq_ok {wire : WireMessage} {message : Message} :
    wire.toMessage = .ok message ↔
      match message with
      | .query transactionId query => wire.kind = ['q'] ∧ wire.transactionId = transactionId ∧
          ∃ name arguments, wire.query = some name ∧ wire.arguments = some arguments ∧
            HoldsQuery name arguments query
      | .response transactionId response => wire.kind = ['r'] ∧ wire.transactionId = transactionId ∧
          wire.response = some ⟨response.id.toList, response.nodes, response.token, response.values⟩
      | .error transactionId error => wire.kind = ['e'] ∧ wire.transactionId = transactionId ∧
          wire.error = some (error.code, error.message) := by
  obtain ⟨transactionId, kind, name, arguments, response, error, version⟩ := wire
  unfold toMessage
  by_cases hq : kind = ['q']
  · subst hq
    cases message with
    | query transactionId query =>
        simp only [if_true, bind_eq_ok, need_eq_ok, toQuery_eq_ok, pure, Except.pure,
          Except.ok.injEq, Message.query.injEq, true_and]
        constructor
        · rintro ⟨name, hname, arguments, harguments, query, hquery, rfl, rfl⟩
          exact ⟨rfl, name, arguments, hname, harguments, hquery⟩
        · rintro ⟨rfl, name, arguments, hname, harguments, hquery⟩
          exact ⟨name, hname, arguments, harguments, query, hquery, rfl, rfl⟩
    | response => simp [bind_eq_ok, pure, Except.pure]
    | error => simp [bind_eq_ok, pure, Except.pure]
  · by_cases hr : kind = ['r']
    · subst hr
      rw [if_neg hq, if_pos rfl, bind_eq_ok]
      cases message with
      | query => simp [bind_eq_ok, pure, Except.pure]
      | response transactionId response =>
          simp only [bind_eq_ok, need_eq_ok, nodeId_eq_ok, pure, Except.pure]
          constructor
          · rintro ⟨found, hfound, id, hid, heq⟩
            cases heq
            exact ⟨trivial, rfl, by rw [hfound, ← hid]⟩
          · rintro ⟨-, rfl, hfound⟩
            exact ⟨_, hfound, response.id, rfl, rfl⟩
      | error => simp [bind_eq_ok, pure, Except.pure]
    · by_cases he : kind = ['e']
      · subst he
        rw [if_neg hq, if_neg hr, if_pos rfl, bind_eq_ok]
        cases message with
        | query => simp [pure, Except.pure]
        | response => simp [pure, Except.pure]
        | error transactionId error =>
            simp only [need_eq_ok, pure, Except.pure]
            constructor
            · rintro ⟨found, hfound, heq⟩
              cases heq
              exact ⟨trivial, rfl, hfound⟩
            · rintro ⟨-, rfl, hfound⟩
              exact ⟨_, hfound, rfl⟩
      · cases message <;> simp [hq, hr, he]

theorem holdsQuery_ofQuery (query : Query) : HoldsQuery (ofQuery query).1 (ofQuery query).2 query := by
  cases query with
  | ping => exact ⟨rfl, rfl⟩
  | findNode => exact ⟨rfl, rfl, rfl⟩
  | getPeers => exact ⟨rfl, rfl, rfl⟩
  | announcePeer id infoHash port token impliedPort =>
      refine ⟨rfl, rfl, rfl, rfl, rfl, ?_⟩
      cases impliedPort <;> rfl

/-- **A message that is written is read back.** -/
theorem toMessage_ofMessage (message : Message) : (ofMessage message).toMessage = .ok message := by
  rw [toMessage_eq_ok]
  cases message with
  | query transactionId query =>
      exact ⟨rfl, rfl, (ofQuery query).1, (ofQuery query).2, rfl, rfl, holdsQuery_ofQuery query⟩
  | response => exact ⟨rfl, rfl, rfl⟩
  | error => exact ⟨rfl, rfl, rfl⟩

/-! ### Parts that count -/

/-- The kind is known, the parts that it needs are there, the identifiers it uses have 20 bytes, and an
announcement has a port and a token. -/
def Complete (wire : WireMessage) : Prop :=
  (wire.kind = ['q'] ∧ ∃ name arguments, wire.query = some name ∧ wire.arguments = some arguments ∧
    arguments.id.length = 20 ∧
    (name = findNodeName → ∃ target, arguments.target = some target ∧ target.length = 20) ∧
    (name = getPeersName ∨ name = announcePeerName →
      ∃ infoHash, arguments.infoHash = some infoHash ∧ infoHash.length = 20) ∧
    (name = announcePeerName → arguments.port.isSome = true ∧ arguments.token.isSome = true)) ∨
  (wire.kind = ['r'] ∧ ∃ response, wire.response = some response ∧ response.id.length = 20) ∨
  (wire.kind = ['e'] ∧ wire.error.isSome = true)

/-- A query has one of the four names. -/
def KnownQuery (wire : WireMessage) : Prop :=
  wire.kind = ['q'] → ∃ name ∈ [pingName, findNodeName, getPeersName, announcePeerName],
    wire.query = some name

/-- The arguments that the query of this name uses. -/
def usedArguments (name : Text) (arguments : WireArguments) : WireArguments :=
  if name = findNodeName then { id := arguments.id, target := arguments.target }
  else if name = getPeersName then { id := arguments.id, infoHash := arguments.infoHash }
  else if name = announcePeerName then { arguments with target := none }
  else { id := arguments.id }

/-- The parts that the kind uses. -/
def used (wire : WireMessage) : WireMessage :=
  { transactionId := wire.transactionId
    kind := wire.kind
    query := if wire.kind = ['q'] then wire.query else none
    arguments := if wire.kind = ['q'] then
      wire.arguments.map (usedArguments (wire.query.getD [])) else none
    response := if wire.kind = ['r'] then wire.response else none
    error := if wire.kind = ['e'] then wire.error else none
    version := none }

/-- Twenty bytes are an identifier. -/
theorem exists_nodeId {bytes : Bytes} (h : bytes.length = 20) : ∃ id : NodeId, bytes = id.toList := by
  refine ⟨⟨bytes.toArray, by simpa using h⟩, ?_⟩
  simp

theorem exists_holdsQuery_iff {name : Text} {arguments : WireArguments} :
    (∃ query, HoldsQuery name arguments query) ↔
      name ∈ [pingName, findNodeName, getPeersName, announcePeerName] ∧
      arguments.id.length = 20 ∧
      (name = findNodeName → ∃ target, arguments.target = some target ∧ target.length = 20) ∧
      (name = getPeersName ∨ name = announcePeerName →
        ∃ infoHash, arguments.infoHash = some infoHash ∧ infoHash.length = 20) ∧
      (name = announcePeerName → arguments.port.isSome = true ∧ arguments.token.isSome = true) := by
  obtain ⟨hpf, hpg, hpa, hfg, hfa, hga⟩ := names_ne
  constructor
  · rintro ⟨query, hquery⟩
    cases query with
    | ping id =>
        obtain ⟨rfl, hid⟩ := hquery
        simp [hid, hpf, hpg, hpa]
    | findNode id target =>
        obtain ⟨rfl, hid, htarget⟩ := hquery
        simp [hid, htarget, hfg, hfa]
    | getPeers id infoHash =>
        obtain ⟨rfl, hid, hinfoHash⟩ := hquery
        simp [hid, hinfoHash, hfg.symm, hga]
    | announcePeer id infoHash port token impliedPort =>
        obtain ⟨rfl, hid, hinfoHash, hport, htoken, -⟩ := hquery
        simp [hid, hinfoHash, hport, htoken, hfa.symm]
  · rintro ⟨hname, hid, hfind, hhash, hannounce⟩
    obtain ⟨id, hid⟩ := exists_nodeId hid
    simp only [List.mem_cons, List.not_mem_nil, or_false] at hname
    rcases hname with rfl | rfl | rfl | rfl
    · exact ⟨.ping id, rfl, hid⟩
    · obtain ⟨bytes, htarget, hlen⟩ := hfind rfl
      obtain ⟨target, rfl⟩ := exists_nodeId hlen
      exact ⟨.findNode id target, rfl, hid, htarget⟩
    · obtain ⟨bytes, hinfoHash, hlen⟩ := hhash (.inl rfl)
      obtain ⟨infoHash, rfl⟩ := exists_nodeId hlen
      exact ⟨.getPeers id infoHash, rfl, hid, hinfoHash⟩
    · obtain ⟨bytes, hinfoHash, hlen⟩ := hhash (.inr rfl)
      obtain ⟨infoHash, rfl⟩ := exists_nodeId hlen
      obtain ⟨port, hport⟩ := Option.isSome_iff_exists.1 (hannounce rfl).1
      obtain ⟨token, htoken⟩ := Option.isSome_iff_exists.1 (hannounce rfl).2
      exact ⟨.announcePeer id infoHash port token _, rfl, hid, hinfoHash, hport, htoken, rfl⟩

/-- **Which structures are messages.** -/
theorem isOk_toMessage_iff (wire : WireMessage) :
    (∃ message, wire.toMessage = .ok message) ↔ wire.Complete ∧ wire.KnownQuery := by
  constructor
  · rintro ⟨message, hmessage⟩
    rw [toMessage_eq_ok] at hmessage
    cases message with
    | query transactionId query =>
        obtain ⟨hkind, -, name, arguments, hname, harguments, hquery⟩ := hmessage
        obtain ⟨hknown, hparts⟩ := exists_holdsQuery_iff.1 ⟨query, hquery⟩
        exact ⟨.inl ⟨hkind, name, arguments, hname, harguments, hparts⟩, fun _ => ⟨name, hknown, hname⟩⟩
    | response transactionId response =>
        obtain ⟨hkind, -, hresponse⟩ := hmessage
        refine ⟨.inr (.inl ⟨hkind, _, hresponse, by simp⟩), ?_⟩
        intro hquery
        cases hkind.symm.trans hquery
    | error transactionId error =>
        obtain ⟨hkind, -, herror⟩ := hmessage
        refine ⟨.inr (.inr ⟨hkind, by rw [herror]; rfl⟩), ?_⟩
        intro hquery
        cases hkind.symm.trans hquery
  · rintro ⟨hcomplete, hknown⟩
    rcases hcomplete with ⟨hkind, name, arguments, hname, harguments, hparts⟩ |
      ⟨hkind, response, hresponse, hid⟩ | ⟨hkind, herror⟩
    · obtain ⟨name', hmem, hname'⟩ := hknown hkind
      cases hname.symm.trans hname'
      obtain ⟨query, hquery⟩ := exists_holdsQuery_iff.2 ⟨hmem, hparts⟩
      exact ⟨.query wire.transactionId query,
        toMessage_eq_ok.2 ⟨hkind, rfl, name, arguments, hname, harguments, hquery⟩⟩
    · obtain ⟨id, hid⟩ := exists_nodeId hid
      refine ⟨.response wire.transactionId ⟨id, response.nodes, response.token, response.values⟩,
        toMessage_eq_ok.2 ⟨hkind, rfl, ?_⟩⟩
      rw [hresponse, ← hid]
    · obtain ⟨error, herror⟩ := Option.isSome_iff_exists.1 herror
      exact ⟨.error wire.transactionId ⟨error.1, error.2⟩, toMessage_eq_ok.2 ⟨hkind, rfl, herror⟩⟩

/-- A query is read from the arguments that it uses. -/
theorem toQuery_usedArguments (name : Text) (arguments : WireArguments) :
    toQuery name (usedArguments name arguments) = toQuery name arguments := by
  unfold toQuery usedArguments
  by_cases hfind : name = findNodeName
  · simp only [if_pos hfind]
  · by_cases hget : name = getPeersName
    · simp only [if_neg hfind, if_pos hget]
    · by_cases hannounce : name = announcePeerName
      · simp only [if_neg hfind, if_neg hget, if_pos hannounce]
      · simp only [if_neg hfind, if_neg hget, if_neg hannounce]

/-- **Parts that the kind does not use are ignored.** -/
theorem toMessage_used (wire : WireMessage) : wire.used.toMessage = wire.toMessage := by
  obtain ⟨transactionId, kind, name, arguments, response, error, version⟩ := wire
  unfold toMessage used
  by_cases hq : kind = ['q']
  · subst hq
    cases name with
    | none => simp [need, bind, Except.bind]
    | some name =>
        cases arguments with
        | none => simp [need, bind, Except.bind]
        | some arguments => simp [need, bind, Except.bind, toQuery_usedArguments]
  · by_cases hr : kind = ['r']
    · simp [hr]
    · by_cases he : kind = ['e']
      · simp [he]
      · simp [hq, hr, he]

end WireMessage

/-! ### The codec -/

namespace Message

/-- `Message::encode` -/
def encode {ε : Type} (toBytes : WireMessage → Except ε Bytes) (message : Message) : Except ε Bytes :=
  toBytes (.ofMessage message)

/-- `Message::decode` -/
def decode (fromBytes : Bytes → Except Text WireMessage) (bytes : Bytes) : Except Text Message := do
  (← fromBytes bytes).toMessage

/-- **The datagram of a message is decoded to the message**, where the bencode of the structure is. -/
theorem decode_of_encode {ε : Type} {toBytes : WireMessage → Except ε Bytes}
    {fromBytes : Bytes → Except Text WireMessage}
    (hserde : ∀ wire bytes, toBytes wire = .ok bytes → fromBytes bytes = .ok wire)
    {message : Message} {bytes : Bytes} (hbytes : message.encode toBytes = .ok bytes) :
    decode fromBytes bytes = .ok message := by
  have hwire : fromBytes bytes = .ok (.ofMessage message) := hserde _ _ hbytes
  rw [decode, hwire]
  exact WireMessage.toMessage_ofMessage message

end Message

end Krpc

/-- **The codec of the DHT.**  A message that is written is read back.  A structure is read exactly when
its kind is known, the parts that the kind needs are there and well formed, and a query has one of the
four names.  Two structures with the same used parts are read as the same.  Where the bencode of a structure is read as
the structure, so is the datagram of a message. -/
theorem krpc_codec :
    (∀ message : Krpc.Message, (Krpc.WireMessage.ofMessage message).toMessage = .ok message) ∧
    (∀ wire : Krpc.WireMessage, (∃ message, wire.toMessage = .ok message) ↔
      wire.Complete ∧ wire.KnownQuery) ∧
    (∀ wire wire' : Krpc.WireMessage, wire.used = wire'.used → wire.toMessage = wire'.toMessage) ∧
    ∀ (ε : Type) (toBytes : Krpc.WireMessage → Except ε Bytes) (fromBytes : Bytes → Except Text Krpc.WireMessage),
      (∀ wire bytes, toBytes wire = .ok bytes → fromBytes bytes = .ok wire) →
      ∀ (message : Krpc.Message) (bytes : Bytes), message.encode toBytes = .ok bytes →
        Krpc.Message.decode fromBytes bytes = .ok message := by
  refine ⟨Krpc.WireMessage.toMessage_ofMessage, Krpc.WireMessage.isOk_toMessage_iff, ?_, ?_⟩
  · intro wire wire' hused
    rw [← Krpc.WireMessage.toMessage_used wire, hused, Krpc.WireMessage.toMessage_used wire']
  · intro ε toBytes fromBytes hserde message bytes hbytes
    exact Krpc.Message.decode_of_encode hserde hbytes

/-- A structure with every part that a query needs, but with a name that no query has, is refused. -/
theorem krpc_unknown_query_refused :
    ∃ wire : Krpc.WireMessage, wire.Complete ∧ ¬ ∃ message, wire.toMessage = .ok message := by
  refine ⟨{ transactionId := [0, 1]
            kind := ['q']
            query := some "vote".toList
            arguments := some (.withId (.replicate 20 7))
            response := none
            error := none
            version := none }, ?_, ?_⟩
  · refine .inl ⟨rfl, _, _, rfl, rfl, by decide, ?_, ?_, ?_⟩
    · intro h
      exact absurd h (by decide)
    · intro h
      exact absurd h (by decide)
    · intro h
      exact absurd h (by decide)
  · intro h
    obtain ⟨-, hknown⟩ := (Krpc.WireMessage.isOk_toMessage_iff _).1 h
    obtain ⟨name, hmem, hname⟩ := hknown rfl
    cases hname
    exact absurd hmem (by decide)

end Tortillas
