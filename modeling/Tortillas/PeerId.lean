/-
**Peer ids and how they are classified.**

A peer id is twenty bytes.  The program files every id under the client that its bytes announce:
the enumeration `PeerId` of `peer/id.rs` has one variant for each known client and one for the
rest, all of them holding the same twenty bytes.  Which variant an id received from the wire
becomes is decided by `PeerId::from`, from the bytes alone.

Main definitions:

* `Client`, `PeerId` — the variants of the enumeration, and a variant with its bytes;
* `clientInfo` — the table of the known clients, in the order of the source;
* `PeerId.matchesFormat`, `PeerId.classify`, `PeerId.ofId` — the classification.

Main results:

* `PeerId.ofId_id` — classification keeps the bytes;
* `PeerId.ofId_ofId_id` — classifying the bytes of a classified id gives the id back.
-/

import Tortillas.Bytes

set_option relaxedAutoImplicit false
set_option autoImplicit false

namespace Tortillas

/-- The clients that have a variant of their own in `PeerId`, and `unknown` for all others. -/
inductive Client
  | ares | aresV2 | arctic | avicora | bitPump | azureus | bitBuddy | bitComet | bitflu | btg
  | bitRocket | btSlave | bittorrentX | enhancedCTorrent | ctorrent | deluge | propagateData
  | eBit | electricSheep | foxTorrent | frostWire | freebox | gsTorrent | halite | hydranode
  | kGet | kTorrent | lhAbc | lphant | libtorrent | libTorrent | limeWire | monoTorrent
  | mooPolice | miro | moonlightTorrent | netTransport | pando | qbittorrent | qqDownload
  | qtExample | retriever | shareazaAlpha | swiftbit | swarmScope | symTorrent | sharktorrent
  | shareaza | tortillas | torrentDotNet | transmission | torrentstorm | tuoTu | uLeecher
  | utorrent | utorrentWeb | vagaa | webTorrentDesktop | bitLet | webTorrent | fireTorrent
  | xunlei | xanTorrent | xtorrent | zipTorrent | abc | ospreyPermaseed | btQueue | tribler
  | shadowClient | bitTornado | upnpNatBitTorrent | mainlineBitTorrent | bitCometLegacy
  | xbtClient | opera | mlDonkey | bitsOnWheels | queenBee | bitTyrant | torrenTopia
  | bitSpirit | rufus | g3Torrent | flashGet | allPeers | unknown
  deriving DecidableEq, Repr

/-- The peer id formats of BEP 20. -/
inductive PeerIdFormat
  | azureus | shadow | mainline | bitCometLegacy | xbt | opera | mlDonkey | bitsOnWheels
  | queenBee | bitTyrant | torrenTopia | bitSpirit | rufus | g3Torrent | flashGet | allPeers
  deriving DecidableEq, Repr

/-- What the table of clients says about one client. -/
structure ClientInfo where
  client : Client
  pfx : Bytes
  format : PeerIdFormat

/-- The table of `define_clients!`, in its order. -/
def clientInfo : List ClientInfo :=
  [ ⟨.ares, ascii ['A', 'G'], .azureus⟩,
    ⟨.aresV2, ascii ['A', '~'], .azureus⟩,
    ⟨.arctic, ascii ['A', 'R'], .azureus⟩,
    ⟨.avicora, ascii ['A', 'V'], .azureus⟩,
    ⟨.bitPump, ascii ['A', 'X'], .azureus⟩,
    ⟨.azureus, ascii ['A', 'Z'], .azureus⟩,
    ⟨.bitBuddy, ascii ['B', 'B'], .azureus⟩,
    ⟨.bitComet, ascii ['B', 'C'], .azureus⟩,
    ⟨.bitflu, ascii ['B', 'F'], .azureus⟩,
    ⟨.btg, ascii ['B', 'G'], .azureus⟩,
    ⟨.bitRocket, ascii ['B', 'R'], .azureus⟩,
    ⟨.btSlave, ascii ['B', 'S'], .azureus⟩,
    ⟨.bittorrentX, ascii ['B', 'X'], .azureus⟩,
    ⟨.enhancedCTorrent, ascii ['C', 'D'], .azureus⟩,
    ⟨.ctorrent, ascii ['C', 'T'], .azureus⟩,
    ⟨.deluge, ascii ['D', 'E'], .azureus⟩,
    ⟨.propagateData, ascii ['D', 'P'], .azureus⟩,
    ⟨.eBit, ascii ['E', 'B'], .azureus⟩,
    ⟨.electricSheep, ascii ['E', 'S'], .azureus⟩,
    ⟨.foxTorrent, ascii ['F', 'T'], .azureus⟩,
    ⟨.frostWire, ascii ['F', 'W'], .azureus⟩,
    ⟨.freebox, ascii ['F', 'X'], .azureus⟩,
    ⟨.gsTorrent, ascii ['G', 'S'], .azureus⟩,
    ⟨.halite, ascii ['H', 'L'], .azureus⟩,
    ⟨.hydranode, ascii ['H', 'N'], .azureus⟩,
    ⟨.kGet, ascii ['K', 'G'], .azureus⟩,
    ⟨.kTorrent, ascii ['K', 'T'], .azureus⟩,
    ⟨.lhAbc, ascii ['L', 'H'], .azureus⟩,
    ⟨.lphant, ascii ['L', 'P'], .azureus⟩,
    ⟨.libtorrent, ascii ['L', 'T'], .azureus⟩,
    ⟨.libTorrent, ascii ['l', 't'], .azureus⟩,
    ⟨.limeWire, ascii ['L', 'W'], .azureus⟩,
    ⟨.monoTorrent, ascii ['M', 'O'], .azureus⟩,
    ⟨.mooPolice, ascii ['M', 'P'], .azureus⟩,
    ⟨.miro, ascii ['M', 'R'], .azureus⟩,
    ⟨.moonlightTorrent, ascii ['M', 'T'], .azureus⟩,
    ⟨.netTransport, ascii ['N', 'X'], .azureus⟩,
    ⟨.pando, ascii ['P', 'D'], .azureus⟩,
    ⟨.qbittorrent, ascii ['q', 'B'], .azureus⟩,
    ⟨.qqDownload, ascii ['Q', 'D'], .azureus⟩,
    ⟨.qtExample, ascii ['Q', 'T'], .azureus⟩,
    ⟨.retriever, ascii ['R', 'T'], .azureus⟩,
    ⟨.shareazaAlpha, ascii ['S', '~'], .azureus⟩,
    ⟨.swiftbit, ascii ['S', 'B'], .azureus⟩,
    ⟨.swarmScope, ascii ['S', 'S'], .azureus⟩,
    ⟨.symTorrent, ascii ['S', 'T'], .azureus⟩,
    ⟨.sharktorrent, ascii ['s', 't'], .azureus⟩,
    ⟨.shareaza, ascii ['S', 'Z'], .azureus⟩,
    ⟨.tortillas, ascii ['T', 'O'], .azureus⟩,
    ⟨.torrentDotNet, ascii ['T', 'N'], .azureus⟩,
    ⟨.transmission, ascii ['T', 'R'], .azureus⟩,
    ⟨.torrentstorm, ascii ['T', 'S'], .azureus⟩,
    ⟨.tuoTu, ascii ['T', 'T'], .azureus⟩,
    ⟨.uLeecher, ascii ['U', 'L'], .azureus⟩,
    ⟨.utorrent, ascii ['U', 'T'], .azureus⟩,
    ⟨.utorrentWeb, ascii ['U', 'W'], .azureus⟩,
    ⟨.vagaa, ascii ['V', 'G'], .azureus⟩,
    ⟨.webTorrentDesktop, ascii ['W', 'D'], .azureus⟩,
    ⟨.bitLet, ascii ['W', 'T'], .azureus⟩,
    ⟨.webTorrent, ascii ['W', 'W'], .azureus⟩,
    ⟨.fireTorrent, ascii ['W', 'Y'], .azureus⟩,
    ⟨.xunlei, ascii ['X', 'L'], .azureus⟩,
    ⟨.xanTorrent, ascii ['X', 'T'], .azureus⟩,
    ⟨.xtorrent, ascii ['X', 'X'], .azureus⟩,
    ⟨.zipTorrent, ascii ['Z', 'T'], .azureus⟩,
    ⟨.abc, ascii ['A'], .shadow⟩,
    ⟨.ospreyPermaseed, ascii ['O'], .shadow⟩,
    ⟨.btQueue, ascii ['Q'], .shadow⟩,
    ⟨.tribler, ascii ['R'], .shadow⟩,
    ⟨.shadowClient, ascii ['S'], .shadow⟩,
    ⟨.bitTornado, ascii ['T'], .shadow⟩,
    ⟨.upnpNatBitTorrent, ascii ['U'], .shadow⟩,
    ⟨.mainlineBitTorrent, ascii ['M'], .mainline⟩,
    ⟨.bitCometLegacy, ascii ['e', 'x', 'b', 'c'], .bitCometLegacy⟩,
    ⟨.xbtClient, ascii ['X', 'B', 'T'], .xbt⟩,
    ⟨.opera, ascii ['O', 'P'], .opera⟩,
    ⟨.mlDonkey, ascii ['-', 'M', 'L'], .mlDonkey⟩,
    ⟨.bitsOnWheels, ascii ['-', 'B', 'O', 'W'], .bitsOnWheels⟩,
    ⟨.queenBee, ascii ['Q', '1', '-'], .queenBee⟩,
    ⟨.bitTyrant, ascii ['A', 'Z', '2', '5', '0', '0', 'B', 'T'], .bitTyrant⟩,
    ⟨.torrenTopia, ascii ['3', '4', '6', '-'], .torrenTopia⟩,
    ⟨.bitSpirit, ascii [], .bitSpirit⟩,
    ⟨.rufus, ascii ['R', 'S'], .rufus⟩,
    ⟨.g3Torrent, ascii ['-', 'G', '3'], .g3Torrent⟩,
    ⟨.flashGet, ascii ['F', 'G'], .flashGet⟩,
    ⟨.allPeers, ascii ['A', 'P'], .allPeers⟩ ]

/-- Twenty bytes. -/
abbrev Id := Vector UInt8 20

/-- A peer id: its bytes, filed under a client. -/
structure PeerId where
  client : Client
  id : Id
  deriving DecidableEq

namespace PeerId

/-- The bytes of an id from position `i` up to position `j`. -/
def slice (id : Id) (i j : ℕ) : Bytes := (id.toList.drop i).take (j - i)

/-- `-XX####-`: a dash in front of the two letters and one behind the four digits. -/
def azureusDashes (id : Id) : Bool := slice id 0 1 == ascii ['-'] && slice id 7 8 == ascii ['-']

/-- Whether the bytes of an id have the given format with the given letters. -/
def matchesFormat (id : Id) (pfx : Bytes) : PeerIdFormat → Bool
  | .azureus => azureusDashes id && slice id 1 3 == pfx
  | .bitSpirit => slice id 0 4 == [0, 3] ++ ascii ['B', 'S']
  | .rufus => slice id 2 4 == ascii ['R', 'S']
  -- every other format is recognised by the letters alone
  | _ => slice id 0 pfx.length == pfx

/-- The client an id is filed under: the Azureus style is tried first for every client, then every
client in the order of the table. -/
def classify (id : Id) : Client :=
  let azureus := clientInfo.find? fun c =>
    azureusDashes id && c.format == .azureus && slice id 1 3 == c.pfx
  let other := clientInfo.find? fun c => matchesFormat id c.pfx c.format
  ((azureus.or other).map ClientInfo.client).getD .unknown

/-- `PeerId::from`. -/
def ofId (id : Id) : PeerId := ⟨classify id, id⟩

/-- Classification keeps the bytes. -/
@[simp] theorem ofId_id (id : Id) : (ofId id).id = id := rfl

/-- Classifying the bytes of a classified id gives the id back. -/
theorem ofId_ofId_id (id : Id) : ofId (ofId id).id = ofId id := by
  rw [ofId_id]

end PeerId

end Tortillas
