/-
**The routing table of the DHT.**

`dht/id.rs`, `dht/compact.rs` and `dht/routing.rs`: nodes have identifiers of 160 bits, and the distance
of two of them is their exclusive or.  The routing table has a bucket for each position of the highest
bit of the distance from the node itself.  A bucket has a limited number of entries, each with a
contact and the number of queries that failed since it was heard of last; a contact whose identifier
is known replaces the entry of that identifier.  Contacts travel in a compact form of 26 bytes.

Main definitions:

* `distance`, `Distance.bucketIndex` — the distance of two identifiers, and its bucket;
* `Contact`, `encodeNodes`, `decodeNodes` — contacts and their compact form;
* `RoutingTable` — the table, with `insert`, `recordFailure` and `closest`;
* `RoutingTable.Has` — a contact is in the table;
* `RoutingTable.Sorted` — every entry is in the bucket of its identifier, and no identifier is there
  twice.

Main results:

* `RoutingTable.Sorted.addr_unique` — an identifier has one address;
* `RoutingTable.Sorted.insert_cases` — **what inserting a contact does to the table**;
* `RoutingTable.Sorted.has_of_recordFailure` — a failure brings no contact into the table.
-/

import Tortillas.Transactions

set_option relaxedAutoImplicit false
set_option autoImplicit false

namespace Tortillas

/-! ### Distances -/

/-- The exclusive or of two identifiers. -/
structure Distance where
  bytes : Bytes
  deriving DecidableEq

/-- `NodeId::distance` -/
def distance (a b : NodeId) : Distance := ⟨List.zipWith (· ^^^ ·) a.toList b.toList⟩

namespace Distance

/-- Distances are compared byte for byte. -/
def le (a b : Distance) : Bool := decide (a.bytes ≤ b.bytes)

/-- The bucket of the first byte that is not zero: `leading_zeros` counts the zero bits above its
highest bit. -/
def bucketFrom : ℕ → Bytes → Option ℕ
  | _, [] => none
  | i, byte :: bytes =>
      if byte ≠ 0 then some ((20 - 1 - i) * 8 + Nat.log2 byte.toNat) else bucketFrom (i + 1) bytes

/-- `Distance::bucket_index` -/
def bucketIndex (d : Distance) : Option ℕ := bucketFrom 0 d.bytes

theorem bucketFrom_lt {i index : ℕ} {bytes : Bytes} (h : bucketFrom i bytes = some index) :
    index < 160 := by
  induction bytes generalizing i with
  | nil => cases h
  | cons byte bytes ih =>
      rw [bucketFrom] at h
      split at h
      · rename_i hbyte
        have hlog : Nat.log2 byte.toNat < 8 := by
          refine (Nat.log2_lt ?_).2 byte.toNat_lt
          intro hzero
          exact hbyte (UInt8.toNat_inj.1 hzero)
        have hindex := Option.some.inj h
        omega
      · exact ih h

theorem bucketIndex_lt {d : Distance} {index : ℕ} (h : d.bucketIndex = some index) : index < 160 :=
  bucketFrom_lt h

end Distance

/-! ### Contacts -/

/-- The address is one of IPv4. -/
def SocketAddr.IsV4 (addr : SocketAddr) : Prop := ∃ octets, addr.ip = .v4 octets

structure Contact where
  id : NodeId
  addr : SocketAddr
  deriving DecidableEq

/-- The compact form of an IPv4 contact. -/
def encodeNode (contact : Contact) : Bytes :=
  match contact.addr.ip with
  | .v4 octets => contact.id.toList ++ octets.toList ++ beBytes 2 contact.addr.port.toNat
  | .v6 _ => []

/-- `encode_nodes`: contacts that are not IPv4 are left out. -/
def encodeNodes (contacts : List Contact) : Bytes := contacts.flatMap encodeNode

/-- The contact of 26 bytes. -/
def decodeNode (bytes : Bytes) : Contact where
  id := Vector.ofFn fun i => bytes.getD i 0
  addr :=
    { ip := .v4 (Vector.ofFn fun i => bytes.getD (20 + i) 0)
      port := UInt16.ofNat (beNat ((bytes.drop 24).take 2)) }

/-- `as_chunks`, for so many of them. -/
def decodeChunks : ℕ → Bytes → List Contact
  | 0, _ => []
  | n + 1, bytes => decodeNode (bytes.take 26) :: decodeChunks n (bytes.drop 26)

/-- `decode_nodes` -/
def decodeNodes (bytes : Bytes) : Except Text (List Contact) :=
  if bytes.length % 26 ≠ 0 then
    .error "compact DHT nodes must be a multiple of 26 bytes".toList
  else .ok (decodeChunks (bytes.length / 26) bytes)

/-- `encode_peers`: peers that are not IPv4 are left out. -/
def encodePeers (peers : List SocketAddr) : List Bytes :=
  peers.filterMap fun peer =>
    match peer.ip with
    | .v4 octets => some (octets.toList ++ beBytes 2 peer.port.toNat)
    | .v6 _ => none

/-- `decode_peers`, one of them. -/
def decodePeer (bytes : Bytes) : Except Text SocketAddr :=
  if bytes.length ≠ 6 then
    .error "compact DHT peers must contain exactly 6 bytes".toList
  else
    .ok
      { ip := .v4 (Vector.ofFn fun i => bytes.getD i 0)
        port := UInt16.ofNat (beNat (bytes.drop 4)) }

/-- `decode_peers` -/
def decodePeers (values : List Bytes) : Except Text (List SocketAddr) := values.mapM decodePeer

/-! ### The table -/

structure RoutingEntry where
  contact : Contact
  failures : ℕ
  deriving DecidableEq

/-- `FAILURE_LIMIT` -/
def failureLimit : ℕ := 2

/-- `BUCKET_COUNT` -/
def bucketCount : ℕ := 160

structure RoutingTable where
  localId : NodeId
  bucketSize : ℕ
  buckets : List (List RoutingEntry)

namespace RoutingTable

def new (localId : NodeId) (bucketSize : ℕ) : RoutingTable :=
  ⟨localId, bucketSize, List.replicate bucketCount []⟩

/-- The bucket of an identifier; the node itself has none. -/
def bucketOf (t : RoutingTable) (id : NodeId) : Option ℕ := (distance t.localId id).bucketIndex

/-- The entry is the one of this identifier. -/
def isEntryOf (id : NodeId) (entry : RoutingEntry) : Bool := entry.contact.id = id

/-- The contact goes to the back of the bucket, in the place of the entry with its identifier, or of
one that has failed. -/
def insertBucket (bucketSize : ℕ) (bucket : List RoutingEntry) (contact : Contact) :
    List RoutingEntry × Bool :=
  if bucket.any (isEntryOf contact.id) then
    (bucket.eraseP (isEntryOf contact.id) ++ [⟨contact, 0⟩], true)
  else if bucketSize ≤ bucket.length then
    if bucket.any fun entry => 0 < entry.failures then
      (bucket.eraseP (fun entry => 0 < entry.failures) ++ [⟨contact, 0⟩], true)
    else (bucket, false)
  else (bucket ++ [⟨contact, 0⟩], true)

def insert (t : RoutingTable) (contact : Contact) : RoutingTable × Bool :=
  match t.bucketOf contact.id with
  | none => (t, false)
  | some index =>
      let (bucket, inserted) := insertBucket t.bucketSize (t.buckets.getD index []) contact
      ({ t with buckets := t.buckets.set index bucket }, inserted)

/-- The entry of the identifier fails once more, and is removed at the limit.  The number of failures
is a `u8` that saturates. -/
def failBucket (id : NodeId) : List RoutingEntry → List RoutingEntry
  | [] => []
  | entry :: bucket =>
      if isEntryOf id entry then
        let failures := min (entry.failures + 1) 255
        if failureLimit ≤ failures then bucket else { entry with failures } :: bucket
      else entry :: failBucket id bucket

def recordFailure (t : RoutingTable) (id : NodeId) : RoutingTable :=
  match t.bucketOf id with
  | none => t
  | some index =>
      { t with buckets := t.buckets.set index (failBucket id (t.buckets.getD index [])) }

/-- The contacts, in the order of the buckets. -/
def contacts (t : RoutingTable) : List Contact := t.buckets.flatten.map RoutingEntry.contact

/-- `closest`: no two contacts have the same distance, so that one order is sorted. -/
def closest (t : RoutingTable) (target : NodeId) (limit : ℕ) : List Contact :=
  (t.contacts.mergeSort fun a b => (distance target a.id).le (distance target b.id)).take limit

/-- The contact is in the table. -/
def Has (t : RoutingTable) (contact : Contact) : Prop :=
  ∃ bucket ∈ t.buckets, ∃ entry ∈ bucket, entry.contact = contact

theorem mem_contacts_iff {t : RoutingTable} {contact : Contact} : contact ∈ t.contacts ↔ t.Has contact := by
  simp only [contacts, Has, List.mem_map, List.mem_flatten]
  constructor
  · rintro ⟨entry, ⟨bucket, hbucket, hentry⟩, heq⟩
    exact ⟨bucket, hbucket, entry, hentry, heq⟩
  · rintro ⟨bucket, hbucket, entry, hentry, heq⟩
    exact ⟨entry, ⟨bucket, hbucket, hentry⟩, heq⟩

instance {t : RoutingTable} {contact : Contact} : Decidable (t.Has contact) :=
  decidable_of_iff _ mem_contacts_iff

/-! ### Buckets -/

variable {t : RoutingTable} {contact other : Contact} {bucket : List RoutingEntry} {size : ℕ}

/-- No two entries of the bucket have the same identifier. -/
def Distinct (bucket : List RoutingEntry) : Prop :=
  bucket.Pairwise fun a b => a.contact.id ≠ b.contact.id

theorem isEntryOf_iff {id : NodeId} {entry : RoutingEntry} :
    isEntryOf id entry = true ↔ entry.contact.id = id := by
  simp [isEntryOf]

/-- What is left of a bucket when the entry of an identifier was taken out. -/
theorem mem_eraseP_isEntryOf {id : NodeId} {entry : RoutingEntry} (hdistinct : Distinct bucket)
    (h : entry ∈ bucket.eraseP (isEntryOf id)) : entry ∈ bucket ∧ entry.contact.id ≠ id := by
  induction bucket with
  | nil => cases h
  | cons first bucket ih =>
      obtain ⟨hfirst, hrest⟩ := List.pairwise_cons.1 hdistinct
      rw [List.eraseP_cons] at h
      by_cases hid : isEntryOf id first = true
      · simp only [hid] at h
        refine ⟨List.mem_cons_of_mem _ h, ?_⟩
        rw [← isEntryOf_iff.1 hid]
        exact (hfirst entry h).symm
      · simp only [hid] at h
        rcases List.mem_cons.1 h with rfl | h
        · exact ⟨List.mem_cons_self, fun heq => hid (isEntryOf_iff.2 heq)⟩
        · obtain ⟨hmem, hne⟩ := ih hrest h
          exact ⟨List.mem_cons_of_mem _ hmem, hne⟩

variable (size) in
/-- **What inserting does to a bucket**: nothing, or the contact is in it, and none of the others has
its identifier. -/
theorem insertBucket_cases (hdistinct : Distinct bucket) (contact : Contact) :
    insertBucket size bucket contact = (bucket, false) ∨
    ∃ kept, insertBucket size bucket contact = (kept ++ [⟨contact, 0⟩], true) ∧
      kept.Sublist bucket ∧ ∀ entry ∈ kept, entry.contact.id ≠ contact.id := by
  unfold insertBucket
  by_cases hknown : bucket.any (isEntryOf contact.id) = true
  · refine .inr ⟨bucket.eraseP (isEntryOf contact.id), by rw [if_pos hknown],
      List.eraseP_sublist, ?_⟩
    intro entry hentry
    exact (mem_eraseP_isEntryOf hdistinct hentry).2
  · have hnew (entry : RoutingEntry) (hentry : entry ∈ bucket) : entry.contact.id ≠ contact.id :=
      fun heq => hknown (List.any_eq_true.2 ⟨entry, hentry, isEntryOf_iff.2 heq⟩)
    rw [if_neg hknown]
    split
    · split
      · have hsub := List.eraseP_sublist (p := fun entry : RoutingEntry => decide (0 < entry.failures))
          (l := bucket)
        exact .inr ⟨_, rfl, hsub, fun entry hentry => hnew entry (hsub.subset hentry)⟩
      · exact .inl rfl
    · exact .inr ⟨bucket, rfl, List.Sublist.refl _, hnew⟩

theorem Distinct.concat {kept : List RoutingEntry} (hdistinct : Distinct kept) {entry : RoutingEntry}
    (h : ∀ old ∈ kept, old.contact.id ≠ entry.contact.id) : Distinct (kept ++ [entry]) := by
  refine List.pairwise_append.2 ⟨hdistinct, List.pairwise_singleton _ _, ?_⟩
  intro old hold new hnew
  rw [List.mem_singleton.1 hnew]
  exact h old hold

/-- A failure keeps the contacts of a bucket in their order, or takes one out. -/
theorem failBucket_sublist (id : NodeId) (bucket : List RoutingEntry) :
    ((failBucket id bucket).map RoutingEntry.contact).Sublist
      (bucket.map RoutingEntry.contact) := by
  induction bucket with
  | nil => exact List.Sublist.refl _
  | cons entry bucket ih =>
      simp only [failBucket]
      split
      · split
        · exact List.sublist_cons_self _ _
        · exact List.Sublist.refl _
      · exact ih.cons_cons _

theorem distinct_iff_contacts :
    Distinct bucket ↔ (bucket.map RoutingEntry.contact).Pairwise fun a b => a.id ≠ b.id := by
  rw [Distinct, List.pairwise_map]

/-! ### The whole table -/

/-- Every entry is in the bucket of its identifier, and no identifier is in a bucket twice. -/
structure Sorted (t : RoutingTable) : Prop where
  length : t.buckets.length = bucketCount
  bucket : ∀ (index : ℕ) (bucket : List RoutingEntry), t.buckets[index]? = some bucket →
    Distinct bucket ∧ ∀ entry ∈ bucket, t.bucketOf entry.contact.id = some index

theorem sorted_new (localId : NodeId) (bucketSize : ℕ) : (new localId bucketSize).Sorted := by
  refine ⟨List.length_replicate, ?_⟩
  intro index bucket h
  obtain ⟨-, rfl⟩ := List.mem_replicate.1 (List.mem_of_getElem? h)
  exact ⟨List.Pairwise.nil, fun entry hentry => absurd hentry List.not_mem_nil⟩

/-- The bucket of an identifier is there. -/
theorem Sorted.exists_bucket (hs : t.Sorted) {id : NodeId} {index : ℕ}
    (h : t.bucketOf id = some index) :
    index < t.buckets.length ∧ t.buckets[index]? = some (t.buckets.getD index []) := by
  have hlt : index < t.buckets.length := by
    rw [hs.length]
    exact Distance.bucketIndex_lt h
  refine ⟨hlt, ?_⟩
  rw [List.getD_eq_getElem?_getD, List.getElem?_eq_getElem hlt, Option.getD_some]

theorem has_iff_getElem? : t.Has contact ↔ ∃ (index : ℕ) (bucket : List RoutingEntry),
    t.buckets[index]? = some bucket ∧ contact ∈ bucket.map RoutingEntry.contact := by
  constructor
  · rintro ⟨bucket, hbucket, entry, hentry, rfl⟩
    obtain ⟨index, hindex⟩ := List.mem_iff_getElem?.1 hbucket
    exact ⟨index, bucket, hindex, List.mem_map.2 ⟨entry, hentry, rfl⟩⟩
  · rintro ⟨index, bucket, hindex, hcontact⟩
    obtain ⟨entry, hentry, rfl⟩ := List.mem_map.1 hcontact
    exact ⟨bucket, List.mem_of_getElem? hindex, entry, hentry, rfl⟩

/-- **An identifier has one address.** -/
theorem Sorted.addr_unique (hs : t.Sorted) (h : t.Has contact) (h' : t.Has other)
    (hid : contact.id = other.id) : contact = other := by
  obtain ⟨bucket, hbucket, entry, hentry, rfl⟩ := h
  obtain ⟨bucket', hbucket', entry', hentry', rfl⟩ := h'
  obtain ⟨index, hindex⟩ := List.mem_iff_getElem?.1 hbucket
  obtain ⟨index', hindex'⟩ := List.mem_iff_getElem?.1 hbucket'
  have hof := (hs.bucket index bucket hindex).2 entry hentry
  have hof' := (hs.bucket index' bucket' hindex').2 entry' hentry'
  rw [hid, hof'] at hof
  cases hof
  rw [hindex] at hindex'
  cases hindex'
  by_contra hne
  have hentries : entry ≠ entry' := fun heq => hne (heq ▸ rfl)
  have hdistinct := (hs.bucket index bucket hindex).1
  have hsymm : Std.Symm fun a b : RoutingEntry => a.contact.id ≠ b.contact.id :=
    ⟨fun _ _ hne => hne.symm⟩
  exact hdistinct.forall hentry hentry' hentries hid

/-- A bucket is exchanged for one that is in order. -/
theorem Sorted.set (hs : t.Sorted) {index : ℕ} (hdistinct : Distinct bucket)
    (hbucket : ∀ entry ∈ bucket, t.bucketOf entry.contact.id = some index) :
    Sorted { t with buckets := t.buckets.set index bucket } := by
  refine ⟨by simpa using hs.length, ?_⟩
  intro i b hb
  simp only [List.getElem?_set] at hb
  split at hb
  · rename_i hi
    subst hi
    split at hb
    · cases hb
      exact ⟨hdistinct, hbucket⟩
    · cases hb
  · exact hs.bucket i b hb

/-- **What inserting does to the table**: nothing, or the contact is in it, and the others were there
with other identifiers. -/
theorem Sorted.insert_cases (hs : t.Sorted) (contact : Contact) :
    t.insert contact = (t, false) ∨
    ((t.insert contact).2 = true ∧ (t.insert contact).1.Has contact ∧
      ∀ other, (t.insert contact).1.Has other →
        other = contact ∨ (t.Has other ∧ other.id ≠ contact.id)) := by
  unfold insert
  cases hof : t.bucketOf contact.id with
  | none => exact .inl rfl
  | some index =>
      obtain ⟨hlt, hget⟩ := hs.exists_bucket hof
      obtain ⟨hdistinct, hbucket⟩ := hs.bucket index _ hget
      rcases insertBucket_cases t.bucketSize hdistinct contact with
        heq | ⟨kept, heq, hsub, hothers⟩
      · refine .inl ?_
        simp only [heq]
        obtain ⟨_, hbucket⟩ := List.getElem?_eq_some_iff.1 hget
        rw [← hbucket, List.set_getElem_self]
      · refine .inr ?_
        simp only [heq]
        refine ⟨trivial, has_iff_getElem?.2 ⟨index, _, List.getElem?_set_self hlt, by simp⟩, ?_⟩
        intro other hother
        obtain ⟨i, b, hb, hmem⟩ := has_iff_getElem?.1 hother
        by_cases hi : index = i
        · subst hi
          rw [List.getElem?_set_self hlt] at hb
          cases hb
          simp only [List.map_append, List.map_cons, List.map_nil, List.mem_append,
            List.mem_singleton] at hmem
          rcases hmem with hmem | rfl
          · obtain ⟨entry, hentry, rfl⟩ := List.mem_map.1 hmem
            refine .inr ⟨?_, hothers entry hentry⟩
            exact has_iff_getElem?.2
              ⟨index, _, hget, List.mem_map.2 ⟨entry, hsub.subset hentry, rfl⟩⟩
          · exact .inl rfl
        · simp only [List.getElem?_set_ne hi] at hb
          refine .inr ⟨has_iff_getElem?.2 ⟨i, b, hb, hmem⟩, ?_⟩
          obtain ⟨entry, hentry, rfl⟩ := List.mem_map.1 hmem
          intro hid
          have hof' := (hs.bucket i b hb).2 entry hentry
          rw [hid, hof] at hof'
          exact hi (Option.some.inj hof')

theorem Sorted.insert (hs : t.Sorted) (contact : Contact) : (t.insert contact).1.Sorted := by
  unfold RoutingTable.insert
  cases hof : t.bucketOf contact.id with
  | none => exact hs
  | some index =>
      obtain ⟨-, hget⟩ := hs.exists_bucket hof
      obtain ⟨hdistinct, hbucket⟩ := hs.bucket index _ hget
      rcases insertBucket_cases t.bucketSize hdistinct contact with
        heq | ⟨kept, heq, hsub, hothers⟩
      · simp only [heq]
        exact hs.set hdistinct hbucket
      · simp only [heq]
        refine hs.set (Distinct.concat (hdistinct.sublist hsub) hothers) ?_
        intro entry hentry
        rcases List.mem_append.1 hentry with hentry | hentry
        · exact hbucket entry (hsub.subset hentry)
        · rw [List.mem_singleton.1 hentry]
          exact hof

theorem Sorted.recordFailure (hs : t.Sorted) (id : NodeId) : (t.recordFailure id).Sorted := by
  unfold RoutingTable.recordFailure
  cases hof : t.bucketOf id with
  | none => exact hs
  | some index =>
      obtain ⟨-, hget⟩ := hs.exists_bucket hof
      obtain ⟨hdistinct, hbucket⟩ := hs.bucket index _ hget
      have hsub := failBucket_sublist id (t.buckets.getD index [])
      refine hs.set (distinct_iff_contacts.2 ((distinct_iff_contacts.1 hdistinct).sublist hsub)) ?_
      intro entry hentry
      obtain ⟨old, hold, heq⟩ := List.mem_map.1 (hsub.subset (List.mem_map.2 ⟨entry, hentry, rfl⟩))
      rw [← heq]
      exact hbucket old hold

/-- **A failure brings no contact into the table.** -/
theorem Sorted.has_of_recordFailure (hs : t.Sorted) {id : NodeId}
    (h : (t.recordFailure id).Has contact) : t.Has contact := by
  unfold RoutingTable.recordFailure at h
  cases hof : t.bucketOf id with
  | none =>
      rw [hof] at h
      exact h
  | some index =>
      rw [hof] at h
      obtain ⟨hlt, hget⟩ := hs.exists_bucket hof
      obtain ⟨i, b, hb, hmem⟩ := has_iff_getElem?.1 h
      by_cases hi : index = i
      · subst hi
        rw [List.getElem?_set_self hlt] at hb
        cases hb
        exact has_iff_getElem?.2 ⟨index, _, hget, (failBucket_sublist id _).subset hmem⟩
      · simp only [List.getElem?_set_ne hi] at hb
        exact has_iff_getElem?.2 ⟨i, b, hb, hmem⟩

end RoutingTable

end Tortillas
