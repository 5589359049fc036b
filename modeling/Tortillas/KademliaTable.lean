/-
**The routing table is a Kademlia table.**

`dht/routing.rs` and `dht/id.rs`: an identifier is a number of 160 bits, the highest first, and the distance of two
of them is the exclusive or of the numbers.  Bucket `i` has the contacts whose distance from the node itself is at
least `2 ^ i` and less than `2 ^ (i + 1)`.

A contact that comes is filed under its identifier.  Where its bucket is full, it takes the place of one that has
failed, and it is turned away when there is none.

Main definitions:

* `idNumber` — the number of an identifier;
* `routingSystem` — a table, with `insert` and `record_failure` as steps;
* `RoutingTable.Kademlia` — what holds of the table after every step.

Main results:

* `bucketIndex_eq_some_iff` — the bucket of a distance, as a number;
* `RoutingTable.Kademlia.insert`, `RoutingTable.Kademlia.recordFailure` — each step keeps the invariant;
* `RoutingTable.Sorted.insert_eq_true_iff` — `insert` says whether the contact is in the table;
* `routing_table_kademlia` — **the table after any inserts and failures**.
-/

import Tortillas.BigEndian
import Tortillas.RoutingTable

set_option relaxedAutoImplicit false
set_option autoImplicit false

namespace Tortillas

/-! ### Distances as numbers -/

/-- The number of an identifier. -/
def idNumber (id : NodeId) : ℕ := beNat id.toList

theorem idNumber_inj {a b : NodeId} (h : idNumber a = idNumber b) : a = b :=
  Vector.toList_inj.1 (beNat_inj (by simp) h)

theorem length_distance (a b : NodeId) : (distance a b).bytes.length = 20 := by
  simp [distance]

/-- The distance is the exclusive or of the numbers. -/
theorem beNat_distance (a b : NodeId) : beNat (distance a b).bytes = idNumber a ^^^ idNumber b :=
  beNat_zipWith_xor (by simp)

/-- The bucket is the position of the highest bit that is set. -/
theorem bucketFrom_eq_some_iff {i k : ℕ} {bytes : Bytes} (hlen : i + bytes.length = 20) :
    Distance.bucketFrom i bytes = some k ↔ 2 ^ k ≤ beNat bytes ∧ beNat bytes < 2 ^ (k + 1) := by
  induction bytes generalizing i with
  | nil =>
      rw [Distance.bucketFrom]
      refine iff_of_false ?_ ?_
      · intro h
        cases h
      · intro h
        exact absurd h.1 (Nat.not_le.2 (Nat.two_pow_pos k))
  | cons byte bytes ih =>
      rw [List.length_cons] at hlen
      rw [Distance.bucketFrom, beNat_cons]
      by_cases hbyte : byte = 0
      · rw [if_neg (not_not.2 hbyte), ih (by omega), hbyte]
        simp
      · rw [if_pos hbyte, Option.some.injEq, show 20 - 1 - i = bytes.length by omega]
        have hpos : byte.toNat ≠ 0 := fun h => hbyte (UInt8.toNat_inj.1 h)
        have hrest := beNat_lt bytes
        rw [two_pow_eight_mul] at hrest ⊢
        have hnumber : byte.toNat * 2 ^ (8 * bytes.length) + beNat bytes ≠ 0 := by
          have hmul := Nat.mul_pos (Nat.pos_of_ne_zero hpos) (Nat.two_pow_pos (8 * bytes.length))
          omega
        rw [Nat.mul_comm bytes.length, ← log2_add_of_lt hpos hrest, Nat.log2_eq_iff hnumber]

theorem bucketIndex_eq_some_iff {a b : NodeId} {k : ℕ} :
    (distance a b).bucketIndex = some k ↔
      2 ^ k ≤ idNumber a ^^^ idNumber b ∧ idNumber a ^^^ idNumber b < 2 ^ (k + 1) := by
  have hlen : 0 + (distance a b).bytes.length = 20 := by
    rw [Nat.zero_add, length_distance]
  rw [Distance.bucketIndex, bucketFrom_eq_some_iff hlen, beNat_distance]

theorem bucketIndex_self (id : NodeId) : (distance id id).bucketIndex = none := by
  rw [Option.eq_none_iff_forall_ne_some]
  intro k h
  rw [bucketIndex_eq_some_iff, Nat.xor_self] at h
  exact absurd h.1 (Nat.not_le.2 (Nat.two_pow_pos k))

/-! ### Buckets -/

namespace RoutingTable

variable {t : RoutingTable} {contact : Contact} {bucket : List RoutingEntry} {size : ℕ} {entry : RoutingEntry}

/-- A bucket that is not too large does not get too large. -/
theorem length_insertBucket_le (h : bucket.length ≤ size) : (insertBucket size bucket contact).1.length ≤ size := by
  unfold insertBucket
  split
  · rename_i hknown
    obtain ⟨old, hold, hid⟩ := List.any_eq_true.1 hknown
    have hlen := List.length_eraseP_of_mem hold hid
    have hpos := List.length_pos_of_mem hold
    simp only [List.length_append, List.length_singleton]
    omega
  · split
    · split
      · rename_i hfailed
        obtain ⟨old, hold, hfailures⟩ := List.any_eq_true.1 hfailed
        have hlen := List.length_eraseP_of_mem (p := fun entry : RoutingEntry => decide (0 < entry.failures))
          hold hfailures
        have hpos := List.length_pos_of_mem hold
        simp only [List.length_append, List.length_singleton]
        omega
      · exact h
    · rename_i hroom
      simp only [List.length_append, List.length_singleton]
      omega

/-- Only an entry of the same identifier, or one that has failed, makes room. -/
theorem mem_insertBucket (h : entry ∈ bucket) (hid : entry.contact.id ≠ contact.id) (halive : entry.failures = 0) :
    entry ∈ (insertBucket size bucket contact).1 := by
  unfold insertBucket
  split
  · refine List.mem_append_left _ ((List.mem_eraseP_of_neg ?_).2 h)
    rw [isEntryOf_iff]
    exact hid
  · split
    · split
      · refine List.mem_append_left _ ((List.mem_eraseP_of_neg ?_).2 h)
        simp [halive]
      · exact h
    · exact List.mem_append_left _ h

/-- A contact is turned away only when its identifier is not known. -/
theorem insertBucket_of_false (h : (insertBucket size bucket contact).2 = false) :
    ∀ entry ∈ bucket, entry.contact.id ≠ contact.id := by
  intro entry hentry hid
  have hknown : bucket.any (isEntryOf contact.id) = true :=
    List.any_eq_true.2 ⟨entry, hentry, isEntryOf_iff.2 hid⟩
  rw [insertBucket, if_pos hknown] at h
  cases h

theorem failBucket_length_le (id : NodeId) (bucket : List RoutingEntry) :
    (failBucket id bucket).length ≤ bucket.length := by
  simpa using (failBucket_sublist id bucket).length_le

/-- An entry that reaches the limit is removed. -/
theorem failures_lt_of_mem_failBucket {id : NodeId} (h : ∀ entry ∈ bucket, entry.failures < failureLimit) :
    ∀ entry ∈ failBucket id bucket, entry.failures < failureLimit := by
  induction bucket with
  | nil => exact h
  | cons first bucket ih =>
      rw [List.forall_mem_cons] at h
      simp only [failBucket]
      split
      · split
        · exact h.2
        · rename_i hlimit
          rw [List.forall_mem_cons]
          exact ⟨Nat.not_le.1 hlimit, h.2⟩
      · rw [List.forall_mem_cons]
        exact ⟨h.1, ih h.2⟩

/-! ### The table -/

/-- What holds of a table with the given identifier and size of the buckets. -/
structure Kademlia (localId : NodeId) (size : ℕ) (t : RoutingTable) : Prop where
  self : t.localId = localId
  limit : t.bucketSize = size
  sorted : t.Sorted
  bounded : ∀ bucket ∈ t.buckets, bucket.length ≤ size
  alive : ∀ bucket ∈ t.buckets, ∀ entry ∈ bucket, entry.failures < failureLimit

theorem kademlia_new (localId : NodeId) (size : ℕ) : Kademlia localId size (new localId size) := by
  have hempty : ∀ bucket ∈ (new localId size).buckets, bucket = [] :=
    fun bucket hbucket => (List.mem_replicate.1 hbucket).2
  refine ⟨rfl, rfl, sorted_new localId size, ?_, ?_⟩
  · intro bucket hbucket
    rw [hempty bucket hbucket]
    exact Nat.zero_le _
  · intro bucket hbucket entry hentry
    rw [hempty bucket hbucket] at hentry
    cases hentry

variable {localId : NodeId}

/-- The bucket that is looked up is one of the table, or empty. -/
theorem Kademlia.getD (ht : Kademlia localId size t) (index : ℕ) :
    (t.buckets.getD index []).length ≤ size ∧
      ∀ entry ∈ t.buckets.getD index [], entry.failures < failureLimit := by
  rw [List.getD_eq_getElem?_getD]
  cases hget : t.buckets[index]? with
  | none => exact ⟨Nat.zero_le _, nofun⟩
  | some bucket =>
      have hmem : bucket ∈ t.buckets := List.mem_of_getElem? hget
      exact ⟨ht.bounded bucket hmem, ht.alive bucket hmem⟩

theorem Kademlia.insert (ht : Kademlia localId size t) (contact : Contact) :
    Kademlia localId size (t.insert contact).1 := by
  have hsorted := ht.sorted.insert contact
  unfold RoutingTable.insert at hsorted ⊢
  cases hof : t.bucketOf contact.id with
  | none => exact ht
  | some index =>
      rw [hof] at hsorted
      obtain ⟨hlen, halive⟩ := ht.getD index
      obtain ⟨-, hget⟩ := ht.sorted.exists_bucket hof
      refine ⟨ht.self, ht.limit, hsorted, ?_, ?_⟩
      · intro bucket hbucket
        rcases List.mem_or_eq_of_mem_set hbucket with hold | rfl
        · exact ht.bounded bucket hold
        · rw [ht.limit]
          exact length_insertBucket_le hlen
      · intro bucket hbucket
        rcases List.mem_or_eq_of_mem_set hbucket with hold | rfl
        · exact ht.alive bucket hold
        · rcases insertBucket_cases t.bucketSize (ht.sorted.bucket index _ hget).1 contact with
            heq | ⟨kept, heq, hsub, -⟩
          · rw [heq]
            exact halive
          · rw [heq]
            intro entry hentry
            rcases List.mem_append.1 hentry with hentry | hentry
            · exact halive entry (hsub.subset hentry)
            · rw [List.mem_singleton.1 hentry]
              exact Nat.zero_lt_succ _

theorem Kademlia.recordFailure (ht : Kademlia localId size t) (id : NodeId) :
    Kademlia localId size (t.recordFailure id) := by
  have hsorted := ht.sorted.recordFailure id
  unfold RoutingTable.recordFailure at hsorted ⊢
  cases hof : t.bucketOf id with
  | none => exact ht
  | some index =>
      rw [hof] at hsorted
      obtain ⟨hlen, halive⟩ := ht.getD index
      refine ⟨ht.self, ht.limit, hsorted, ?_, ?_⟩
      · intro bucket hbucket
        rcases List.mem_or_eq_of_mem_set hbucket with hold | rfl
        · exact ht.bounded bucket hold
        · exact (failBucket_length_le id _).trans hlen
      · intro bucket hbucket
        rcases List.mem_or_eq_of_mem_set hbucket with hold | rfl
        · exact ht.alive bucket hold
        · exact failures_lt_of_mem_failBucket halive

/-- **No identifier is in the table twice.** -/
theorem Sorted.nodup_ids (hs : t.Sorted) : (t.buckets.flatten.map fun entry => entry.contact.id).Nodup := by
  rw [List.Nodup, List.pairwise_map, List.pairwise_flatten]
  constructor
  · intro bucket hbucket
    obtain ⟨index, hindex⟩ := List.mem_iff_getElem?.1 hbucket
    exact (hs.bucket index bucket hindex).1
  · rw [List.pairwise_iff_getElem]
    intro i j hi hj hij a ha b hb heq
    have ha := (hs.bucket i _ (List.getElem?_eq_getElem hi)).2 a ha
    have hb := (hs.bucket j _ (List.getElem?_eq_getElem hj)).2 b hb
    rw [heq, hb] at ha
    cases ha
    exact Nat.lt_irrefl _ hij

/-- An entry is in the bucket of its identifier. -/
theorem Sorted.mem_bucket_iff (hs : t.Sorted) (h : entry ∈ t.buckets.flatten) {i : ℕ} :
    (∃ bucket, t.buckets[i]? = some bucket ∧ entry ∈ bucket) ↔ t.bucketOf entry.contact.id = some i := by
  constructor
  · rintro ⟨bucket, hbucket, hentry⟩
    exact (hs.bucket i bucket hbucket).2 entry hentry
  · intro hof
    obtain ⟨bucket, hbucket, hentry⟩ := List.mem_flatten.1 h
    obtain ⟨j, hj⟩ := List.mem_iff_getElem?.1 hbucket
    have hof' := (hs.bucket j bucket hj).2 entry hentry
    rw [hof] at hof'
    cases hof'
    exact ⟨bucket, hj, hentry⟩

/-- **`insert` says whether the contact is in the table.** -/
theorem Sorted.insert_eq_true_iff (hs : t.Sorted) (contact : Contact) :
    (t.insert contact).2 = true ↔ (t.insert contact).1.Has contact := by
  rcases hs.insert_cases contact with heq | ⟨htrue, hhas, -⟩
  · rw [heq]
    refine ⟨nofun, fun hhas => ?_⟩
    -- the contact is not in the table when it was turned away
    obtain ⟨index, bucket, hindex, hcontact⟩ := has_iff_getElem?.1 hhas
    obtain ⟨entry, hentry, rfl⟩ := List.mem_map.1 hcontact
    have hof := (hs.bucket index bucket hindex).2 entry hentry
    have hfalse : (t.insert entry.contact).2 = false := by
      rw [heq]
    have hbucket : t.buckets.getD index [] = bucket := by
      rw [List.getD_eq_getElem?_getD, hindex, Option.getD_some]
    simp only [RoutingTable.insert, hof, hbucket] at hfalse
    exact absurd rfl (insertBucket_of_false hfalse entry hentry)
  · exact ⟨fun _ => hhas, fun _ => htrue⟩

/-- **A contact that has not failed is not pushed out by another one.** -/
theorem Sorted.mem_insert (hs : t.Sorted) (h : entry ∈ t.buckets.flatten) (hid : entry.contact.id ≠ contact.id)
    (halive : entry.failures = 0) : entry ∈ (t.insert contact).1.buckets.flatten := by
  unfold RoutingTable.insert
  cases hof : t.bucketOf contact.id with
  | none => exact h
  | some index =>
      obtain ⟨hlt, hget⟩ := hs.exists_bucket hof
      obtain ⟨bucket, hbucket, hentry⟩ := List.mem_flatten.1 h
      obtain ⟨j, hj⟩ := List.mem_iff_getElem?.1 hbucket
      rw [List.mem_flatten]
      by_cases hij : index = j
      · subst hij
        rw [hj, Option.some.injEq] at hget
        refine ⟨_, List.mem_of_getElem? (List.getElem?_set_self hlt), ?_⟩
        rw [← hget]
        exact mem_insertBucket hentry hid halive
      · exact ⟨bucket, List.mem_of_getElem? ((List.getElem?_set_ne hij).trans hj), hentry⟩

end RoutingTable

/-! ### Runs -/

inductive RoutingInput
  | insert (contact : Contact)
  | recordFailure (id : NodeId)

def RoutingTable.apply (t : RoutingTable) : RoutingInput → RoutingTable
  | .insert contact => (t.insert contact).1
  | .recordFailure id => t.recordFailure id

/-- A table, and what is called on it. -/
def routingSystem (localId : NodeId) (size : ℕ) : System RoutingTable RoutingInput where
  init t := t = .new localId size
  step t i u := u = t.apply i

theorem RoutingTable.kademlia_of_reach {localId : NodeId} {size : ℕ} {t : RoutingTable}
    (h : (routingSystem localId size).Reach (fun _ _ => True) t) : Kademlia localId size t := by
  refine h.invariant ?_ ?_
  · rintro t rfl
    exact kademlia_new localId size
  · rintro t i u ht - rfl
    cases i with
    | insert contact => exact ht.insert contact
    | recordFailure id => exact ht.recordFailure id

/-- **The routing table is a Kademlia table after any inserts and failures**: 160 buckets of limited size, each with
the contacts of its distances, no identifier twice and not the node's own one, and none that has failed as often as
the limit; `insert` says whether the contact is in the table, and pushes out nobody who has not failed. -/
theorem routing_table_kademlia {localId : NodeId} {k : ℕ} {t : RoutingTable}
    (h : (routingSystem localId k).Reach (fun _ _ => True) t) :
    t.buckets.length = 160 ∧ (∀ bucket ∈ t.buckets, bucket.length ≤ k) ∧
      (∀ entry ∈ t.buckets.flatten, ∀ i, (∃ bucket, t.buckets[i]? = some bucket ∧ entry ∈ bucket) ↔
        2 ^ i ≤ idNumber entry.contact.id ^^^ idNumber localId ∧
          idNumber entry.contact.id ^^^ idNumber localId < 2 ^ (i + 1)) ∧
      (t.buckets.flatten.map fun entry => entry.contact.id).Nodup ∧
      (∀ entry ∈ t.buckets.flatten, entry.contact.id ≠ localId) ∧
      (∀ entry ∈ t.buckets.flatten, entry.failures < 2) ∧
      ∀ contact, ((t.insert contact).2 = true ↔ (t.insert contact).1.Has contact) ∧
        ∀ entry ∈ t.buckets.flatten, entry.contact.id ≠ contact.id → entry.failures = 0 →
          entry ∈ (t.insert contact).1.buckets.flatten := by
  have ht := RoutingTable.kademlia_of_reach h
  refine ⟨ht.sorted.length, ht.bounded, ?_, ht.sorted.nodup_ids, ?_, ?_, ?_⟩
  · intro entry hentry i
    rw [ht.sorted.mem_bucket_iff hentry, RoutingTable.bucketOf, bucketIndex_eq_some_iff, ht.self,
      Nat.xor_comm]
  · intro entry hentry hid
    obtain ⟨bucket, hbucket, hmem⟩ := List.mem_flatten.1 hentry
    obtain ⟨i, hi⟩ := List.mem_iff_getElem?.1 hbucket
    have hof := (ht.sorted.bucket i bucket hi).2 entry hmem
    rw [RoutingTable.bucketOf, hid, ht.self, bucketIndex_self] at hof
    cases hof
  · intro entry hentry
    obtain ⟨bucket, hbucket, hmem⟩ := List.mem_flatten.1 hentry
    exact ht.alive bucket hbucket entry hmem
  · intro contact
    exact ⟨ht.sorted.insert_eq_true_iff contact, fun entry hentry hid halive =>
      ht.sorted.mem_insert hentry hid halive⟩

namespace Sample

/-- A contact whose identifier ends in this byte. -/
def contactOf (byte : UInt8) : Contact := ⟨(Vector.replicate 20 0).set 19 byte, nodeAddr⟩

/-- Buckets have room for one contact.  The first one fails and makes room for the second, and the third is of another
bucket. -/
def pushedOut : List RoutingInput :=
  [.insert (contactOf 2), .recordFailure (contactOf 2).id, .insert (contactOf 3), .insert (contactOf 200)]

end Sample

open Sample in
/-- The contact that was pushed out does not get back in, and pushes out nobody. -/
theorem routing_table_kademlia_sample :
    let t := pushedOut.foldl RoutingTable.apply (.new (.replicate 20 0) 1)
    t.Has (contactOf 3) ∧ t.Has (contactOf 200) ∧ ¬ (t.insert (contactOf 2)).1.Has (contactOf 2) ∧
      ∀ entry ∈ t.buckets.flatten, entry.contact.id ≠ (contactOf 2).id → entry.failures = 0 →
        entry ∈ (t.insert (contactOf 2)).1.buckets.flatten := by
  have hreach : (routingSystem (.replicate 20 0) 1).Reach (fun _ _ => True)
      (pushedOut.foldl RoutingTable.apply (.new (.replicate 20 0) 1)) :=
    System.Reach.foldl (fun _ _ => rfl) pushedOut (.init rfl)
  obtain ⟨-, -, -, -, -, -, hinsert⟩ := routing_table_kademlia hreach
  have hrefused : ((pushedOut.foldl RoutingTable.apply (.new (.replicate 20 0) 1)).insert (contactOf 2)).2 = false := by
    decide +kernel
  refine ⟨RoutingTable.mem_contacts_iff.1 (by decide +kernel), RoutingTable.mem_contacts_iff.1 (by decide +kernel), ?_,
    (hinsert _).2⟩
  intro hhas
  cases hrefused.symm.trans ((hinsert _).1.2 hhas)

end Tortillas
