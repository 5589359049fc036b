/-
**The closest contacts.**

`dht/routing.rs`: `closest` sorts the contacts of the table by their distance from a target and takes the first of
them.  The distances are compared byte for byte, which is the comparison of their numbers.  No identifier is in the
table twice, so that no two contacts have the same distance: the result is the same for every way to sort, and for
every order in which the contacts came into the table.

Main definitions:

* `contactDistance` — the distance of a contact from a target, as a number.

Main results:

* `contactDistance_le_iff`, `contactDistance_inj` — how distances are compared, and that they tell contacts apart;
* `RoutingTable.Sorted.nodup_contacts` — the contacts of a table have different identifiers;
* `closest_contacts` — **`closest` returns the closest contacts**.
-/

import Tortillas.KademliaTable
import Tortillas.Ranking

set_option relaxedAutoImplicit false
set_option autoImplicit false

namespace Tortillas

/-- The distance of a contact from the target, as a number. -/
def contactDistance (target : NodeId) (contact : Contact) : ℕ := idNumber target ^^^ idNumber contact.id

variable {target : NodeId} {a b : Contact}

/-- Distances are compared as numbers. -/
theorem contactDistance_le_iff :
    (distance target a.id).le (distance target b.id) = true ↔
      contactDistance target a ≤ contactDistance target b := by
  have hlen : (distance target a.id).bytes.length = (distance target b.id).bytes.length := by
    rw [length_distance, length_distance]
  rw [Distance.le, decide_eq_true_eq, le_iff_beNat_le hlen, beNat_distance, beNat_distance]
  exact Iff.rfl

/-- Contacts with different identifiers have different distances. -/
theorem contactDistance_inj (h : contactDistance target a = contactDistance target b) : a.id = b.id :=
  idNumber_inj (Nat.xor_right_injective h)

theorem ranks_distance (target : NodeId) :
    Ranks fun a b : Contact => (distance target a.id).le (distance target b.id) :=
  ranks_key fun contact : Contact => (distance target contact.id).bytes

namespace RoutingTable

variable {t u : RoutingTable}

theorem Sorted.nodup_contacts (hs : t.Sorted) : t.contacts.Pairwise fun a b => a.id ≠ b.id := by
  have hnodup := hs.nodup_ids
  rw [List.Nodup, List.pairwise_map] at hnodup
  exact List.pairwise_map.2 hnodup

/-- Contacts of the table with the same distance are the same. -/
theorem Sorted.eq_of_le (hs : t.Sorted) (ha : a ∈ t.contacts) (hb : b ∈ t.contacts)
    (hab : (distance target a.id).le (distance target b.id) = true)
    (hba : (distance target b.id).le (distance target a.id) = true) : a = b := by
  have heq : contactDistance target a = contactDistance target b :=
    Nat.le_antisymm (contactDistance_le_iff.1 hab) (contactDistance_le_iff.1 hba)
  exact hs.addr_unique (mem_contacts_iff.1 ha) (mem_contacts_iff.1 hb) (contactDistance_inj heq)

/-- **The contacts sorted by their distance**, in whatever way they are sorted: each is closer than the next. -/
theorem Sorted.pairwise_order (hs : t.Sorted) {order : List Contact} (hperm : order.Perm t.contacts)
    (hsorted : order.Pairwise fun a b => (distance target a.id).le (distance target b.id) = true) :
    order.Pairwise fun a b => contactDistance target a < contactDistance target b := by
  have hsymm : ∀ {a b : Contact}, a.id ≠ b.id → b.id ≠ a.id := Ne.symm
  have hne : order.Pairwise fun a b => a.id ≠ b.id := (hperm.pairwise_iff hsymm).2 hs.nodup_contacts
  refine (hsorted.and hne).imp ?_
  rintro a b ⟨hle, hne⟩
  exact lt_of_le_of_ne (contactDistance_le_iff.1 hle) fun heq => hne (contactDistance_inj heq)

/-- There is one way to sort the contacts, and it does not depend on the order in which they came. -/
theorem Sorted.order_unique (hs : t.Sorted) {order order' : List Contact} (hperm : order.Perm t.contacts)
    (hperm' : order'.Perm t.contacts)
    (hsorted : order.Pairwise fun a b => (distance target a.id).le (distance target b.id) = true)
    (hsorted' : order'.Pairwise fun a b => (distance target a.id).le (distance target b.id) = true) :
    order = order' := by
  refine List.Perm.eq_of_pairwise ?_ hsorted hsorted' (hperm.trans hperm'.symm)
  intro a b ha hb
  exact hs.eq_of_le (hperm.mem_iff.1 ha) (hperm'.mem_iff.1 hb)

/-- Tables with the same contacts have them in some order. -/
theorem Sorted.contacts_perm (hs : t.Sorted) (hu : u.Sorted) (h : ∀ contact, u.Has contact ↔ t.Has contact) :
    u.contacts.Perm t.contacts := by
  have hnodup {t : RoutingTable} (hs : t.Sorted) : t.contacts.Nodup :=
    hs.nodup_contacts.imp fun hne heq => hne (congrArg Contact.id heq)
  refine (List.perm_ext_iff_of_nodup (hnodup hu) (hnodup hs)).2 fun contact => ?_
  rw [mem_contacts_iff, mem_contacts_iff]
  exact h contact

end RoutingTable

/-- **`closest` returns the closest contacts** of a table after any inserts and failures: as many as asked for, each
strictly closer than the next, and all others strictly farther.  Every way to sort gives the same list, and so does
every other table with the same contacts. -/
theorem closest_contacts {localId : NodeId} {k : ℕ} {t : RoutingTable}
    (h : (routingSystem localId k).Reach (fun _ _ => True) t) (target : NodeId) (limit : ℕ) :
    (t.closest target limit).length = min limit t.contacts.length ∧
      (∀ contact ∈ t.closest target limit, t.Has contact) ∧
      ((t.closest target limit).Pairwise fun a b =>
        idNumber target ^^^ idNumber a.id < idNumber target ^^^ idNumber b.id) ∧
      (∀ contact, t.Has contact → contact ∉ t.closest target limit → ∀ close ∈ t.closest target limit,
        idNumber target ^^^ idNumber close.id < idNumber target ^^^ idNumber contact.id) ∧
      (∀ order : List Contact, order.Perm t.contacts →
        (order.Pairwise fun a b => (distance target a.id).le (distance target b.id) = true) →
        order.take limit = t.closest target limit) ∧
      ∀ {localId' : NodeId} {k' : ℕ} {u : RoutingTable}, (routingSystem localId' k').Reach (fun _ _ => True) u →
        (∀ contact, u.Has contact ↔ t.Has contact) → u.closest target limit = t.closest target limit := by
  have hs := (RoutingTable.kademlia_of_reach h).sorted
  have hperm := List.mergeSort_perm t.contacts fun a b => (distance target a.id).le (distance target b.id)
  have hsorted := (ranks_distance target).pairwise_mergeSort t.contacts
  have hstrict := hs.pairwise_order hperm hsorted
  refine ⟨?_, ?_, hstrict.sublist (List.take_sublist _ _), ?_, ?_, ?_⟩
  · rw [RoutingTable.closest, List.length_take, List.length_mergeSort]
  · intro contact hcontact
    exact RoutingTable.mem_contacts_iff.1 (hperm.mem_iff.1 (List.mem_of_mem_take hcontact))
  · intro contact hhas hout close hclose
    have hmem := hperm.mem_iff.2 (RoutingTable.mem_contacts_iff.2 hhas)
    rw [← List.take_append_drop limit (List.mergeSort _ _), List.mem_append] at hmem
    exact rel_of_mem_take_of_mem_drop hstrict hclose (hmem.resolve_left hout)
  · intro order horder hpairwise
    rw [RoutingTable.closest, hs.order_unique horder hperm hpairwise hsorted]
  · intro localId' k' u hu hsame
    have hcontacts := hs.contacts_perm (RoutingTable.kademlia_of_reach hu).sorted hsame
    rw [RoutingTable.closest, RoutingTable.closest]
    congr 1
    refine (ranks_distance target).mergeSort_congr hcontacts ?_
    intro a ha b hb
    exact hs.eq_of_le (hcontacts.mem_iff.1 ha) (hcontacts.mem_iff.1 hb)

namespace Sample

/-- A table that has heard of two contacts. -/
def twoContacts : RoutingTable :=
  [RoutingInput.insert ⟨.replicate 20 1, nodeAddr⟩, .insert ⟨.replicate 20 2, nodeAddr⟩].foldl RoutingTable.apply
    (.new (.replicate 20 0) 8)

end Sample

theorem closest_contacts_sample :
    (Sample.twoContacts.closest (.replicate 20 3) 1).length = 1 ∧
      ∀ contact ∈ Sample.twoContacts.closest (.replicate 20 3) 1, Sample.twoContacts.Has contact := by
  have hreach : (routingSystem (.replicate 20 0) 8).Reach (fun _ _ => True) Sample.twoContacts :=
    System.Reach.foldl (fun _ _ => rfl) _ (.init rfl)
  obtain ⟨hlen, hhas, -⟩ := closest_contacts hreach (.replicate 20 3) 1
  have hcontacts : Sample.twoContacts.contacts.length = 2 := by decide +kernel
  rw [hcontacts] at hlen
  exact ⟨hlen, hhas⟩

end Tortillas
