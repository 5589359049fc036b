/-
**Finite maps with the operations of a hash map.**

A hash map is a finite set of entries with pairwise distinct keys, in an order nobody relies on.
Mathlib's `AList` is that structure; this module gives it the non-dependent interface of a
hash map and adds the two operations Mathlib does not have.

Main definitions:

* `HashMap` — a finite map from `K` to `V`, with `get?`, `insert` and `erase`;
* `HashMap.retain` — keep, and possibly rewrite, the entries a function selects;
* `HashMap.weight` — the sum of a weight over all entries, which is how numbers of entries of
  some kind are counted.

Main results:

* `HashMap.get?_insert`, `HashMap.get?_erase`, `HashMap.get?_retain` — what a lookup finds after
  each operation;
* `HashMap.weight_insert`, `HashMap.weight_erase`, `HashMap.weight_retain` — how a weight changes
  under each operation;
* `HashMap.weight_ext` — a weight depends on the entries, not on their order.
-/

import Mathlib.Algebra.GroupWithZero.Nat
import Mathlib.Data.List.AList
import Mathlib.Algebra.Order.BigOperators.Group.List
import Mathlib.Algebra.Order.Group.Nat

set_option relaxedAutoImplicit false
set_option autoImplicit false

namespace Tortillas

/-- A finite map: a list of entries with pairwise distinct keys. -/
abbrev HashMap (K V : Type) := AList (fun _ : K => V)

namespace HashMap

variable {K V W : Type}

/-- The entries as pairs, in the order in which the map yields them. -/
def toList (m : HashMap K V) : List (K × V) := m.entries.map fun e => (e.1, e.2)

/-- Keep the entries on which `f` answers, with the value it answers. -/
def retain (f : K → V → Option W) (m : HashMap K V) : HashMap K W where
  entries := m.entries.filterMap fun e => (f e.1 e.2).map (Sigma.mk e.1)
  nodupKeys := by
    have hkeys : m.entries.keys.Nodup := m.nodupKeys
    refine List.Nodup.sublist ?_ hkeys
    generalize m.entries = l
    induction l with
    | nil => simp [List.keys]
    | cons e l ih =>
        simp only [List.keys] at ih ⊢
        cases hf : f e.1 e.2 with
        | none => simpa [hf] using ih.cons _
        | some w => simpa [hf] using ih.cons_cons e.1

/-- The sum of `w` over all entries. -/
def weight (w : K → V → ℕ) (m : HashMap K V) : ℕ := (m.entries.map fun e => w e.1 e.2).sum

variable [DecidableEq K]

/-- The value stored under a key. -/
def get? (m : HashMap K V) (k : K) : Option V := m.lookup k

/-- Store a value under a key, replacing what was there. -/
def insert (m : HashMap K V) (k : K) (v : V) : HashMap K V := AList.insert k v m

/-- Remove a key. -/
def erase (m : HashMap K V) (k : K) : HashMap K V := AList.erase k m

/-- Whether a key is present. -/
def contains (m : HashMap K V) (k : K) : Bool := (m.get? k).isSome

/-! ### Lookups -/

@[simp] theorem get?_empty (k : K) : get? (∅ : HashMap K V) k = none := rfl

theorem get?_insert (m : HashMap K V) (k k' : K) (v : V) :
    (m.insert k v).get? k' = if k' = k then some v else m.get? k' := by
  by_cases h : k' = k
  · subst h
    simp [get?, insert]
  · simp [get?, insert, h]

@[simp] theorem get?_insert_self (m : HashMap K V) (k : K) (v : V) :
    (m.insert k v).get? k = some v := by
  simp [get?_insert]

theorem get?_insert_of_ne {m : HashMap K V} {k k' : K} {v : V} (h : k' ≠ k) :
    (m.insert k v).get? k' = m.get? k' := by
  simp [get?_insert, h]

theorem get?_of_get?_insert {m : HashMap K V} {k k' : K} {v v' : V}
    (h : (m.insert k v).get? k' = some v') : (k' = k ∧ v' = v) ∨ (k' ≠ k ∧ m.get? k' = some v') := by
  rw [get?_insert] at h
  by_cases hk : k' = k
  · rw [if_pos hk] at h
    exact .inl ⟨hk, (Option.some.inj h).symm⟩
  · rw [if_neg hk] at h
    exact .inr ⟨hk, h⟩

theorem contains_insert_of_contains {m : HashMap K V} {k k' : K} {v : V}
    (h : m.contains k = true) : (m.insert k' v).contains k = true := by
  simp only [contains, get?_insert] at h ⊢
  split
  · rfl
  · exact h

theorem get?_erase (m : HashMap K V) (k k' : K) :
    (m.erase k).get? k' = if k' = k then none else m.get? k' := by
  by_cases h : k' = k
  · subst h
    simp [get?, erase]
  · simp [get?, erase, h]

@[simp] theorem get?_erase_self (m : HashMap K V) (k : K) : (m.erase k).get? k = none := by
  simp [get?_erase]

theorem get?_erase_of_ne {m : HashMap K V} {k k' : K} (h : k' ≠ k) :
    (m.erase k).get? k' = m.get? k' := by
  simp [get?_erase, h]

/-- An entry of an erased map was an entry of the map. -/
theorem get?_of_get?_erase {m : HashMap K V} {k k' : K} {v : V}
    (h : (m.erase k).get? k' = some v) : k' ≠ k ∧ m.get? k' = some v := by
  rw [get?_erase] at h
  by_cases hk : k' = k
  · simp [hk] at h
  · exact ⟨hk, by simpa [hk] using h⟩

/-- Erasing one key after the other. -/
theorem get?_foldl_erase (ks : List K) (m : HashMap K V) (k : K) :
    (ks.foldl (fun m k => m.erase k) m).get? k = if k ∈ ks then none else m.get? k := by
  induction ks generalizing m with
  | nil => simp
  | cons k' ks ih =>
      rw [List.foldl_cons, ih, get?_erase]
      by_cases hk : k = k'
      · simp [hk]
      · simp [hk]

theorem mem_toList_iff {m : HashMap K V} {k : K} {v : V} :
    (k, v) ∈ m.toList ↔ m.get? k = some v := by
  rw [get?, ← Option.mem_def, AList.mem_lookup_iff, toList, List.mem_map]
  constructor
  · rintro ⟨⟨k', v'⟩, he, heq⟩
    cases heq
    exact he
  · intro h
    exact ⟨⟨k, v⟩, h, rfl⟩

/-- A map without entries has nothing under any key. -/
theorem get?_eq_none_of_toList {m : HashMap K V} (h : m.toList = []) (k : K) : m.get? k = none := by
  cases hget : m.get? k with
  | none => rfl
  | some v =>
      rw [← mem_toList_iff, h] at hget
      cases hget

omit [DecidableEq K] in
theorem nodup_toList_keys (m : HashMap K V) : (m.toList.map Prod.fst).Nodup := by
  have h : m.toList.map Prod.fst = m.keys := by
    simp [toList, AList.keys, List.keys, Function.comp_def]
  rw [h]
  exact m.keys_nodup

/-- Looking up a retained map looks up the map and asks the function. -/
theorem get?_retain (f : K → V → Option W) (m : HashMap K V) (k : K) :
    (m.retain f).get? k = (m.get? k).bind (f k) := by
  obtain ⟨l, hl⟩ := m
  simp only [get?, AList.lookup, retain]
  induction l with
  | nil => rfl
  | cons e l ih =>
      obtain ⟨k', v⟩ := e
      have ih := ih (List.nodupKeys_cons.1 hl).2
      by_cases hk : k = k'
      · subst hk
        cases hf : f k v with
        | some w => simp [hf]
        | none =>
            have hnot : List.dlookup k l = none :=
              List.dlookup_eq_none.2 (List.nodupKeys_cons.1 hl).1
            simp [hf, ih, hnot]
      · cases hf : f k' v with
        | some w => simp [hf, ih, hk]
        | none => simp [hf, ih, hk]

/-! ### Weights -/

omit [DecidableEq K] in
@[simp] theorem weight_empty (w : K → V → ℕ) : weight w (∅ : HashMap K V) = 0 := rfl

omit [DecidableEq K] in
/-- The weight of a retained map, read off the map itself. -/
theorem weight_retain (f : K → V → Option W) (w : K → W → ℕ) (m : HashMap K V) :
    weight w (m.retain f) = weight (fun k v => ((f k v).map (w k)).getD 0) m := by
  simp only [weight, retain]
  induction m.entries with
  | nil => rfl
  | cons e l ih =>
      cases hf : f e.1 e.2 with
      | none => simp [hf, ih]
      | some v => simp [hf, ih]

omit [DecidableEq K] in
theorem weight_congr {w w' : K → V → ℕ} {m : HashMap K V}
    (h : ∀ e ∈ m.toList, w e.1 e.2 = w' e.1 e.2) : weight w m = weight w' m := by
  simp only [weight]
  refine congrArg List.sum (List.map_congr_left ?_)
  intro e he
  exact h (e.1, e.2) (List.mem_map.2 ⟨e, he, rfl⟩)

omit [DecidableEq K] in
theorem weight_mono {w w' : K → V → ℕ} (h : ∀ k v, w k v ≤ w' k v) (m : HashMap K V) :
    weight w m ≤ weight w' m :=
  List.sum_le_sum fun e _ => h e.1 e.2

theorem entries_erase (m : HashMap K V) (k : K) : (m.erase k).entries = m.entries.kerase k := rfl

/-- Erasing a key takes its entry's weight off the total. -/
theorem weight_erase (w : K → V → ℕ) (m : HashMap K V) (k : K) :
    weight w (m.erase k) + ((m.get? k).map (w k)).getD 0 = weight w m := by
  obtain ⟨l, hl⟩ := m
  simp only [weight, entries_erase, get?, AList.lookup]
  induction l with
  | nil => rfl
  | cons e l ih =>
      obtain ⟨k', v⟩ := e
      have ih := ih (List.nodupKeys_cons.1 hl).2
      by_cases hk : k = k'
      · subst hk
        simp [List.kerase_cons_eq, Nat.add_comm]
      · rw [List.kerase_cons_ne hk, List.dlookup_cons_ne _ _ (by simpa using hk)]
        simp only [List.map_cons, List.sum_cons] at ih ⊢
        omega

/-- Storing a value exchanges the old entry's weight for the new one's. -/
theorem weight_insert (w : K → V → ℕ) (m : HashMap K V) (k : K) (v : V) :
    weight w (m.insert k v) + ((m.get? k).map (w k)).getD 0 = weight w m + w k v := by
  have h := weight_erase w m k
  have hins : weight w (m.insert k v) = w k v + weight w (m.erase k) := by
    simp [weight, entries_erase, insert, AList.insert, List.kinsert]
  omega

/-- A map all of whose entries weigh nothing weighs nothing, and conversely. -/
theorem weight_eq_zero_iff {w : K → V → ℕ} {m : HashMap K V} :
    weight w m = 0 ↔ ∀ k v, m.get? k = some v → w k v = 0 := by
  rw [weight, List.sum_eq_zero_iff]
  constructor
  · intro h k v hk
    exact h (w k v) (List.mem_map.2 ⟨⟨k, v⟩, AList.mem_lookup_iff.1 hk, rfl⟩)
  · intro h n hn
    obtain ⟨⟨k, v⟩, he, rfl⟩ := List.mem_map.1 hn
    exact h k v (AList.mem_lookup_iff.2 he)

omit [DecidableEq K] in
theorem weight_add (w w' : K → V → ℕ) (m : HashMap K V) :
    weight (fun k v => w k v + w' k v) m = weight w m + weight w' m := by
  simp only [weight]
  exact List.sum_map_add

/-- A weight depends on the entries, not on their order. -/
theorem weight_ext {m m' : HashMap K V} (h : ∀ k, m.get? k = m'.get? k) (w : K → V → ℕ) :
    weight w m = weight w m' := by
  have hperm : m.entries.Perm m'.entries := by
    refine List.lookup_ext m.nodupKeys m'.nodupKeys ?_
    intro k v
    have hk : List.dlookup k m.entries = List.dlookup k m'.entries := h k
    rw [hk]
  exact (hperm.map _).sum_eq

/-- The number of keys in a list of keys that are all there. -/
theorem weight_mem {m : HashMap K V} {ks : List K} (hks : ks.Nodup) (h : ∀ k ∈ ks, m.contains k = true) :
    weight (fun k _ => if k ∈ ks then 1 else 0) m = ks.length := by
  have hcount : weight (fun k _ => if k ∈ ks then 1 else 0) m = (m.keys.filter (· ∈ ks)).length := by
    simp only [weight, AList.keys, List.keys]
    induction m.entries with
    | nil => rfl
    | cons e es ih =>
        rw [List.map_cons, List.sum_cons, ih, List.map_cons, List.filter_cons]
        by_cases he : e.1 ∈ ks
        · simp [he, Nat.add_comm]
        · simp [he]
  have hperm : (m.keys.filter (· ∈ ks)).Perm ks := by
    refine (List.perm_ext_iff_of_nodup (m.keys_nodup.filter _) hks).2 ?_
    intro k
    rw [List.mem_filter]
    constructor
    · rintro ⟨-, hk⟩
      simpa using hk
    · intro hk
      refine ⟨?_, by simpa using hk⟩
      have hsome := h k hk
      rwa [contains, get?, AList.lookup_isSome] at hsome
  rw [hcount, hperm.length_eq]

end HashMap

end Tortillas
