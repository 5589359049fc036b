/-
**Records and dictionaries with sorted keys.**

A record is written as a dictionary with one entry for each field that is present, in the order of
the keys.  A dictionary with sorted keys is determined by what is found under each key, and so it is
the text of a record exactly if it has no other keys and agrees with the record under each of the
record's own.

Main definitions:

* `SortedKeys` — the keys of a list of entries are in order, and different;
* `present` — the entries of the fields that are present.

Main results:

* `SortedKeys.mem_iff_lookup` — entries are what is found under their keys;
* `present_eq_iff` — **when a dictionary is what a record is written as**.
-/

import Mathlib.Data.List.Sort

set_option relaxedAutoImplicit false
set_option autoImplicit false

namespace Tortillas

variable {κ β : Type} [LT κ]

/-- The keys are in order, and different. -/
def SortedKeys (entries : List (κ × β)) : Prop := entries.Pairwise fun a b => a.1 < b.1

/-- The entries of the fields that are present. -/
def present (fields : List (κ × Option β)) : List (κ × β) :=
  fields.filterMap fun field => field.2.map fun v => (field.1, v)

omit [LT κ] in
@[simp] theorem mem_present {fields : List (κ × Option β)} {k : κ} {v : β} :
    (k, v) ∈ present fields ↔ (k, some v) ∈ fields := by
  constructor
  · intro h
    obtain ⟨⟨k', o⟩, hmem, hmap⟩ := List.mem_filterMap.1 h
    obtain ⟨v', rfl, heq⟩ := Option.map_eq_some_iff.1 hmap
    cases heq
    exact hmem
  · intro h
    exact List.mem_filterMap.2 ⟨(k, some v), h, rfl⟩

namespace SortedKeys

variable {entries : List (κ × β)}

/-- What is present of sorted fields is sorted. -/
theorem present {fields : List (κ × Option β)} (h : SortedKeys fields) :
    SortedKeys (present fields) := by
  refine List.Pairwise.filterMap _ ?_ h
  rintro ⟨k, o⟩ ⟨k', o'⟩ hlt e he e' he'
  obtain ⟨v, -, rfl⟩ := Option.map_eq_some_iff.1 he
  obtain ⟨v', -, rfl⟩ := Option.map_eq_some_iff.1 he'
  exact hlt

variable [Std.Irrefl fun a b : κ => a < b]

theorem nodup (h : SortedKeys entries) : (entries.map Prod.fst).Nodup := by
  refine List.pairwise_map.2 (h.imp ?_)
  intro a b hlt heq
  rw [heq] at hlt
  exact Std.Irrefl.irrefl b.1 hlt

/-- There is one value under a key. -/
theorem eq_of_mem (h : SortedKeys entries) {k : κ} {v w : β} (hv : (k, v) ∈ entries)
    (hw : (k, w) ∈ entries) : v = w := by
  have heq := List.inj_on_of_nodup_map h.nodup hv hw rfl
  exact (Prod.mk.inj heq).2

variable [BEq κ] [LawfulBEq κ]

/-- **Entries are what is found under their keys.** -/
theorem mem_iff_lookup (h : SortedKeys entries) {k : κ} {v : β} :
    (k, v) ∈ entries ↔ entries.lookup k = some v := by
  constructor
  · intro hmem
    cases hfound : entries.lookup k with
    | none =>
        have hne := List.lookup_eq_none_iff.1 hfound (k, v) hmem
        simp at hne
    | some w =>
        obtain ⟨l₁, l₂, rfl, -⟩ := List.lookup_eq_some_iff.1 hfound
        rw [h.eq_of_mem hmem (List.mem_append_right _ (List.mem_cons_self ..))]
  · intro hfound
    obtain ⟨l₁, l₂, rfl, -⟩ := List.lookup_eq_some_iff.1 hfound
    exact List.mem_append_right _ (List.mem_cons_self ..)

end SortedKeys

/-- **When a dictionary is what a record is written as**: it has no other keys, and under each key
of the record it has what the record has. -/
theorem present_eq_iff [BEq κ] [LawfulBEq κ] [Std.Irrefl fun a b : κ => a < b]
    [Std.Asymm fun a b : κ => a < b] {fields : List (κ × Option β)} {entries : List (κ × β)}
    (hfields : SortedKeys fields) (hentries : SortedKeys entries) :
    present fields = entries ↔
      (∀ entry ∈ entries, entry.1 ∈ fields.map Prod.fst) ∧
        ∀ field ∈ fields, entries.lookup field.1 = field.2 := by
  constructor
  · rintro rfl
    constructor
    · rintro ⟨k, v⟩ hmem
      exact List.mem_map.2 ⟨(k, some v), mem_present.1 hmem, rfl⟩
    · rintro ⟨k, o⟩ hmem
      cases o with
      | some v => exact hentries.mem_iff_lookup.1 (mem_present.2 hmem)
      | none =>
          cases hfound : (present fields).lookup k with
          | none => rfl
          | some w =>
              have hmem' := mem_present.1 (hentries.mem_iff_lookup.2 hfound)
              exact (hfields.eq_of_mem hmem' hmem).symm ▸ rfl
  · rintro ⟨hkeys, hvalues⟩
    have hirrefl : Std.Irrefl fun a b : κ × β => a.1 < b.1 :=
      ⟨fun a => Std.Irrefl.irrefl a.1⟩
    have hantisymm : Std.Antisymm fun a b : κ × β => a.1 < b.1 :=
      ⟨fun a b hab hba => absurd hba (Std.Asymm.asymm _ _ hab)⟩
    refine List.Pairwise.eq_of_mem_iff hfields.present hentries ?_
    rintro ⟨k, v⟩
    rw [mem_present, hentries.mem_iff_lookup]
    constructor
    · intro hmem
      exact hvalues _ hmem
    · intro hfound
      obtain ⟨⟨k', o⟩, hmem, heq⟩ := List.mem_map.1 (hkeys _ (hentries.mem_iff_lookup.2 hfound))
      cases heq
      have hvalue := hvalues _ hmem
      rw [hfound] at hvalue
      rw [hvalue]
      exact hmem

end Tortillas
