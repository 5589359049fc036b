/-
**Sparse tables of slots.**

A slot table keeps optional values under two indices: a map of rows, each a list of optional
values.  A row exists only while it holds a value, and may be shorter than the full row.  The
operations are the ones a table of outstanding requests needs: look a slot up, clear it, fill it,
and drop all values that fail a test.

Main definitions:

* `SlotTable` — the table, with `at?`, `clear`, `put` and `keepOnly`;
* `SlotTable.count`, `SlotTable.values` — how many values pass a test, and which;
* `SlotTable.NoEmptyRow` — every row holds a value.

Main results:

* `SlotTable.at?_clear`, `SlotTable.at?_put`, `SlotTable.at?_keepOnly` — what a lookup finds
  after each operation;
* `SlotTable.count_clear`, `SlotTable.count_put`, `SlotTable.count_keepOnly` — how the counts
  change;
* `SlotTable.length_le_count` — distinct slots whose values pass a test are counted;
* `SlotTable.NoEmptyRow.clear`, `SlotTable.NoEmptyRow.put`, `SlotTable.noEmptyRow_keepOnly` — the
  operations leave no empty row behind.
-/

import Tortillas.HashMap

set_option relaxedAutoImplicit false
set_option autoImplicit false

namespace Tortillas

/-- A table of optional values: a row for every first index that has one. -/
abbrev SlotTable (α : Type) := HashMap ℕ (List (Option α))

namespace SlotTable

variable {α : Type}

/-- The value in a slot. -/
def at? (m : SlotTable α) (i j : ℕ) : Option α := ((m.get? i).bind (·[j]?)).join

/-- A row is kept only while it holds a value. -/
def keepRow (row : List (Option α)) : Option (List (Option α)) :=
  if row.any Option.isSome then some row else none

/-- Clear a slot, and take out its row when that was the last value. -/
def clear (m : SlotTable α) (i j : ℕ) : SlotTable α :=
  match m.get? i with
  | none => m
  | some row =>
      match keepRow (row.set j none) with
      | some rest => m.insert i rest
      | none => m.erase i

/-- Fill a slot, in a row that is extended to reach it. -/
def put (m : SlotTable α) (i j : ℕ) (a : α) : SlotTable α :=
  let row := (m.get? i).getD []
  let row := row ++ List.replicate (j + 1 - row.length) none
  m.insert i (row.set j (some a))

/-- Drop the values that fail a test, and the rows that are left without one. -/
def keepOnly (keep : α → Bool) (m : SlotTable α) : SlotTable α :=
  m.retain fun _ row => keepRow (row.map (Option.filter keep))

/-- The number of values that pass a test. -/
def count (test : α → Bool) (m : SlotTable α) : ℕ :=
  m.weight fun _ row => row.countP (Option.any test)

/-- The values that pass a test, in the order of the rows. -/
def values (keep : α → Bool) (m : SlotTable α) : List α :=
  m.toList.flatMap fun row => row.2.filterMap (Option.filter keep)

/-- Every row holds a value. -/
def NoEmptyRow (m : SlotTable α) : Prop :=
  ∀ i row, m.get? i = some row → row.any Option.isSome = true

/-! ### Lookups -/

@[simp] theorem at?_empty (i j : ℕ) : at? (∅ : SlotTable α) i j = none := rfl

theorem at?_eq_some {m : SlotTable α} {i j : ℕ} {a : α} :
    m.at? i j = some a ↔ ∃ row, m.get? i = some row ∧ row[j]? = some (some a) := by
  rw [at?, Option.join_eq_some_iff, Option.bind_eq_some_iff]

/-- A slot of a row that was exchanged for another. -/
theorem at?_insert (m : SlotTable α) (i : ℕ) (row : List (Option α)) (i' j' : ℕ) :
    at? (m.insert i row) i' j' = if i' = i then row[j']?.join else m.at? i' j' := by
  rw [at?, HashMap.get?_insert]
  by_cases hi : i' = i
  · simp [hi]
  · simp [hi, at?]

theorem at?_erase (m : SlotTable α) (i i' j' : ℕ) :
    at? (m.erase i) i' j' = if i' = i then none else m.at? i' j' := by
  rw [at?, HashMap.get?_erase]
  by_cases hi : i' = i
  · simp [hi]
  · simp [hi, at?]

theorem getElem?_join_of_keepRow_eq_none {row : List (Option α)} (h : keepRow row = none) (j : ℕ) :
    row[j]?.join = none := by
  have hnone : ∀ x ∈ row, x = none := by
    simpa [keepRow] using h
  cases hj : row[j]? with
  | none => rfl
  | some x => exact hnone x (List.mem_of_getElem? hj)

theorem eq_of_keepRow_eq_some {row rest : List (Option α)} (h : keepRow row = some rest) :
    rest = row ∧ row.any Option.isSome = true := by
  unfold keepRow at h
  split at h
  · rename_i hany
    exact ⟨(Option.some.inj h).symm, hany⟩
  · exact absurd h (by simp)

theorem getElem?_set_none_join (row : List (Option α)) (j j' : ℕ) :
    (row.set j none)[j']?.join = if j' = j then none else row[j']?.join := by
  rw [List.getElem?_set]
  by_cases hj : j = j'
  · subst hj
    by_cases hlen : j < row.length
    · simp [hlen]
    · simp [hlen]
  · have hj' : ¬ j' = j := fun h => hj h.symm
    simp [hj, hj']

/-- What clearing a slot does to the map of rows. -/
theorem clear_cases (m : SlotTable α) (i j : ℕ) :
    (m.get? i = none ∧ m.clear i j = m) ∨
    ∃ row, m.get? i = some row ∧
      ((keepRow (row.set j none) = none ∧ m.clear i j = m.erase i) ∨
        ((row.set j none).any Option.isSome = true ∧
          m.clear i j = m.insert i (row.set j none))) := by
  unfold clear
  cases hrow : m.get? i with
  | none => exact Or.inl ⟨rfl, rfl⟩
  | some row =>
      refine Or.inr ⟨row, rfl, ?_⟩
      cases hkeep : keepRow (row.set j none) with
      | none => exact Or.inl ⟨rfl, by simp [hkeep]⟩
      | some rest =>
          obtain ⟨rfl, hany⟩ := eq_of_keepRow_eq_some hkeep
          exact Or.inr ⟨hany, by simp [hkeep]⟩

/-- Clearing a slot empties it and touches no other. -/
theorem at?_clear (m : SlotTable α) (i j i' j' : ℕ) :
    (m.clear i j).at? i' j' = if i' = i ∧ j' = j then none else m.at? i' j' := by
  rcases clear_cases m i j with ⟨hrow, hclear⟩ | ⟨row, hrow, ⟨hkeep, hclear⟩ | ⟨-, hclear⟩⟩
  · rw [hclear]
    by_cases hi : i' = i
    · subst hi
      simp [at?, hrow]
    · simp [hi]
  · have hempty := getElem?_join_of_keepRow_eq_none hkeep j'
    rw [getElem?_set_none_join] at hempty
    rw [hclear, at?_erase]
    by_cases hi : i' = i
    · subst hi
      by_cases hj : j' = j
      · simp [hj]
      · rw [if_neg hj] at hempty
        simp [hj, at?, hrow, hempty]
    · simp [hi]
  · rw [hclear, at?_insert, getElem?_set_none_join]
    by_cases hi : i' = i
    · subst hi
      simp [at?, hrow]
    · simp [hi]

theorem getElem?_pad_join (row : List (Option α)) (n j : ℕ) :
    (row ++ List.replicate n none)[j]?.join = row[j]?.join := by
  rw [List.getElem?_append]
  by_cases hj : j < row.length
  · simp [hj]
  · have hrow : row[j]? = none := List.getElem?_eq_none (by omega)
    rw [if_neg hj, hrow, List.getElem?_replicate]
    split <;> rfl

/-- Filling a slot fills it and touches no other. -/
theorem at?_put (m : SlotTable α) (i j : ℕ) (a : α) (i' j' : ℕ) :
    (m.put i j a).at? i' j' = if i' = i ∧ j' = j then some a else m.at? i' j' := by
  unfold put
  simp only [at?_insert]
  by_cases hi : i' = i
  · subst hi
    rw [if_pos rfl, List.getElem?_set]
    by_cases hj : j' = j
    · subst hj
      have hlen : j' < ((m.get? i').getD []).length
          + (j' + 1 - ((m.get? i').getD []).length) := by
        omega
      simp [hlen]
    · rw [if_neg (fun h => hj h.symm), getElem?_pad_join]
      simp only [hj, and_false, if_false]
      cases hrow : m.get? i' with
      | none => simp [at?, hrow]
      | some row => simp [at?, hrow]
  · simp [hi]

/-- After dropping, a slot holds its value if that passed the test. -/
theorem at?_keepOnly (keep : α → Bool) (m : SlotTable α) (i j : ℕ) :
    (m.keepOnly keep).at? i j = (m.at? i j).filter keep := by
  unfold keepOnly
  rw [at?, HashMap.get?_retain, at?]
  cases hrow : m.get? i with
  | none => rfl
  | some row =>
      have hmap : (row.map (Option.filter keep))[j]?.join = row[j]?.join.filter keep := by
        rw [List.getElem?_map]
        cases row[j]? with
        | none => rfl
        | some x => rfl
      cases hkeep : keepRow (row.map (Option.filter keep)) with
      | none =>
          have hempty := getElem?_join_of_keepRow_eq_none hkeep j
          rw [hmap] at hempty
          simp [hkeep, hempty]
      | some rest =>
          obtain ⟨rfl, -⟩ := eq_of_keepRow_eq_some hkeep
          simpa [hkeep] using hmap

/-! ### No empty rows -/

theorem noEmptyRow_empty : NoEmptyRow (∅ : SlotTable α) := by
  intro i row h
  simp at h

theorem NoEmptyRow.insert {m : SlotTable α} (h : NoEmptyRow m) (i : ℕ) {row : List (Option α)}
    (hrow : row.any Option.isSome = true) : NoEmptyRow (m.insert i row) := by
  intro i' row' hget
  rw [HashMap.get?_insert] at hget
  by_cases hi : i' = i
  · simp only [hi, if_true, Option.some.injEq] at hget
    exact hget ▸ hrow
  · exact h i' row' (by simpa [hi] using hget)

theorem NoEmptyRow.clear {m : SlotTable α} (h : NoEmptyRow m) (i j : ℕ) :
    NoEmptyRow (m.clear i j) := by
  rcases clear_cases m i j with ⟨-, hclear⟩ | ⟨row, -, ⟨-, hclear⟩ | ⟨hany, hclear⟩⟩
  · rw [hclear]
    exact h
  · rw [hclear]
    intro i' row' hget
    exact h i' row' (HashMap.get?_of_get?_erase hget).2
  · rw [hclear]
    exact h.insert i hany

theorem NoEmptyRow.put {m : SlotTable α} (h : NoEmptyRow m) (i j : ℕ) (a : α) :
    NoEmptyRow (m.put i j a) := by
  refine h.insert i (List.any_eq_true.2 ⟨some a, ?_, rfl⟩)
  refine List.mem_iff_getElem?.2 ⟨j, ?_⟩
  rw [List.getElem?_set_self]
  rw [List.length_append, List.length_replicate]
  omega

theorem noEmptyRow_keepOnly (keep : α → Bool) (m : SlotTable α) :
    NoEmptyRow (m.keepOnly keep) := by
  intro i row hget
  rw [keepOnly, HashMap.get?_retain, Option.bind_eq_some_iff] at hget
  obtain ⟨row', -, hkeep⟩ := hget
  obtain ⟨rfl, hany⟩ := eq_of_keepRow_eq_some hkeep
  exact hany

/-! ### Counting -/

theorem countP_of_keepRow_eq_none {row : List (Option α)} (test : α → Bool)
    (h : keepRow row = none) : row.countP (Option.any test) = 0 := by
  have hnone : ∀ x ∈ row, x = none := by
    simpa [keepRow] using h
  rw [List.countP_eq_zero]
  intro x hx
  simp [hnone x hx]

/-- Clearing a slot takes its value out of the count. -/
theorem count_clear {m : SlotTable α} {i j : ℕ} {a : α} (test : α → Bool)
    (h : m.at? i j = some a) :
    count test (m.clear i j) + (if test a then 1 else 0) = count test m := by
  obtain ⟨row, hrow, hj⟩ := at?_eq_some.1 h
  obtain ⟨hlen, hget⟩ := List.getElem?_eq_some_iff.1 hj
  have hset : (row.set j none).countP (Option.any test) + (if test a then 1 else 0)
      = row.countP (Option.any test) := by
    rw [List.countP_set hlen, hget]
    have hpos : test a = true → 0 < row.countP (Option.any test) := by
      intro ha
      exact List.countP_pos_iff.2 ⟨some a, List.mem_of_getElem? hj, by simpa using ha⟩
    by_cases ha : test a = true
    · have := hpos ha
      simp [ha]
      omega
    · simp [ha]
  unfold count
  rcases clear_cases m i j with ⟨hnone, -⟩ | ⟨row', hrow', ⟨hkeep, hclear⟩ | ⟨-, hclear⟩⟩
  · rw [hrow] at hnone
    cases hnone
  · cases hrow.symm.trans hrow'
    have hzero := countP_of_keepRow_eq_none test hkeep
    have herase := HashMap.weight_erase (fun _ row => row.countP (Option.any test)) m i
    simp only [hrow, Option.map_some, Option.getD_some] at herase
    rw [hclear]
    omega
  · cases hrow.symm.trans hrow'
    have hins := HashMap.weight_insert (fun _ row => row.countP (Option.any test)) m i
      (row.set j none)
    simp only [hrow, Option.map_some, Option.getD_some] at hins
    rw [hclear]
    omega

/-- Filling an empty slot adds its value to the count. -/
theorem count_put {m : SlotTable α} {i j : ℕ} (test : α → Bool) (h : m.at? i j = none) (a : α) :
    count test (m.put i j a) = count test m + (if test a then 1 else 0) := by
  let row := (m.get? i).getD []
  let pad := row ++ List.replicate (j + 1 - row.length) none
  have hlen : j < pad.length := by
    rw [List.length_append, List.length_replicate]
    omega
  have hnone : pad[j] = none := by
    have hjoin : pad[j]?.join = m.at? i j := by
      rw [getElem?_pad_join]
      cases hrow : m.get? i with
      | none => simp [row, at?, hrow]
      | some r => simp [row, at?, hrow]
    rw [h, List.getElem?_eq_getElem hlen] at hjoin
    exact hjoin
  have hset : (pad.set j (some a)).countP (Option.any test)
      = row.countP (Option.any test) + (if test a then 1 else 0) := by
    have hpad : pad.countP (Option.any test) = row.countP (Option.any test) := by
      rw [List.countP_append, List.countP_replicate]
      simp
    rw [List.countP_set hlen, hnone, hpad]
    simp
  have hins := HashMap.weight_insert (fun _ row => row.countP (Option.any test)) m i
    (pad.set j (some a))
  have hold : ((m.get? i).map fun row => row.countP (Option.any test)).getD 0
      = row.countP (Option.any test) := by
    cases hrow : m.get? i with
    | none => simp [row, hrow]
    | some r => simp [row, hrow]
  have hgoal : count test (m.put i j a) = HashMap.weight (fun _ row => row.countP (Option.any test))
      (m.insert i (pad.set j (some a))) := rfl
  rw [hgoal]
  unfold count
  omega

/-- Dropping counts the values that pass both tests. -/
theorem count_keepOnly (test keep : α → Bool) (m : SlotTable α) :
    count test (m.keepOnly keep) = count (fun a => keep a && test a) m := by
  unfold count keepOnly
  rw [HashMap.weight_retain]
  refine HashMap.weight_congr ?_
  rintro ⟨i, row⟩ -
  have hmap : (row.map (Option.filter keep)).countP (Option.any test)
      = row.countP (Option.any fun a => keep a && test a) := by
    rw [List.countP_map]
    refine List.countP_congr ?_
    intro x _
    cases x with
    | none => rfl
    | some a =>
        by_cases ha : keep a = true
        · simp [Option.filter, ha]
        · simp [Option.filter, ha]
  cases hkeep : keepRow (row.map (Option.filter keep)) with
  | none =>
      have hzero := countP_of_keepRow_eq_none test hkeep
      simp only [Option.map_none, Option.getD_none]
      omega
  | some rest =>
      obtain ⟨rfl, -⟩ := eq_of_keepRow_eq_some hkeep
      simpa using hmap

/-- A count is zero when no slot holds a value that passes. -/
theorem count_eq_zero_iff {test : α → Bool} {m : SlotTable α} :
    count test m = 0 ↔ ∀ i j a, m.at? i j = some a → test a = false := by
  unfold count
  rw [HashMap.weight_eq_zero_iff]
  constructor
  · intro h i j a hat
    obtain ⟨row, hrow, hj⟩ := at?_eq_some.1 hat
    have hzero := List.countP_eq_zero.1 (h i row hrow) (some a) (List.mem_of_getElem? hj)
    simpa using hzero
  · intro h i row hrow
    rw [List.countP_eq_zero]
    intro x hx
    cases x with
    | none => simp
    | some a =>
        obtain ⟨j, hj⟩ := List.mem_iff_getElem?.1 hx
        have hfalse := h i j a (at?_eq_some.2 ⟨row, hrow, hj⟩)
        simp [hfalse]

theorem exists_at?_of_mem_values {keep : α → Bool} {m : SlotTable α} {a : α}
    (h : a ∈ m.values keep) : ∃ i j, m.at? i j = some a := by
  obtain ⟨⟨i, row⟩, hrow, ha⟩ := List.mem_flatMap.1 h
  obtain ⟨x, hx, hkeep⟩ := List.mem_filterMap.1 ha
  obtain ⟨j, hj⟩ := List.mem_iff_getElem?.1 hx
  obtain ⟨rfl, -⟩ := Option.filter_eq_some_iff.1 hkeep
  exact ⟨i, j, at?_eq_some.2 ⟨row, HashMap.mem_toList_iff.1 hrow, hj⟩⟩

/-- The number of values listed is the number counted. -/
theorem countP_values (test keep : α → Bool) (m : SlotTable α) :
    (m.values keep).countP test = count (fun a => keep a && test a) m := by
  unfold values count HashMap.weight HashMap.toList
  induction m.entries with
  | nil => rfl
  | cons e l ih =>
      have hrow : (e.2.filterMap (Option.filter keep)).countP test
          = e.2.countP (Option.any fun a => keep a && test a) := by
        rw [List.countP_filterMap]
        refine List.countP_congr ?_
        intro x _
        cases x with
        | none => simp
        | some a =>
            by_cases ha : keep a = true
            · simp [Option.filter, ha]
            · simp [Option.filter, ha]
      simp only [List.map_cons, List.flatMap_cons, List.countP_append, List.sum_cons, hrow, ih]

/-- A stricter test counts fewer values. -/
theorem count_mono {test test' : α → Bool} (h : ∀ a, test a = true → test' a = true) (m : SlotTable α) :
    count test m ≤ count test' m := by
  refine HashMap.weight_mono (fun _ row => List.countP_mono_left fun x _ hx => ?_) m
  cases x with
  | none => cases hx
  | some a => exact h a hx

theorem count_keepOnly_le (test keep : α → Bool) (m : SlotTable α) : count test (m.keepOnly keep) ≤ count test m := by
  rw [count_keepOnly]
  exact count_mono (fun a ha => (Bool.and_eq_true_iff.1 ha).2) m

/-- **Distinct slots whose values pass a test are at most as many as are counted.** -/
theorem length_le_count {test : α → Bool} {slots : List (ℕ × ℕ)} {m : SlotTable α} (hnodup : slots.Nodup)
    (h : ∀ slot ∈ slots, ∃ a, m.at? slot.1 slot.2 = some a ∧ test a = true) : slots.length ≤ count test m := by
  induction slots generalizing m with
  | nil => exact Nat.zero_le _
  | cons slot slots ih =>
      obtain ⟨hnot, hnodup⟩ := List.nodup_cons.1 hnodup
      obtain ⟨a, hat, ha⟩ := h slot (List.mem_cons_self ..)
      have hcount := count_clear test hat
      -- the other slots keep their values when this one is cleared
      have hrest : slots.length ≤ count test (m.clear slot.1 slot.2) := by
        refine ih hnodup fun other hother => ?_
        obtain ⟨b, hbat, hb⟩ := h other (List.mem_cons_of_mem _ hother)
        refine ⟨b, ?_, hb⟩
        rw [at?_clear, if_neg]
        · exact hbat
        · rintro ⟨hi, hj⟩
          exact hnot (Prod.ext hi hj ▸ hother)
      rw [ha, if_pos rfl] at hcount
      rw [List.length_cons]
      omega

end SlotTable

end Tortillas
