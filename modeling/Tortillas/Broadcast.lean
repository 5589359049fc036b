/-
**Broadcast channels.**

A broadcast channel keeps the last values that were sent in a ring of slots.  A receiver has a
position, starts at the end, and reads the values that are sent after it was made, in the order in
which they were sent.  A receiver that falls behind by more than the ring holds is told how many
values it has missed and goes on with the oldest one there is.  When the senders are gone, a receiver
reads what is left and then learns that the channel is closed.

The channel is written as the list of all the values ever sent.  A value sent while there is no
receiver is in the list too: no receiver reads it, since later receivers start behind it.

Main definitions:

* `Broadcast` — the values sent, the number of slots, and whether the senders are gone;
* `Broadcast.recv` — what a receiver reads at its position;
* `Broadcast.Tracks` — what a receiver has read so far is what the channel had for it.

Main results:

* `Broadcast.Tracks.recv`, `.send`, `.close` — **a receiver keeps track** of the channel;
* `Broadcast.receive_closed` — a receiver that is not behind reads all that is left, and then that
  the channel is closed.
-/

import Mathlib.Algebra.GroupWithZero.Nat
import Mathlib.Tactic.Common
import Mathlib.Data.Nat.Notation

set_option relaxedAutoImplicit false
set_option autoImplicit false

namespace Tortillas

/-- A broadcast channel. -/
structure Broadcast (α : Type) where
  slots : ℕ
  sent : List α
  closed : Bool

/-- What a receiver reads. -/
inductive Reading (α : Type)
  | value (a : α)
  | lagged (missed : ℕ)
  | closed

variable {α : Type}

/-- The value that was read, if it was one. -/
def Reading.value? : Reading α → Option α
  | value a => some a
  | _ => none

/-- The values among what was read. -/
def Reading.values (results : List (Reading α)) : List α := results.filterMap Reading.value?

@[simp] theorem Reading.values_append (l l' : List (Reading α)) :
    Reading.values (l ++ l') = Reading.values l ++ Reading.values l' :=
  List.filterMap_append ..

@[simp] theorem Reading.values_map_value (l : List α) : Reading.values (l.map .value) = l := by
  rw [Reading.values, List.filterMap_map]
  exact List.filterMap_some

@[simp] theorem Reading.values_replicate_closed (k : ℕ) :
    Reading.values (List.replicate k (.closed : Reading α)) = [] := by
  simp [Reading.values, Reading.value?]

namespace Broadcast

/-- The number of slots of a ring: the next power of two. -/
def ringSlots (capacity : ℕ) : ℕ :=
  if capacity ≤ 1 then 1 else 2 ^ (Nat.log2 (capacity - 1) + 1)

def new (capacity : ℕ) : Broadcast α := ⟨ringSlots capacity, [], false⟩

def send (ch : Broadcast α) (a : α) : Broadcast α := { ch with sent := ch.sent ++ [a] }

/-- The last sender is dropped. -/
def close (ch : Broadcast α) : Broadcast α := { ch with closed := true }

/-- Read at a position; `none` when there is nothing yet. -/
def recv (ch : Broadcast α) (next : ℕ) : Option (Reading α) × ℕ :=
  if ch.slots < ch.sent.length - next then
    (some (.lagged (ch.sent.length - ch.slots - next)), ch.sent.length - ch.slots)
  else
    match ch.sent[next]? with
    | some a => (some (.value a), next + 1)
    | none => (if ch.closed then some .closed else none, next)

/-- The results of reading a number of times, as long as there is something to read. -/
def receive (ch : Broadcast α) : ℕ → ℕ → List (Reading α)
  | _, 0 => []
  | next, n + 1 => (ch.recv next).1.toList ++ ch.receive (ch.recv next).2 n

@[simp] theorem send_slots (ch : Broadcast α) (a : α) : (ch.send a).slots = ch.slots := rfl

@[simp] theorem send_sent (ch : Broadcast α) (a : α) : (ch.send a).sent = ch.sent ++ [a] := rfl

@[simp] theorem send_closed (ch : Broadcast α) (a : α) : (ch.send a).closed = ch.closed := rfl

@[simp] theorem close_slots (ch : Broadcast α) : ch.close.slots = ch.slots := rfl

@[simp] theorem close_sent (ch : Broadcast α) : ch.close.sent = ch.sent := rfl

@[simp] theorem close_closed (ch : Broadcast α) : ch.close.closed = true := rfl

variable {ch : Broadcast α} {start next : ℕ} {results : List (Reading α)}

/-- What one reading does: it reports that values were missed, or it yields the value at the
position, or the channel has ended, or there is nothing yet. -/
theorem recv_cases (ch : Broadcast α) (h : next ≤ ch.sent.length) :
    (∃ n, ch.recv next = (some (.lagged n), ch.sent.length - ch.slots) ∧
      next < ch.sent.length - ch.slots) ∨
    (∃ a, ch.sent[next]? = some a ∧ ch.recv next = (some (.value a), next + 1)) ∨
    (next = ch.sent.length ∧ ch.closed = true ∧ ch.recv next = (some .closed, next)) ∨
    (next = ch.sent.length ∧ ch.closed = false ∧ ch.recv next = (none, next)) := by
  unfold recv
  split
  · refine .inl ⟨_, rfl, ?_⟩
    omega
  · cases hget : ch.sent[next]? with
    | some a => exact .inr (.inl ⟨a, rfl, rfl⟩)
    | none =>
        have hlen : next = ch.sent.length := Nat.le_antisymm h (List.getElem?_eq_none_iff.1 hget)
        cases hclosed : ch.closed with
        | true => exact .inr (.inr (.inl ⟨hlen, rfl, rfl⟩))
        | false => exact .inr (.inr (.inr ⟨hlen, rfl, rfl⟩))

/-- What a receiver that started at `start` and stands at `next` has read is what the channel had
for it. -/
structure Tracks (ch : Broadcast α) (start next : ℕ) (results : List (Reading α)) : Prop where
  start_le : start ≤ next
  le_length : next ≤ ch.sent.length
  values : (∀ n, Reading.lagged n ∉ results) → ∃ k, results =
    ((ch.sent.take next).drop start).map .value ++ List.replicate k .closed
  ended : Reading.closed ∈ results → ch.closed = true ∧ next = ch.sent.length

/-- A new receiver stands at the end. -/
theorem tracks_new (ch : Broadcast α) : ch.Tracks ch.sent.length ch.sent.length [] where
  start_le := Nat.le_refl _
  le_length := Nat.le_refl _
  values _ := ⟨0, by simp⟩
  ended h := by cases h

/-- One more reading. -/
theorem Tracks.recv (h : ch.Tracks start next results) :
    ch.Tracks start (ch.recv next).2 (results ++ (ch.recv next).1.toList) := by
  rcases ch.recv_cases h.le_length with ⟨n, hrecv, hlt⟩ | ⟨a, hget, hrecv⟩ |
    ⟨hnext, hclosed, hrecv⟩ | ⟨hnext, hclosed, hrecv⟩
  · rw [hrecv]
    refine ⟨by have := h.start_le; omega, Nat.sub_le _ _, ?_, ?_⟩
    · intro hlag
      exact absurd (List.mem_append_right _ (List.mem_singleton.2 rfl)) (hlag n)
    · intro hin
      -- a receiver at the end of the channel is not behind
      rcases List.mem_append.1 hin with hin | hin
      · obtain ⟨-, hend⟩ := h.ended hin
        omega
      · cases List.mem_singleton.1 hin
  · rw [hrecv]
    have hlt : next < ch.sent.length := (List.getElem?_eq_some_iff.1 hget).1
    refine ⟨Nat.le_succ_of_le h.start_le, hlt, ?_, ?_⟩
    · intro hlag
      obtain ⟨k, hk⟩ := h.values fun n hn => hlag n (List.mem_append_left _ hn)
      -- nothing has been closed yet
      obtain rfl : k = 0 := by
        rcases Nat.eq_zero_or_pos k with hzero | hpos
        · exact hzero
        · have hend := (h.ended (by simp [hk, Nat.ne_of_gt hpos])).2
          omega
      have htake : ch.sent.take (next + 1) = ch.sent.take next ++ [a] := by
        rw [List.take_add_one, hget]
        rfl
      have hdrop : start ≤ (ch.sent.take next).length := by
        have := h.start_le
        rw [List.length_take]
        omega
      refine ⟨0, ?_⟩
      rw [Option.toList_some, hk, htake, List.drop_append_of_le_length hdrop, List.map_append]
      simp
    · intro hin
      rcases List.mem_append.1 hin with hin | hin
      · obtain ⟨-, hend⟩ := h.ended hin
        omega
      · cases List.mem_singleton.1 hin
  · rw [hrecv]
    refine ⟨h.start_le, h.le_length, ?_, fun _ => ⟨hclosed, hnext⟩⟩
    intro hlag
    obtain ⟨k, hk⟩ := h.values fun n hn => hlag n (List.mem_append_left _ hn)
    exact ⟨k + 1, by rw [Option.toList_some, hk, List.append_assoc, ← List.replicate_succ']⟩
  · rw [hrecv]
    simpa using h

/-- A value is sent while the channel has a sender. -/
theorem Tracks.send (h : ch.Tracks start next results) (hopen : ch.closed = false) (a : α) :
    (ch.send a).Tracks start next results where
  start_le := h.start_le
  le_length := by
    have := h.le_length
    simp
    omega
  values hlag := by
    rw [send_sent, List.take_append_of_le_length h.le_length]
    exact h.values hlag
  ended hin := by
    rw [(h.ended hin).1] at hopen
    cases hopen

/-- The last sender is dropped. -/
theorem Tracks.close (h : ch.Tracks start next results) : ch.close.Tracks start next results where
  start_le := h.start_le
  le_length := h.le_length
  values := h.values
  ended hin := ⟨rfl, (h.ended hin).2⟩

/-- The values read are those between the start and the position. -/
theorem Tracks.values_eq (h : ch.Tracks start next results)
    (hlag : ∀ n, Reading.lagged n ∉ results) :
    Reading.values results = (ch.sent.take next).drop start := by
  obtain ⟨k, hk⟩ := h.values hlag
  rw [hk, Reading.values_append, Reading.values_map_value, Reading.values_replicate_closed,
    List.append_nil]

/-- What was read and what is left are all that was sent since the start. -/
theorem Tracks.values_append (h : ch.Tracks start next results)
    (hlag : ∀ n, Reading.lagged n ∉ results) :
    Reading.values results ++ ch.sent.drop next = ch.sent.drop start := by
  have hsplit : ch.sent.drop start = (ch.sent.take next ++ ch.sent.drop next).drop start := by
    rw [List.take_append_drop]
  have hle : start ≤ (ch.sent.take next).length := by
    have := h.start_le
    have := h.le_length
    rw [List.length_take]
    omega
  rw [h.values_eq hlag, hsplit, List.drop_append_of_le_length hle]

/-- A receiver of a closed channel that is not behind reads all that is left, and then that the
channel is closed. -/
theorem receive_closed (hclosed : ch.closed = true) (hle : next ≤ ch.sent.length)
    (hslots : ch.sent.length - next ≤ ch.slots) :
    ch.receive next (ch.sent.length - next + 1) =
      (ch.sent.drop next).map .value ++ [.closed] := by
  generalize hn : ch.sent.length - next = n at hslots
  induction n generalizing next with
  | zero =>
      have hget : ch.sent[next]? = none := List.getElem?_eq_none_iff.2 (by omega)
      have hdrop : ch.sent.drop next = [] := List.drop_eq_nil_iff.2 (by omega)
      simp [receive, Broadcast.recv, hn, hget, hdrop, hclosed]
  | succ n ih =>
      have hlt : next < ch.sent.length := by omega
      have hrecv : ch.recv next = (some (.value ch.sent[next]), next + 1) := by
        have hnot : ¬ ch.slots < ch.sent.length - next := by omega
        rw [Broadcast.recv, if_neg hnot, List.getElem?_eq_getElem hlt]
      have hrest : ch.receive (next + 1) (n + 1) =
          (ch.sent.drop (next + 1)).map .value ++ [.closed] := ih (by omega) (by omega) (by omega)
      rw [receive, hrecv, hrest, List.drop_eq_getElem_cons hlt]
      rfl

end Broadcast

end Tortillas
