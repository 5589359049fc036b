/-
**Length-prefixed frames.**

A stream of bytes carries frames one behind the other: four bytes that say how long the body of the
frame is, and the body.  A header that announces more than a given maximum is not accepted.  Where
the frames of a stream begin and end depends on the bytes alone, so that a stream is cut into frames
in one way only, whatever its parts are and in whatever order they are looked at.

Main definitions:

* `IsFrame` — a header and a body of the announced length, within the maximum;
* `nextFrame` — what a stream begins with: a frame, a header that is too large, or too little;
* `cut` — the frames of a stream, and the bytes behind the last one.

Main results:

* `nextFrame_append` — a frame is found whatever follows it;
* `cut_append` — **the frames in front of a stream are the first frames of the whole**.
-/

import Tortillas.Bytes

set_option relaxedAutoImplicit false
set_option autoImplicit false

namespace Tortillas

/-- The length a header announces. -/
def announced (bytes : Bytes) : ℕ := beNat (bytes.take 4)

theorem announced_append {bytes : Bytes} (h : 4 ≤ bytes.length) (rest : Bytes) :
    announced (bytes ++ rest) = announced bytes := by
  rw [announced, List.take_append_of_le_length h, announced]

/-- A header and a body of the announced length, within the maximum. -/
structure IsFrame (max : ℕ) (frame : Bytes) : Prop where
  header : 4 ≤ frame.length
  bounded : announced frame ≤ max
  exact : frame.length = 4 + announced frame

/-- What a stream begins with. -/
inductive NextFrame
  | more
  | oversized (length : ℕ)
  | frame (bytes rest : Bytes)
  deriving DecidableEq

def nextFrame (max : ℕ) (bytes : Bytes) : NextFrame :=
  if bytes.length < 4 then .more
  else if max < announced bytes then .oversized (announced bytes)
  else if bytes.length < 4 + announced bytes then .more
  else .frame (bytes.take (4 + announced bytes)) (bytes.drop (4 + announced bytes))

variable {max : ℕ}

/-- A frame is found whatever follows it. -/
theorem nextFrame_append {frame : Bytes} (h : IsFrame max frame) (rest : Bytes) :
    nextFrame max (frame ++ rest) = .frame frame rest := by
  obtain ⟨hheader, hbounded, hexact⟩ := h
  rw [nextFrame, announced_append hheader, if_neg (by rw [List.length_append]; omega),
    if_neg (by omega), if_neg (by rw [List.length_append]; omega), ← hexact, List.take_left,
    List.drop_left]

/-- A header that is too large is found whatever follows it. -/
theorem nextFrame_oversized_append {bytes : Bytes} {n : ℕ} (h : nextFrame max bytes = .oversized n)
    (rest : Bytes) : nextFrame max (bytes ++ rest) = .oversized n := by
  unfold nextFrame at h ⊢
  split at h
  · cases h
  · rename_i hlen
    rw [announced_append (by omega)]
    split at h
    · rename_i hmax
      rw [if_neg (by rw [List.length_append]; omega), if_pos hmax]
      exact h
    · split at h
      · cases h
      · cases h

/-- What is found is in front of the stream. -/
theorem nextFrame_eq_frame {bytes frame rest : Bytes} (h : nextFrame max bytes = .frame frame rest) :
    IsFrame max frame ∧ bytes = frame ++ rest := by
  unfold nextFrame at h
  split at h
  · cases h
  · rename_i hheader
    split at h
    · cases h
    · rename_i hbounded
      split at h
      · cases h
      · rename_i hlen
        cases h
        have hann : announced (bytes.take (4 + announced bytes)) = announced bytes := by
          rw [announced, List.take_take, Nat.min_eq_left (by omega), announced]
        have htake : (bytes.take (4 + announced bytes)).length = 4 + announced bytes :=
          List.length_take_of_le (by omega)
        refine ⟨⟨?_, ?_, ?_⟩, (List.take_append_drop _ _).symm⟩
        · omega
        · rw [hann]
          omega
        · rw [hann, htake]

theorem length_rest_lt {bytes frame rest : Bytes} (h : nextFrame max bytes = .frame frame rest) :
    rest.length < bytes.length := by
  obtain ⟨hframe, rfl⟩ := nextFrame_eq_frame h
  have := hframe.header
  rw [List.length_append]
  omega

/-- A stream cut into frames, and the bytes behind the last frame. -/
def cut (max : ℕ) (bytes : Bytes) : List Bytes × Bytes :=
  match _h : nextFrame max bytes with
  | .frame frame rest => (frame :: (cut max rest).1, (cut max rest).2)
  | _ => ([], bytes)
termination_by bytes.length
decreasing_by
  all_goals exact length_rest_lt _h

theorem cut_of_frame {bytes frame rest : Bytes} (h : nextFrame max bytes = .frame frame rest) :
    cut max bytes = (frame :: (cut max rest).1, (cut max rest).2) := by
  rw [cut]
  split
  · rename_i hframe
    rw [h] at hframe
    cases hframe
    rfl
  · rename_i hnone
    exact absurd h (hnone frame rest)

theorem cut_of_not_frame {bytes : Bytes} (h : ∀ frame rest, nextFrame max bytes ≠ .frame frame rest) :
    cut max bytes = ([], bytes) := by
  rw [cut]
  split
  · rename_i hframe
    exact absurd hframe (h _ _)
  · rfl

/-- **The frames in front of a stream are the first frames of the whole.** -/
theorem cut_append {frames : List Bytes} (h : ∀ frame ∈ frames, IsFrame max frame) (rest : Bytes) :
    cut max (frames.flatten ++ rest) = (frames ++ (cut max rest).1, (cut max rest).2) := by
  induction frames with
  | nil => rfl
  | cons frame frames ih =>
      have hframe := h frame (List.mem_cons_self ..)
      rw [List.flatten_cons, List.append_assoc, cut_of_frame (nextFrame_append hframe _),
        ih fun f hf => h f (List.mem_cons_of_mem _ hf)]
      rfl

end Tortillas
