/-
**Framing does not depend on how the bytes arrive.**

A connection is read by one code before it is split and by another one after it, and the calls of
the first are dropped whenever something else happens to the actor.  Both yield what the stream
carries: the frames of its bytes, decoded one by one.  For the buffered side this is an invariant
of schedules: the results so far stand for frames in front of the bytes delivered, and the buffer
holds exactly the bytes behind them, whether a call waits for the transport or has been dropped
there.  For the reading half it follows from what one call receives.

Main definitions:

* `Receiving.Tracks` — the results of a schedule stand for the frames in front of the buffer.

Main results:

* `Receiving.tracks_step`, `Receiving.tracks_run` — every schedule keeps this;
* `PeerReader.recvs_eq` — what a number of calls of the reading half yield;
* `framing_independent` — **both sides yield what the stream carries**, and the counter is the
  number of bytes read from the transport.
-/

import Tortillas.PeerStream

set_option relaxedAutoImplicit false
set_option autoImplicit false

namespace Tortillas

namespace Receiving

/-! ### The buffered side -/

/-- What a connection has received at its end. -/
def ended (r : Receiving) : Option PeerActorError := if r.closed then some closedConnection else none

/-- **The results so far stand for the frames in front of the buffer**, and then for a header that
is too large or for the end of the stream, received again and again. -/
structure Tracks (s : Serde) (stream : Bytes) (results : List Received) (r : Receiving)
    (frames : List Bytes) (tail : List Received) : Prop where
  isFrame : ∀ frame ∈ frames, IsFrame maxFramePayloadLength frame
  stream_eq : frames.flatten ++ r.stream.readBuffer = stream
  counted : r.stream.bytesDownloaded = stream.length
  results_eq : results = frames.map (PeerMessages.fromBytes s) ++ tail
  waits : r.pending = true ∨ r.closed = true →
    nextFrame maxFramePayloadLength r.stream.readBuffer = .more
  noFrame : tail ≠ [] → ∀ frame rest,
    nextFrame maxFramePayloadLength r.stream.readBuffer ≠ .frame frame rest
  tail_eq : ∀ result ∈ tail, received s r.stream.readBuffer r.ended = [result]
  ended_of_closed : r.closed = true → tail ≠ []

variable {s : Serde} {stream : Bytes} {results : List Received} {r : Receiving}
  {frames : List Bytes} {tail : List Received}

theorem tracks_start (s : Serde) : Tracks s [] [] {} [] [] where
  isFrame := fun _ h => absurd h List.not_mem_nil
  stream_eq := rfl
  counted := rfl
  results_eq := rfl
  waits := by simp
  noFrame := fun h => absurd rfl h
  tail_eq := fun _ h => absurd h List.not_mem_nil
  ended_of_closed := by simp

/-- The results and the stream agree as far as both go. -/
theorem Tracks.agrees (h : Tracks s stream results r frames tail) :
    results.take (received s stream r.ended).length =
      (received s stream r.ended).take results.length := by
  have hfull : received s stream r.ended =
      frames.map (PeerMessages.fromBytes s) ++ received s r.stream.readBuffer r.ended := by
    rw [← h.stream_eq, received_append h.isFrame]
  rw [hfull, h.results_eq, List.length_append, List.length_append, List.take_length_add_append,
    List.take_length_add_append]
  cases tail with
  | nil => simp
  | cons result tail =>
      have htail := h.tail_eq result (List.mem_cons_self ..)
      rw [htail]
      simp

/-- A call that waits, and a connection that has ended, have received all there is. -/
theorem Tracks.complete (h : Tracks s stream results r frames tail)
    (hr : r.pending = true ∨ r.closed = true) :
    (received s stream r.ended).length ≤ results.length := by
  rw [← h.stream_eq, received_append h.isFrame, h.results_eq, List.length_append,
    List.length_append, received_of_more (h.waits hr)]
  refine Nat.add_le_add_left ?_ _
  by_cases hclosed : r.closed = true
  · rw [ended, if_pos hclosed]
    exact List.length_pos_iff.2 (h.ended_of_closed hclosed)
  · rw [ended, if_neg hclosed]
    exact Nat.zero_le _

/-- The bytes of the frames that have been received, and the buffer, are the stream. -/
theorem Tracks.bytes_eq (h : Tracks s stream results r frames tail) :
    ((cut maxFramePayloadLength stream).1.take results.length).flatten ++ r.stream.readBuffer =
      stream := by
  have hcut : (cut maxFramePayloadLength stream).1 =
      frames ++ (cut maxFramePayloadLength r.stream.readBuffer).1 := by
    rw [← h.stream_eq, cut_append h.isFrame]
  have htake : (cut maxFramePayloadLength stream).1.take results.length = frames := by
    rw [hcut, h.results_eq, List.length_append, List.length_map, List.take_length_add_append]
    by_cases htail : tail = []
    · rw [htail, List.length_nil, List.take_zero, List.append_nil]
    · rw [cut_of_not_frame (h.noFrame htail), List.take_nil, List.append_nil]
  rw [htake, h.stream_eq]

/-- While a call waits for a connection that is open, only frames have been received. -/
theorem Tracks.tail_eq_nil (h : Tracks s stream results r frames tail) (hpending : r.pending = true)
    (hopen : r.closed = false) : tail = [] := by
  rw [List.eq_nil_iff_forall_not_mem]
  intro result hresult
  have hreceived := h.tail_eq result hresult
  rw [received_of_more (h.waits (.inl hpending)), ended, hopen] at hreceived
  cases hreceived

/-- The loop of a call takes a frame, reports a header that is too large, or waits. -/
theorem tracks_poll (h : Tracks s stream results { r with pending := false } frames tail) :
    ∃ frames' tail', Tracks s stream (results ++ (r.poll s).2.toList) (r.poll s).1 frames' tail' := by
  obtain ⟨hframes, hstream, hcounted, hresults, hwaits, hnone, htail, hclosed⟩ := h
  simp only [Bool.false_eq_true, false_or] at hwaits
  unfold poll
  rw [bufferedMessage_eq]
  cases hnext : nextFrame maxFramePayloadLength r.stream.readBuffer with
  | more =>
      refine ⟨frames, tail, hframes, hstream, hcounted, ?_, fun _ => hnext, hnone, htail, hclosed⟩
      simpa using hresults
  | oversized n =>
      have hreceived : received s r.stream.readBuffer r.ended = [.err (oversizedFrame n)] :=
        received_of_oversized hnext
      have hopen : r.closed ≠ true := by
        intro hclosed
        rw [hnext] at hwaits
        cases hwaits hclosed
      refine ⟨frames, tail ++ [.err (oversizedFrame n)], hframes, hstream, hcounted, ?_, ?_, ?_, ?_,
        ?_⟩
      · simp [hresults]
      · simp [hopen]
      · intro _ frame rest
        rw [hnext]
        exact nofun
      · intro result hresult
        rcases List.mem_append.1 hresult with hmem | hmem
        · exact htail result hmem
        · rw [List.mem_singleton.1 hmem]
          exact hreceived
      · simp
  | frame frame rest =>
      obtain ⟨hframe, hsplit⟩ := nextFrame_eq_frame hnext
      have hopen : r.closed ≠ true := by
        intro hclosed
        rw [hnext] at hwaits
        cases hwaits hclosed
      -- nothing has been received behind the frames, for the buffer begins with one
      have hnil : tail = [] := by
        by_contra hne
        exact hnone hne frame rest hnext
      refine ⟨frames ++ [frame], [], ?_, ?_, hcounted, ?_, ?_, ?_, ?_, ?_⟩
      · intro f hf
        rcases List.mem_append.1 hf with hf | hf
        · exact hframes f hf
        · rw [List.mem_singleton.1 hf]
          exact hframe
      · rw [← hstream, hsplit]
        simp
      · simp [hresults, hnil]
      · simp [hopen]
      · exact fun hne => absurd rfl hne
      · exact fun _ hmem => absurd hmem List.not_mem_nil
      · exact fun hclosed => absurd hclosed hopen

/-- A chunk goes to the end of the buffer, before the call looks for a frame. -/
theorem Tracks.read (h : Tracks s stream results r frames tail) (hpending : r.pending = true)
    (hopen : r.closed = false) (chunk : Bytes) :
    Tracks s (stream ++ chunk) results
      { r with
        stream := ⟨r.stream.readBuffer ++ chunk, r.stream.bytesDownloaded + chunk.length⟩
        pending := false } frames [] where
  isFrame := h.isFrame
  stream_eq := by rw [← h.stream_eq, List.append_assoc]
  counted := by rw [List.length_append, h.counted]
  results_eq := by rw [h.results_eq, h.tail_eq_nil hpending hopen]
  waits := by simp [hopen]
  noFrame := fun hne => absurd rfl hne
  tail_eq := fun _ hmem => absurd hmem List.not_mem_nil
  ended_of_closed := by simp [hopen]

/-- The end of the stream, found while a frame is missing bytes, is an error; so is every result
after it. -/
theorem Tracks.eof (h : Tracks s stream results r frames tail) (hpending : r.pending = true) :
    Tracks s stream (results ++ [.err closedConnection])
      { r with pending := false, closed := true } frames (tail ++ [.err closedConnection]) := by
  have hmore := h.waits (.inl hpending)
  refine ⟨h.isFrame, h.stream_eq, h.counted, ?_, ?_, ?_, ?_, ?_⟩
  · rw [h.results_eq, List.append_assoc]
  · exact fun _ => hmore
  · intro _ frame rest
    rw [hmore]
    exact nofun
  · intro result hresult
    rw [received_of_more hmore]
    rcases List.mem_append.1 hresult with hmem | hmem
    · cases hclosed : r.closed with
      | false =>
          rw [h.tail_eq_nil hpending hclosed] at hmem
          exact absurd hmem List.not_mem_nil
      | true =>
          have hsame := h.tail_eq result hmem
          rw [received_of_more hmore, ended, hclosed] at hsame
          exact hsame
    · rw [List.mem_singleton.1 hmem]
      rfl
  · simp

/-- **Every step keeps track**: of a call, of what the transport delivers to it, and of its being
dropped. -/
theorem tracks_step {i : RecvStep} {r' : Receiving} {result : Option Received}
    (h : Tracks s stream results r frames tail) (hstep : r.step s i = some (r', result)) :
    ∃ frames' tail', Tracks s (stream ++ i.bytes) (results ++ result.toList) r' frames' tail' := by
  cases i with
  | call =>
      rw [step] at hstep
      split at hstep
      · cases hstep
      · rename_i hpending
        have hr : { r with pending := false } = r := by
          rw [← Bool.eq_false_of_not_eq_true hpending]
        obtain ⟨frames', tail', h'⟩ := tracks_poll (hr.symm ▸ h)
        rw [Option.some.injEq] at hstep
        rw [hstep] at h'
        rw [RecvStep.bytes, List.append_nil]
        exact ⟨frames', tail', h'⟩
  | read chunk =>
      rw [step] at hstep
      split at hstep
      · cases hstep
      · rename_i hguard
        simp only [not_or, Bool.not_eq_false, Bool.not_eq_true] at hguard
        obtain ⟨hpending, hopen, -⟩ := hguard
        rw [Option.some.injEq] at hstep
        obtain ⟨frames', tail', h'⟩ := tracks_poll
          (r := { r with
            stream := ⟨r.stream.readBuffer ++ chunk, r.stream.bytesDownloaded + chunk.length⟩ })
          (h.read hpending hopen chunk)
        rw [hstep] at h'
        exact ⟨frames', tail', h'⟩
  | eof =>
      rw [step] at hstep
      split at hstep
      · rename_i hpending
        cases hstep
        rw [RecvStep.bytes, List.append_nil]
        exact ⟨frames, _, h.eof hpending⟩
      · cases hstep
  | drop =>
      rw [step] at hstep
      split at hstep
      · cases hstep
        refine ⟨frames, tail, h.isFrame, ?_, ?_, ?_, ?_, h.noFrame, h.tail_eq, h.ended_of_closed⟩
        · rw [RecvStep.bytes, List.append_nil]
          exact h.stream_eq
        · rw [RecvStep.bytes, List.append_nil]
          exact h.counted
        · simpa using h.results_eq
        · exact fun hr => h.waits (.inr (by simpa using hr))
      · cases hstep

/-- **Every schedule keeps track.** -/
theorem tracks_run {steps : List RecvStep} {r' : Receiving} {more : List Received}
    (h : Tracks s stream results r frames tail) (hrun : r.run s steps = some (r', more)) :
    ∃ frames' tail', Tracks s (stream ++ bytesRead steps) (results ++ more) r' frames' tail' := by
  induction steps generalizing r stream results frames tail more with
  | nil =>
      cases hrun
      rw [bytesRead, List.flatMap_nil, List.append_nil, List.append_nil]
      exact ⟨frames, tail, h⟩
  | cons i steps ih =>
      rw [run] at hrun
      split at hrun
      · cases hrun
      · rename_i next result hstep
        obtain ⟨done, hdone, hmore⟩ := Option.map_eq_some_iff.1 hrun
        cases hmore
        obtain ⟨frames', tail', h'⟩ := tracks_step h hstep
        obtain ⟨frames'', tail'', h''⟩ := ih h' hdone
        rw [bytesRead, List.flatMap_cons, ← List.append_assoc, ← List.append_assoc]
        exact ⟨frames'', tail'', h''⟩

end Receiving

/-! ### The reading half -/

namespace PeerReader

variable (s : Serde) (endText : String)

/-- What a number of calls yield, as far as the stream goes. -/
theorem recvs_eq (k : ℕ) (r : PeerReader) :
    (r.recvs s endText k).1.length = k ∧
      (r.recvs s endText k).1.take (received s r.unread (some (endOfStream endText))).length =
        (received s r.unread (some (endOfStream endText))).take k ∧
      (r.recvs s endText k).2.carried = r.carried := by
  induction k generalizing r with
  | zero => exact ⟨rfl, List.take_nil, rfl⟩
  | succ k ih =>
      obtain ⟨hreceives, hcarried⟩ := r.recv_eq s endText
      obtain ⟨hlength, htake, hrest⟩ := ih (r.recv s endText).2
      rw [recvs]
      refine ⟨congrArg Nat.succ hlength, ?_, hrest.trans hcarried⟩
      unfold Receives at hreceives
      split at hreceives
      · rename_i hnext
        rw [received_of_more hnext, hreceives.1]
        simp
      · rename_i n hnext
        rw [received_of_oversized hnext, hreceives]
        simp
      · rename_i frame rest hnext
        rw [received_of_frame hnext, hreceives.1, List.length_cons, List.take_succ_cons,
          List.take_succ_cons, ← hreceives.2, htake]

/-- The bytes of the frames that have been received, and the unread bytes, are the stream. -/
theorem unread_recvs {k : ℕ} {r : PeerReader}
    (hk : k ≤ (cut maxFramePayloadLength r.unread).1.length) :
    ((cut maxFramePayloadLength r.unread).1.take k).flatten ++ (r.recvs s endText k).2.unread =
      r.unread := by
  induction k generalizing r with
  | zero => rfl
  | succ k ih =>
      obtain ⟨hreceives, -⟩ := r.recv_eq s endText
      unfold Receives at hreceives
      cases hnext : nextFrame maxFramePayloadLength r.unread with
      | more =>
          rw [cut_of_not_frame (by rw [hnext]; exact nofun)] at hk
          exact absurd hk (Nat.not_succ_le_zero k)
      | oversized n =>
          rw [cut_of_not_frame (by rw [hnext]; exact nofun)] at hk
          exact absurd hk (Nat.not_succ_le_zero k)
      | frame frame rest =>
          rw [hnext] at hreceives
          rw [cut_of_frame hnext, List.length_cons, ← hreceives.2] at hk
          have hrest := ih (r := (r.recv s endText).2) (Nat.le_of_succ_le_succ hk)
          rw [recvs, cut_of_frame hnext, List.take_succ_cons, List.flatten_cons, List.append_assoc,
            ← hreceives.2, hrest, hreceives.2, (nextFrame_eq_frame hnext).2]

end PeerReader

/-! ### Both sides -/

section Split

variable {s : Serde} {stream : Bytes} {results : List Received} {r : Receiving}
  {frames : List Bytes} {tail : List Received}

/-- What has been received behind the frames of an open connection is a header that is too large,
and it is received from whatever follows. -/
theorem Receiving.Tracks.oversized (h : r.Tracks s stream results frames tail)
    (hopen : r.closed = false) {result : Received} (hmem : result ∈ tail) (behind : Bytes)
    (ended : Option PeerActorError) :
    received s (r.stream.readBuffer ++ behind) ended = [result] ∧
      (cut maxFramePayloadLength (r.stream.readBuffer ++ behind)).1 = [] := by
  have hreceived := h.tail_eq result hmem
  rw [Receiving.ended, hopen] at hreceived
  cases hnext : nextFrame maxFramePayloadLength r.stream.readBuffer with
  | more =>
      rw [received_of_more hnext] at hreceived
      cases hreceived
  | frame frame rest => exact absurd hnext (h.noFrame (List.ne_nil_of_mem hmem) frame rest)
  | oversized n =>
      have happend := nextFrame_oversized_append hnext behind
      rw [received_of_oversized hnext] at hreceived
      refine ⟨?_, ?_⟩
      · rw [received_of_oversized happend]
        exact hreceived
      · rw [cut_of_not_frame (by rw [happend]; exact nofun)]

variable (transport : List Bytes) (endText : String) (k : ℕ)

/-- The results before a split and those behind it are what the stream carries. -/
theorem Receiving.Tracks.agrees_split (h : r.Tracks s stream results frames tail)
    (hopen : r.closed = false) :
    (results ++ ((r.stream.split transport).recvs s endText k).1).take
        (received s (stream ++ transport.flatten)
          (some (PeerReader.endOfStream endText))).length =
      (received s (stream ++ transport.flatten) (some (PeerReader.endOfStream endText))).take
        (results.length + k) := by
  obtain ⟨hlength, htake, -⟩ := PeerReader.recvs_eq s endText k (r.stream.split transport)
  rw [← h.stream_eq, List.append_assoc, received_append h.isFrame, h.results_eq]
  cases tail with
  | nil =>
      rw [List.append_nil, List.length_append, List.take_length_add_append,
        List.take_length_add_append]
      exact congrArg _ htake
  | cons result tail =>
      rw [(h.oversized hopen (List.mem_cons_self ..) _ _).1]
      simp only [List.append_assoc, List.length_append, List.take_length_add_append,
        Nat.add_assoc]
      simp
      omega

/-- No byte is lost at a split. -/
theorem Receiving.Tracks.bytes_split (h : r.Tracks s stream results frames tail)
    (hopen : r.closed = false)
    (hk : results.length + k ≤
      (cut maxFramePayloadLength (stream ++ transport.flatten)).1.length) :
    ((cut maxFramePayloadLength (stream ++ transport.flatten)).1.take
        (results.length + k)).flatten ++ ((r.stream.split transport).recvs s endText k).2.unread =
      stream ++ transport.flatten := by
  have hcut : (cut maxFramePayloadLength (stream ++ transport.flatten)).1 =
      frames ++ (cut maxFramePayloadLength (r.stream.split transport).unread).1 := by
    rw [← h.stream_eq, List.append_assoc, cut_append h.isFrame]
    rfl
  rw [hcut, List.length_append, h.results_eq, List.length_append, List.length_map] at hk
  cases tail with
  | nil =>
      rw [List.length_nil, Nat.add_zero] at hk
      have hrest := PeerReader.unread_recvs s endText (r := r.stream.split transport)
        (Nat.le_of_add_le_add_left hk)
      rw [hcut, h.results_eq, List.append_nil, List.length_map, List.take_length_add_append,
        List.flatten_append, List.append_assoc, hrest, ← h.stream_eq, List.append_assoc]
      rfl
  | cons result tail =>
      have hnil := (h.oversized hopen (List.mem_cons_self ..) transport.flatten none).2
      change _ ≤ frames.length +
        (cut maxFramePayloadLength (r.stream.readBuffer ++ transport.flatten)).1.length at hk
      rw [hnil, List.length_cons, List.length_nil] at hk
      omega

end Split

/-- **Framing does not depend on how the bytes arrive**: the results of any schedule of calls, reads
and drops are what the bytes delivered carry, up to a header that is too large or the end of the
stream, and so are the results of a schedule and of a reading half that takes over behind it,
wherever that is in a frame.  No byte is lost or used twice, and the counter is the number of bytes
read from the transport. -/
theorem framing_independent (s : Serde) (steps : List RecvStep) (r : Receiving)
    (results : List Received) (hrun : ({} : Receiving).run s steps = some (r, results)) :
    (results.take (received s (bytesRead steps) r.ended).length =
        (received s (bytesRead steps) r.ended).take results.length ∧
      (r.pending = true ∨ r.closed = true →
        (received s (bytesRead steps) r.ended).length ≤ results.length) ∧
      ((cut maxFramePayloadLength (bytesRead steps)).1.take results.length).flatten ++
          r.stream.readBuffer = bytesRead steps ∧
      r.stream.bytesDownloaded = (bytesRead steps).length) ∧
    (r.closed = false → ∀ (transport : List Bytes) (endText : String) (k : ℕ),
      let stream := bytesRead steps ++ transport.flatten
      let whole := received s stream (some (PeerReader.endOfStream endText))
      let done := (r.stream.split transport).recvs s endText k
      done.1.length = k ∧
        (results ++ done.1).take whole.length = whole.take (results.length + k) ∧
        (results.length + k ≤ (cut maxFramePayloadLength stream).1.length →
          ((cut maxFramePayloadLength stream).1.take (results.length + k)).flatten ++
            (done.2.readBuffer ++ done.2.transport.flatten) = stream) ∧
        done.2.bytesDownloaded + done.2.transport.flatten.length = stream.length) := by
  obtain ⟨frames, tail, h⟩ := Receiving.tracks_run (Receiving.tracks_start s) hrun
  simp only [List.nil_append] at h
  refine ⟨⟨h.agrees, h.complete, h.bytes_eq, h.counted⟩, ?_⟩
  intro hopen transport endText k stream whole done
  obtain ⟨hlength, -, hcarried⟩ := PeerReader.recvs_eq s endText k (r.stream.split transport)
  refine ⟨hlength, h.agrees_split transport endText k hopen,
    h.bytes_split transport endText k hopen, ?_⟩
  calc done.2.bytesDownloaded + done.2.transport.flatten.length
      = r.stream.bytesDownloaded + transport.flatten.length := hcarried
    _ = stream.length := by rw [h.counted, ← List.length_append]

namespace Sample

/-- A keep-alive and the first half of another one, delivered to calls of which one is dropped in
the middle of a header. -/
def schedule : List RecvStep := [.call, .read [0, 0], .drop, .call, .read [0, 0, 0, 0], .call]

def halfway : Receiving := ⟨⟨[0, 0], 6⟩, true, false⟩

end Sample

/-- The reading half takes over in the middle of the second frame. -/
theorem framing_independent_sample :
    ({} : Receiving).run Sample.serde Sample.schedule = some (Sample.halfway, [.ok .keepAlive]) ∧
      ∀ (transport : List Bytes) (endText : String) (k : ℕ),
        let stream := bytesRead Sample.schedule ++ transport.flatten
        let whole := received Sample.serde stream (some (PeerReader.endOfStream endText))
        let done := (Sample.halfway.stream.split transport).recvs Sample.serde endText k
        (.ok .keepAlive :: done.1).take whole.length = whole.take (1 + k) := by
  have hrun : ({} : Receiving).run Sample.serde Sample.schedule =
      some (Sample.halfway, [.ok .keepAlive]) := by
    simp [Receiving.run, Receiving.step, Receiving.poll, bufferedMessage, beNat, Sample.schedule,
      Sample.halfway]
  refine ⟨hrun, fun transport endText k => ?_⟩
  exact ((framing_independent Sample.serde Sample.schedule Sample.halfway _ hrun).2 rfl transport
    endText k).2.1

end Tortillas
