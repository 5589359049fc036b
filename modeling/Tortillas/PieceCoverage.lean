/-
**A piece is received when its blocks are.**

The torrent keeps one row of bits for a piece of which blocks have been received, and takes the piece
to be received when all bits are set.  A bit is set when a block has been written, and the block is
known by its offset only: that the written blocks make up the piece rests on what is asked for.  As
only blocks that have been asked for come in, each write is one block of the piece, and as blocks
that have been received are refused, no block is written twice.

A row begins with the first block of a piece, or it comes out of a snapshot with the blocks that had
been received when the snapshot was taken.  The history of a row is what the log says of it since it
began: the blocks it came with, and the blocks written since.

Main definitions:

* `RowHistory`, `rowHistory` — the history of the row of a piece;
* `RowTracked` — the bits of a row say what its history says;
* `RowHistory.Complete` — the blocks of a history make up a piece;
* `CoversPiece` — what justifies the entries of the log that are about blocks.

Main results:

* `RowTracked.record` — a block that is recorded;
* `RowTracked.complete` — a row whose bits are all set;
* `requested_blocks_cover` — **in every run, what is forwarded has been asked for, and a piece that is
  taken to be received is covered by what has been written and what its row came with**.
-/

import Tortillas.Layout
import Tortillas.RequestedBlocks
import Tortillas.RequestAgreement
import Tortillas.SnapshotValid

set_option relaxedAutoImplicit false
set_option autoImplicit false

namespace Tortillas

variable {H : Type}

/-! ### The history of a row -/

/-- What is known of a row of received blocks: the blocks a snapshot has marked, if the row came out
of one, and the blocks written since the row began, by offset and length. -/
structure RowHistory where
  restored : Option (List Bool)
  writes : List (ℕ × ℕ)

namespace RowHistory

/-- What an entry of the log adds to the history of the row of a piece.  A snapshot replaces all
rows. -/
def note (index : ℕ) (h : RowHistory) : LogEntry H → RowHistory
  | .effect _ (.rowCreated i) => if i = index then ⟨none, []⟩ else h
  | .effect _ (.blockWritten i offset length) =>
      if i = index then { h with writes := h.writes ++ [(offset, length)] } else h
  | .restored rows => ⟨(rows.find? fun row => row.pieceIndex = index).map (·.blocks), []⟩
  | _ => h

/-- Whether the row came with a block. -/
def marked (h : RowHistory) (j : ℕ) : Bool := (h.restored.getD []).getD j false

/-- The blocks the row came with, as parts of a piece of the given length. -/
def restoredParts (h : RowHistory) (n : ℕ) : List (ℕ × ℕ) :=
  ((List.range (divCeil n blockSize)).filter h.marked).map (blockPart blockSize n)

theorem count_restoredParts (h : RowHistory) {n j : ℕ} (hj : j * blockSize < n) :
    (h.restoredParts n).count (blockPart blockSize n j) = (h.marked j).toNat := by
  have hinj : Function.Injective (blockPart blockSize n) := fun _ _ => blockPart_inj blockSize_pos
  cases hmarked : h.marked j with
  | true =>
      refine List.count_eq_one_of_mem ((List.nodup_range.filter _).map hinj) ?_
      refine List.mem_map_of_mem (List.mem_filter.2 ⟨?_, hmarked⟩)
      rw [List.mem_range, lt_divCeil_iff blockSize_pos]
      exact hj
  | false =>
      refine List.count_eq_zero.2 ?_
      intro hmem
      obtain ⟨k, hk, heq⟩ := List.mem_map.1 hmem
      rw [hinj heq] at hk
      rw [(List.mem_filter.1 hk).2] at hmarked
      cases hmarked

/-- The blocks of the history make up the piece: those that have been written, if the row began with
a block, and together with those the row came with, if the lengths in the metadata agree. -/
structure Complete (h : RowHistory) (info : Info H) (index : ℕ) : Prop where
  created : h.restored = none → CoversOnce (info.pieceLen index) h.writes
  restored : info.Consistent →
    CoversOnce (info.pieceLen index) (h.writes ++ h.restoredParts (info.pieceLen index))

end RowHistory

/-- The history of the row of a piece. -/
def rowHistory (index : ℕ) (log : List (LogEntry H)) : RowHistory :=
  log.foldl (RowHistory.note index) ⟨none, []⟩

section History

variable {index : ℕ} {log new : List (LogEntry H)}

@[simp] theorem rowHistory_concat (e : LogEntry H) :
    rowHistory index (log ++ [e]) = (rowHistory index log).note index e := by
  simp [rowHistory]

/-- Entries that are not about the row do not change its history. -/
theorem rowHistory_append_of_forall (h : ∀ e ∈ new, ∀ r, RowHistory.note index r e = r) :
    rowHistory index (log ++ new) = rowHistory index log := by
  induction new generalizing log with
  | nil => rw [List.append_nil]
  | cons e new ih =>
      have hfirst : rowHistory index (log ++ [e]) = rowHistory index log := by
        rw [rowHistory_concat]
        exact h e (List.mem_cons_self ..) _
      have hrest : rowHistory index (log ++ [e] ++ new) = rowHistory index (log ++ [e]) :=
        ih fun e' he' => h e' (List.mem_cons_of_mem _ he')
      rw [List.append_assoc] at hrest
      exact hrest.trans hfirst

end History

/-! ### Rows and their histories -/

/-- The bits of a row say what its history says: a bit is set if the row came with the block, or if
the block has been written since, which happens once. -/
structure RowTracked (info : Info H) (index : ℕ) (row : List Bool) (h : RowHistory) : Prop where
  piece : index < info.pieceCount
  length : h.restored = none ∨ info.Consistent →
    row.length = divCeil (info.pieceLen index) blockSize
  writes : ∀ part ∈ h.writes, ∃ j, part = blockPart blockSize (info.pieceLen index) j
  count : ∀ j < row.length, h.writes.count (blockPart blockSize (info.pieceLen index) j) +
    (h.marked j).toNat = (row.getD j false).toNat

namespace RowTracked

variable {info : Info H} {index : ℕ} {row : List Bool} {h : RowHistory}

/-- A row that begins. -/
theorem replicate (hindex : index < info.pieceCount) :
    RowTracked info index (List.replicate (divCeil (info.pieceLen index) blockSize) false)
      ⟨none, []⟩ where
  piece := hindex
  length _ := List.length_replicate
  writes _ hpart := absurd hpart List.not_mem_nil
  count j _ := by simp [RowHistory.marked]

/-- **A block that is recorded.** -/
theorem record (ht : RowTracked info index row h) {j : ℕ} (hfresh : row.getD j false = false) :
    RowTracked info index (row.set j true)
      { h with writes := h.writes ++ [blockPart blockSize (info.pieceLen index) j] } where
  piece := ht.piece
  length hcase := by
    rw [List.length_set]
    exact ht.length hcase
  writes part hpart := by
    rcases List.mem_append.1 hpart with hpart | hpart
    · exact ht.writes part hpart
    · exact ⟨j, List.mem_singleton.1 hpart⟩
  count k hk := by
    rw [List.length_set] at hk
    have hold := ht.count k hk
    rw [List.count_append]
    by_cases hkj : k = j
    · subst hkj
      rw [hfresh] at hold
      have hset : (row.set k true).getD k false = true := by
        simp [List.getD_eq_getElem?_getD, hk]
      rw [hset, List.count_singleton_self]
      change _ + _ + (h.marked k).toNat = 1
      change _ = 0 at hold
      omega
    · have hother : (row.set j true).getD k false = row.getD k false := by
        simp [List.getD_eq_getElem?_getD, List.getElem?_set_ne (Ne.symm hkj)]
      have hzero : [blockPart blockSize (info.pieceLen index) j].count
          (blockPart blockSize (info.pieceLen index) k) = 0 := by
        rw [List.count_eq_zero, List.mem_singleton]
        exact fun heq => hkj (blockPart_inj blockSize_pos heq)
      rw [hother, hzero]
      exact hold

theorem bit_of_all (hall : row.all id = true) {j : ℕ} (hj : j < row.length) :
    row.getD j false = true := by
  rw [List.getD_eq_getElem?_getD, List.getElem?_eq_getElem hj, Option.getD_some]
  exact List.all_eq_true.1 hall _ (List.getElem_mem hj)

/-- **A row whose bits are all set.** -/
theorem complete (ht : RowTracked info index row h) (hall : row.all id = true) :
    h.Complete info index := by
  -- every block of the piece has a bit, and the bit is set
  have hcount : row.length = divCeil (info.pieceLen index) blockSize → ∀ j,
      j * blockSize < info.pieceLen index →
      h.writes.count (blockPart blockSize (info.pieceLen index) j) + (h.marked j).toNat = 1 := by
    intro hlen j hj
    have hlt : j < row.length := by
      rw [hlen, lt_divCeil_iff blockSize_pos]
      exact hj
    rw [ht.count j hlt, bit_of_all hall hlt]
    rfl
  refine ⟨?_, ?_⟩
  · intro hnone
    refine coversOnce_of_count blockSize_pos ht.writes ?_
    intro j hj
    have hone := hcount (ht.length (Or.inl hnone)) j hj
    have hmarked : h.marked j = false := by simp [RowHistory.marked, hnone]
    rw [hmarked] at hone
    exact hone
  · intro hcons
    refine coversOnce_of_count blockSize_pos ?_ ?_
    · intro part hpart
      rcases List.mem_append.1 hpart with hpart | hpart
      · exact ht.writes part hpart
      · obtain ⟨j, -, rfl⟩ := List.mem_map.1 hpart
        exact ⟨j, rfl⟩
    · intro j hj
      have hone := hcount (ht.length (Or.inr hcons)) j hj
      rw [List.count_append, RowHistory.count_restoredParts h hj]
      exact hone

end RowTracked

/-- The rows of the torrent and their histories in a log. -/
def RowsTracked (t : TorrentActor H) (log : List (LogEntry H)) : Prop :=
  ∀ index row, t.pieceScheduler.completedBlocks.get? index = some row →
    ∃ info, t.infoDict = some info ∧ RowTracked info index row (rowHistory index log)

/-- What justifies the entries that are about blocks: a block is written after it has been forwarded,
and a piece is received when its blocks are. -/
def CoversPiece (pre : List (LogEntry H)) : LogEntry H → Prop
  | .effect _ (.blockWritten index offset length) =>
      ∃ ref p block, length = block.length ∧ .told ref (.incomingPiece p index offset block) ∈ pre
  | .effect dict (.pieceReceived index) =>
      ∃ info, dict = some info ∧ index < info.pieceCount ∧ (rowHistory index pre).Complete info index
  | _ => True

/-! ### Rounds -/

/-- An effect that says nothing about rows. -/
def Effect.IsTalk : Effect → Prop
  | .tell .. | .kill _ | .spawn .. => True
  | .blockWritten .. | .rowCreated _ | .pieceReceived _ => False

theorem Effect.IsPlain.isTalk {e : Effect} (h : e.IsPlain) : e.IsTalk := by
  cases e with
  | tell => trivial
  | kill => trivial
  | spawn => trivial
  | _ => exact h.elim

theorem TorrentActor.IsRequest.isTalk {t : TorrentActor H} {e : Effect} (h : t.IsRequest e) :
    e.IsTalk := by
  cases h with
  | choke => trivial
  | need => trivial

theorem Effect.IsTalk.note {e : Effect} (h : e.IsTalk) (dict : Option (Info H)) (index : ℕ)
    (r : RowHistory) : r.note index (.effect dict e) = r := by
  cases e with
  | tell => rfl
  | kill => rfl
  | spawn => rfl
  | _ => exact h.elim

theorem Effect.IsTalk.coversPiece {e : Effect} (h : e.IsTalk) (dict : Option (Info H))
    (pre : List (LogEntry H)) : CoversPiece pre (.effect dict e) := by
  cases e with
  | tell => trivial
  | kill => trivial
  | spawn => trivial
  | _ => exact h.elim

/-- The log in the middle of a round that began with the given metadata. -/
def midLog (log : List (LogEntry H)) (dict : Option (Info H)) (t : TorrentActor H) :
    List (LogEntry H) := log ++ t.outbox.map (.effect dict)

/-- In the middle of a round: the rows are as the log says, and so far every entry is justified. -/
structure Covered (log : List (LogEntry H)) (dict : Option (Info H)) (t : TorrentActor H) : Prop where
  infoDict : t.infoDict = dict
  rows : RowsTracked t (midLog log dict t)
  justified : Justified CoversPiece (midLog log dict t)

namespace Covered

variable {log : List (LogEntry H)} {dict : Option (Info H)} {s t : TorrentActor H}

theorem midLog_append {new : List Effect} (hout : t.outbox = s.outbox ++ new) :
    midLog log dict t = midLog log dict s ++ new.map (.effect dict) := by
  rw [midLog, hout, List.map_append, ← List.append_assoc]
  rfl

/-- Rows may be dropped, and peers are talked to. -/
theorem talk (h : Covered log dict s) (hinfo : t.infoDict = s.infoDict)
    (hrows : ∀ index row, t.pieceScheduler.completedBlocks.get? index = some row →
      s.pieceScheduler.completedBlocks.get? index = some row)
    {new : List Effect} (hout : t.outbox = s.outbox ++ new) (htalk : ∀ e ∈ new, e.IsTalk) :
    Covered log dict t := by
  have hlog : midLog log dict t = midLog log dict s ++ new.map (.effect dict) := midLog_append hout
  refine ⟨hinfo.trans h.infoDict, ?_, ?_⟩
  · intro index row hrow
    obtain ⟨info, hdict, htracked⟩ := h.rows index row (hrows index row hrow)
    refine ⟨info, hinfo.trans hdict, ?_⟩
    rw [hlog, rowHistory_append_of_forall]
    · exact htracked
    · intro e he r
      obtain ⟨e', he', rfl⟩ := List.mem_map.1 he
      exact (htalk e' he').note dict index r
  · rw [hlog]
    refine h.justified.append_of_forall ?_
    intro e he mid _
    obtain ⟨e', he', rfl⟩ := List.mem_map.1 he
    exact (htalk e' he').coversPiece dict _

/-- A piece is found to be received. -/
theorem received (h : Covered log dict s) {index : ℕ}
    (hcomplete : s.pieceScheduler.isPieceComplete index = true) :
    Covered log dict (s.received index) := by
  have hlog : midLog log dict (s.received index) =
      midLog log dict s ++ [Effect.pieceReceived index].map (.effect dict) := midLog_append rfl
  refine ⟨h.infoDict, ?_, ?_⟩
  · intro i row hrow
    change (s.pieceScheduler.completedBlocks.erase index).get? i = some row at hrow
    obtain ⟨info, hdict, htracked⟩ := h.rows i row (HashMap.get?_of_get?_erase hrow).2
    refine ⟨info, hdict, ?_⟩
    rw [hlog, rowHistory_append_of_forall]
    · exact htracked
    · intro e he r
      rw [List.mem_singleton.1 he]
      rfl
  · rw [hlog]
    refine h.justified.concat ?_
    unfold PieceScheduler.isPieceComplete at hcomplete
    cases hrow : s.pieceScheduler.completedBlocks.get? index with
    | none =>
        rw [hrow] at hcomplete
        cases hcomplete
    | some row =>
        rw [hrow] at hcomplete
        obtain ⟨info, hdict, htracked⟩ := h.rows index row hrow
        exact ⟨info, h.infoDict.symm.trans hdict, htracked.piece, htracked.complete hcomplete⟩

/-- Before a block is written there is a row for it: the one there was, or one that is begun.  In the
given log the row is as its history says, the other rows are as before, and the block is missing. -/
structure Begun (log : List (LogEntry H)) (s : TorrentActor H) (info : Info H) (index j : ℕ)
    (log' : List (LogEntry H)) : Prop where
  row : RowTracked info index ((s.pieceScheduler.completedBlocks.get? index).getD
    (List.replicate (divCeil (info.pieceLen index) blockSize) false)) (rowHistory index log')
  missing : ((s.pieceScheduler.completedBlocks.get? index).getD
    (List.replicate (divCeil (info.pieceLen index) blockSize) false)).getD j false = false
  others : ∀ i, i ≠ index → rowHistory i log' = rowHistory i log
  justified : Justified CoversPiece log'

theorem begun (h : Covered log dict s) {index j : ℕ} {info : Info H}
    (hindex : index < info.pieceCount) (hdict : s.infoDict = some info)
    (hfresh : s.pieceScheduler.isDuplicateBlock index j = false) :
    Begun (midLog log dict s) s info index j
      (midLog log dict s ++ (if (s.pieceScheduler.completedBlocks.get? index).isSome then []
        else [Effect.rowCreated index]).map (.effect dict)) := by
  unfold PieceScheduler.isDuplicateBlock at hfresh
  cases hold : s.pieceScheduler.completedBlocks.get? index with
  | none =>
      have hnote : ∀ r : RowHistory, r.note index (.effect dict (.rowCreated index)) = ⟨none, []⟩ :=
        fun _ => if_pos rfl
      rw [if_neg (by simp), List.map_singleton]
      constructor
      case row =>
        rw [hold, Option.getD_none, rowHistory_concat, hnote]
        exact .replicate hindex
      case missing =>
        rw [hold, Option.getD_none, List.getD_eq_getElem?_getD, List.getElem?_replicate]
        split <;> rfl
      case others =>
        intro i hi
        rw [rowHistory_concat]
        exact if_neg (Ne.symm hi)
      case justified => exact h.justified.concat trivial
  | some row =>
      rw [hold] at hfresh
      obtain ⟨info', hdict', htracked⟩ := h.rows index row hold
      cases hdict.symm.trans hdict'
      rw [if_pos (by simp), List.map_nil, List.append_nil]
      constructor
      case row =>
        rw [hold]
        exact htracked
      case missing =>
        rw [hold, Option.getD_some, List.getD_eq_getElem?_getD]
        exact hfresh
      case others => exact fun _ _ => rfl
      case justified => exact h.justified

/-- A block is written and recorded. -/
theorem noted (h : Covered log dict s) {index j length : ℕ} {info : Info H}
    (hindex : index < info.pieceCount) (hdict : s.infoDict = some info)
    (hfresh : s.pieceScheduler.isDuplicateBlock index j = false)
    (hlength : (j * blockSize, length) = blockPart blockSize (info.pieceLen index) j)
    (hforwarded : ∃ ref p block, length = block.length ∧
      .told ref (.incomingPiece p index (j * blockSize) block) ∈ log) :
    Covered log dict ((s.noteBlock index (j * blockSize) length).recordBlock index (j * blockSize)
      (divCeil (info.pieceLen index) blockSize)) := by
  have hbegun := h.begun hindex hdict hfresh
  have hout := TorrentActor.outbox_noteBlock_eq index (j * blockSize) length s
  generalize (if (s.pieceScheduler.completedBlocks.get? index).isSome then []
    else [Effect.rowCreated index]) = created at hbegun hout
  have hlog : midLog log dict ((s.noteBlock index (j * blockSize) length).recordBlock index
      (j * blockSize) (divCeil (info.pieceLen index) blockSize)) =
      midLog log dict s ++ created.map (.effect dict) ++
        [.effect dict (.blockWritten index (j * blockSize) length)] := by
    rw [List.append_assoc]
    refine (midLog_append hout).trans ?_
    rw [List.map_append]
    rfl
  have hinfo : ((s.noteBlock index (j * blockSize) length).recordBlock index (j * blockSize)
      (divCeil (info.pieceLen index) blockSize)).infoDict = s.infoDict := by
    rw [TorrentActor.noteBlock_eq]
    rfl
  refine ⟨hinfo.trans h.infoDict, ?_, ?_⟩
  · intro i row hrow
    rw [TorrentActor.completedBlocks_recordBlock, HashMap.get?_insert, TorrentActor.noteBlock_eq,
      Nat.mul_div_cancel _ blockSize_pos] at hrow
    rw [hlog, rowHistory_concat]
    split at hrow
    · rename_i hi
      subst hi
      cases hrow
      have hnote : (rowHistory i (midLog log dict s ++ created.map (.effect dict))).note i
          (.effect dict (.blockWritten i (j * blockSize) length)) =
          { rowHistory i (midLog log dict s ++ created.map (.effect dict)) with
            writes := (rowHistory i (midLog log dict s ++ created.map (.effect dict))).writes ++
              [blockPart blockSize (info.pieceLen i) j] } := by
        rw [← hlength]
        exact if_pos rfl
      rw [hnote]
      exact ⟨info, hinfo.trans hdict, hbegun.row.record hbegun.missing⟩
    · rename_i hi
      have hnote : (rowHistory i (midLog log dict s ++ created.map (.effect dict))).note i
          (.effect dict (.blockWritten index (j * blockSize) length)) =
          rowHistory i (midLog log dict s) := by
        rw [← hbegun.others i hi]
        exact if_neg (Ne.symm hi)
      obtain ⟨info', hdict', htracked⟩ := h.rows i row hrow
      rw [hnote]
      exact ⟨info', hinfo.trans hdict', htracked⟩
  · rw [hlog]
    refine hbegun.justified.concat ?_
    obtain ⟨ref, p, block, hblock, hmem⟩ := hforwarded
    refine ⟨ref, p, block, hblock, ?_⟩
    exact List.mem_append_left _ (List.mem_append_left _ hmem)

/-- **A block is recorded** that has been forwarded, and that begins where a block does. -/
theorem recorded (h : Covered log dict s) {index offset length n : ℕ} {info : Info H}
    (ha : s.Accepts index offset length info n) (hforwarded : ∃ ref p block, length = block.length ∧
      .told ref (.incomingPiece p index offset block) ∈ log) (haligned : ∃ j, offset = j * blockSize)
    (p : PeerId) (sent : Bool) : Covered log dict (s.recorded p index offset length n sent) := by
  have hnoted : Covered log dict ((s.noteBlock index offset length).recordBlock index offset n) := by
    obtain ⟨j, rfl⟩ := haligned
    obtain ⟨hindex, -, -, hlength, rfl⟩ := TorrentActor.checkBlock_eq_some.1 ha.check
    have hfresh := ha.fresh
    rw [Nat.mul_div_cancel _ blockSize_pos] at hfresh
    exact h.noted hindex ha.info hfresh (by rw [hlength]; rfl) hforwarded
  have heq := TorrentActor.cancelAssigned_eq p
    (s.pieceScheduler.markBlockComplete index (offset / blockSize) n).2 index offset length sent
    ((s.noteBlock index offset length).recordBlock index offset n)
  obtain ⟨new, hout, hnew⟩ := TorrentActor.outbox_cancelAssigned p
    (s.pieceScheduler.markBlockComplete index (offset / blockSize) n).2 index offset length sent
    ((s.noteBlock index offset length).recordBlock index offset n)
  refine hnoted.talk ?_ ?_ hout ?_
  · rw [TorrentActor.recorded, heq]
    rfl
  · rw [TorrentActor.recorded, heq]
    exact fun _ _ hrow => hrow
  · intro e he
    obtain ⟨q, ref, -, -, -, rfl⟩ := hnew e he
    trivial

/-- **Every deed keeps the rows as the log says**, if what is recorded has been forwarded and begins
where a block does. -/
theorem deed {R : ℕ → ℕ → ℕ → Prop} (h : Covered log dict s) (hdeed : TorrentActor.Deed R s t)
    (hR : ∀ index offset length, R index offset length →
      (∃ ref p block, length = block.length ∧
        .told ref (.incomingPiece p index offset block) ∈ log) ∧ ∃ j, offset = j * blockSize) :
    Covered log dict t := by
  cases hdeed with
  | tells ht =>
      obtain ⟨new, hout, hnew⟩ := ht.sent
      refine h.talk ht.infoDict ?_ hout fun e he => (hnew e he).isTalk
      rw [ht.rows]
      exact fun _ _ hrow => hrow
  | request ht =>
      obtain ⟨new, hout, hnew, -⟩ := ht.sent
      refine h.talk ht.infoDict ?_ hout fun e he => (hnew e he).isTalk
      rw [ht.scheduler.completedBlocks]
      exact fun _ _ hrow => hrow
  | record p sent ha hblock =>
      obtain ⟨hforwarded, haligned⟩ := hR _ _ _ hblock
      exact h.recorded ha hforwarded haligned p sent
  | receive hcomplete => exact h.received hcomplete
  | complete index =>
      refine h.talk rfl ?_ (List.append_nil _).symm fun _ he => absurd he List.not_mem_nil
      exact fun _ _ hrow => (HashMap.get?_of_get?_erase hrow).2

/-- At the beginning of a round. -/
theorem start (hrows : RowsTracked s log) (hjustified : Justified CoversPiece log) :
    Covered log s.infoDict { s with outbox := [] } := by
  have hlog : midLog log s.infoDict { s with outbox := [] } = log := List.append_nil log
  refine ⟨rfl, ?_, ?_⟩
  · rw [hlog]
    exact hrows
  · rw [hlog]
    exact hjustified

end Covered

/-- An entry of a snapshot is found under its piece. -/
theorem find?_of_nodup {rows : List PieceBlockSnapshot}
    (hnodup : (rows.map PieceBlockSnapshot.pieceIndex).Nodup) {row : PieceBlockSnapshot}
    (hmem : row ∈ rows) : rows.find? (fun r => r.pieceIndex = row.pieceIndex) = some row := by
  induction rows with
  | nil => cases hmem
  | cons first rows ih =>
      rw [List.map_cons, List.nodup_cons] at hnodup
      rcases List.mem_cons.1 hmem with rfl | hmem
      · simp
      · have hne : first.pieceIndex ≠ row.pieceIndex := by
          intro heq
          exact hnodup.1 (heq ▸ List.mem_map_of_mem hmem)
        rw [List.find?_cons_of_neg (by simpa using hne)]
        exact ih hnodup.2 hmem

/-- A snapshot brings its rows along. -/
theorem RowsTracked.restoreSnapshot [DecidableEq H] {c : Codec H} {u : TorrentActor H}
    {snap : TorrentSnapshot H} (hv : snap.IsValid c) (hown : snap.metainfo = u.metainfo)
    (log : List (LogEntry H)) :
    RowsTracked (u.restoreSnapshot snap) (log ++ [LogEntry.restored snap.blockMap]) := by
  intro index row hrow
  have hmem : (⟨index, row⟩ : PieceBlockSnapshot) ∈ snap.blockMap := by
    rcases TorrentActor.mem_of_get?_foldl_restorePieceBlocks hrow with hmem | hget
    · exact hmem
    · rw [TorrentActor.markComplete_completedBlocks _ _ _ rfl] at hget
      cases hget
  obtain ⟨hrange, -, info, length, hdict, hlen, hblocks⟩ := hv.blocks _ hmem
  rw [hdict] at hrange
  refine ⟨info, (TorrentActor.infoDict_restoreSnapshot snap hown).trans hdict, ?_⟩
  have hfind := find?_of_nodup hv.nodup hmem
  have hnote : (rowHistory index log).note index
      (LogEntry.restored (H := H) snap.blockMap) = ⟨some row, []⟩ := by
    simp only [RowHistory.note]
    rw [hfind]
    rfl
  rw [rowHistory_concat, hnote]
  constructor
  case piece => exact hrange
  case length =>
    rintro (hnone | hcons)
    · cases hnone
    · rw [snapshotPieceLength_eq hcons hrange] at hlen
      cases hlen
      exact hblocks
  case writes => exact fun part hpart => absurd hpart List.not_mem_nil
  case count =>
    intro j _
    simp [RowHistory.marked]

/-! ### Runs -/

/-- The rows are as the log says, and every entry is justified. -/
structure PiecesCovered (s : Swarm H) : Prop where
  rows : RowsTracked s.torrent s.log
  justified : Justified CoversPiece s.log

namespace PiecesCovered

variable {s : Swarm H}

/-- What a peer actor tells is not about rows. -/
theorem report (h : PiecesCovered s) (ref : ActorRef) (q : PeerProcess) (es : List PeerEvent) :
    PiecesCovered (s.report ref q es) := by
  have hlog : (s.report ref q es).log = s.log ++ es.map (.told ref) := rfl
  refine ⟨?_, ?_⟩
  · intro index row hrow
    obtain ⟨info, hdict, htracked⟩ := h.rows index row hrow
    refine ⟨info, hdict, ?_⟩
    rw [hlog, rowHistory_append_of_forall]
    · exact htracked
    · intro e he r
      obtain ⟨e', -, rfl⟩ := List.mem_map.1 he
      rfl
  · rw [hlog]
    refine h.justified.append_of_forall ?_
    intro e he mid _
    obtain ⟨e', -, rfl⟩ := List.mem_map.1 he
    trivial

variable [DecidableEq H] {c : Codec H}

/-- **A round keeps the rows as the log says.** -/
theorem round (h : PiecesCovered s) {i : TorrentActor.Input c} (hown : s.torrent.RestoresOwn i.message)
    (hbrings : ∀ index offset length, TorrentActor.Brings i.message index offset length →
      (∃ ref p block, length = block.length ∧
        .told ref (.incomingPiece p index offset block) ∈ s.log) ∧ ∃ j, offset = j * blockSize) :
    PiecesCovered (s.round i) := by
  have hdeeds : ∀ {u : TorrentActor H},
      TorrentActor.Deeds (TorrentActor.Brings i.message) { s.torrent with outbox := [] } u →
      Covered s.log s.torrent.infoDict u := fun hdeeds =>
    hdeeds.invariant (fun _ _ hdeed hs => hs.deed hdeed hbrings) (.start h.rows h.justified)
  have hlog : (s.round i).log = s.log ++
      ((s.torrent.step i).outbox.map (.effect s.torrent.infoDict) ++
        (i.message.restoredRows.map .restored).toList) := rfl
  rcases TorrentActor.step_deeds s.torrent i with
    ⟨v, u, hm, hu, hmeta, heq⟩ | ⟨hnone, hstep | ⟨u, info, env, hu, hdict, heq⟩⟩
  · -- the rows of the snapshot replace those there were
    have hcovered := hdeeds hu
    rw [hm] at hown
    have hlog' : (s.round i).log = midLog s.log s.torrent.infoDict u ++
        [.restored v.snapshot.blockMap] := by
      rw [hlog, hm, heq, ← List.append_assoc]
      rfl
    refine ⟨?_, ?_⟩
    · change RowsTracked (s.torrent.step i) _
      rw [heq, hlog']
      exact .restoreSnapshot v.valid (hown.trans hmeta.symm) _
    · rw [hlog']
      exact hcovered.justified.concat trivial
  · have hcovered := hdeeds hstep
    rw [hnone, Option.map_none, Option.toList_none, List.append_nil] at hlog
    refine ⟨?_, ?_⟩
    · rw [hlog]
      exact hcovered.rows
    · rw [hlog]
      exact hcovered.justified
  · -- there are no rows before the metadata is known
    have hcovered := hdeeds hu
    rw [hnone, Option.map_none, Option.toList_none, List.append_nil, heq] at hlog
    refine ⟨?_, ?_⟩
    · intro index row hrow
      change (s.torrent.step i).pieceScheduler.completedBlocks.get? index = some row at hrow
      rw [heq] at hrow
      obtain ⟨info', hdict', -⟩ := hcovered.rows index row hrow
      rw [hdict] at hdict'
      cases hdict'
    · have hlog' : (s.round i).log = midLog s.log s.torrent.infoDict u ++ _ :=
        hlog.trans (Covered.midLog_append rfl)
      rw [hlog']
      refine hcovered.justified.append_of_forall ?_
      intro e he mid _
      obtain ⟨e', he', rfl⟩ := List.mem_map.1 he
      obtain ⟨q, ref, -, rfl⟩ := TorrentActor.mem_told he'
      trivial

end PiecesCovered

/-- **In every run the rows are as the log says.** -/
theorem piecesCovered_of_reach [DecidableEq H] {c : Codec H} {G : Swarm H → SwarmInput c → Prop}
    {s : Swarm H} (h : (swarmSystem c).Reach G s) : PiecesCovered s := by
  refine h.strengthen (J := Asked) (fun s hs => asked_of_reach hs) ?_ ?_
  · rintro s ⟨⟨args, disk, hstart⟩, -, -, hlog⟩
    refine ⟨?_, ?_⟩
    · obtain ⟨hash, -, heq⟩ := Option.map_eq_some_iff.1 hstart
      intro index row hrow
      rw [← heq] at hrow
      cases hrow
    · rw [hlog]
      exact justified_nil
  · rintro s i t hasked hs - ⟨hadmits, happly⟩
    cases Swarm.moves_of_apply happly with
    | outside j hpeer =>
        refine hs.round (hadmits.own _ rfl) ?_
        intro index offset length hbrings
        -- blocks come from peer actors only
        cases hm : j.message with
        | incomingPiece =>
            rw [hm] at hpeer
            cases hpeer
        | _ =>
            rw [hm] at hbrings
            exact hbrings.elim
    | @deliver env ref e rest hinbox =>
        have hrest : PiecesCovered { s with inbox := rest } := ⟨hs.rows, hs.justified⟩
        refine hrest.round (hadmits.own _ (by simp [Swarm.nextMessage, hinbox])) ?_
        intro index offset length hbrings
        cases e with
        | incomingPiece p index' offset' block =>
            obtain ⟨rfl, rfl, rfl⟩ := hbrings
            have htold : .told ref (.incomingPiece p index offset block) ∈ s.log :=
              hasked.inbox _ (by rw [hinbox]; exact List.mem_cons_self ..)
            obtain ⟨pre, post, hlog⟩ := List.append_of_mem htold
            obtain ⟨-, info, -, -, j, -, hkey⟩ := hasked.answer hlog
            exact ⟨⟨ref, p, block, rfl, htold⟩, j, congrArg (fun key => key.2.1) hkey⟩
        | _ => exact hbrings.elim
    | peer hp hacts => exact hs.report _ _ _

/-- **In every run only blocks that have been asked for reach the torrent, and a piece that is taken to
be received is covered.**  A peer actor forwards a block less often than it has been asked for it, and
what it is asked for is a block of the metadata; what is written has been forwarded; and the blocks
written since a row has begun, with those it came with out of a snapshot, make up the piece. -/
theorem requested_blocks_cover [DecidableEq H] {c : Codec H} {s : Swarm H}
    (h : (swarmSystem c).Reach (fun _ _ => True) s) :
    (∀ (pre post : List (LogEntry H)) (ref : ActorRef) (p : PeerId) (index offset : ℕ)
        (block : Bytes),
      s.log = pre ++ .told ref (.incomingPiece p index offset block) :: post →
      answers ref (index, offset, block.length) pre < asks ref (index, offset, block.length) pre ∧
      ∃ (info : Info H) (j : ℕ),
        .effect (some info) (.tell ref (.needPiece index offset block.length)) ∈ pre ∧
        index < info.pieceCount ∧ offset = j * blockSize ∧ offset < info.pieceLen index ∧
        block.length = min (info.pieceLen index - offset) blockSize) ∧
    (∀ (pre post : List (LogEntry H)) (dict : Option (Info H)) (index offset length : ℕ),
      s.log = pre ++ .effect dict (.blockWritten index offset length) :: post →
      ∃ (ref : ActorRef) (p : PeerId) (block : Bytes), length = block.length ∧
        .told ref (.incomingPiece p index offset block) ∈ pre) ∧
    (∀ (pre post : List (LogEntry H)) (dict : Option (Info H)) (index : ℕ),
      s.log = pre ++ .effect dict (.pieceReceived index) :: post →
      ∃ info : Info H, dict = some info ∧ index < info.pieceCount ∧
        ((rowHistory index pre).restored = none →
          CoversOnce (info.pieceLen index) (rowHistory index pre).writes) ∧
        (info.Consistent → CoversOnce (info.pieceLen index)
          ((rowHistory index pre).writes ++
            (rowHistory index pre).restoredParts (info.pieceLen index)))) := by
  have hasked := asked_of_reach h
  have hcovered := piecesCovered_of_reach h
  refine ⟨?_, ?_, ?_⟩
  · intro pre post ref p index offset block hlog
    obtain ⟨hlt, info, hmem, hindex, j, hblock, hkey⟩ := hasked.answer hlog
    obtain ⟨hoffset, hlength⟩ := Prod.mk.inj (Prod.mk.inj hkey).2
    refine ⟨hlt, info, j, hmem, hindex, hoffset, ?_, ?_⟩
    · rw [hoffset]
      exact hblock
    · rw [hoffset]
      exact hlength
  · intro pre post dict index offset length hlog
    exact hcovered.justified pre _ post hlog
  · intro pre post dict index hlog
    obtain ⟨info, hdict, hindex, hcomplete⟩ := hcovered.justified pre _ post hlog
    exact ⟨info, hdict, hindex, hcomplete.created, hcomplete.restored⟩

namespace Sample

/-- Whether an entry says that the first piece is taken to be received. -/
def isReceived : LogEntry Bytes → Bool
  | .effect _ (.pieceReceived 0) => true
  | _ => false

/-- The log up to an entry that says so. -/
theorem exists_received (log : List (LogEntry Bytes)) {k : ℕ}
    (h : (log[k]?).any isReceived = true) :
    ∃ dict post, log = log.take k ++ .effect dict (.pieceReceived 0) :: post := by
  cases he : log[k]? with
  | none =>
      rw [he] at h
      cases h
  | some e =>
      rw [he] at h
      obtain ⟨hk, heq⟩ := List.getElem?_eq_some_iff.1 he
      have hsplit : log = log.take k ++ e :: log.drop (k + 1) := by
        rw [← heq, List.getElem_cons_drop, List.take_append_drop]
      cases e with
      | effect dict e =>
          cases e with
          | pieceReceived index =>
              cases index with
              | zero => exact ⟨dict, _, hsplit⟩
              | succ index => cases h
          | _ => cases h
      | _ => cases h

/-- The block comes in and is delivered. -/
def covered : Swarm Bytes :=
  after (after waiting [.peer 0 (.wire (.piece 0 0 [7]) peerEnv)]) [deliver]

theorem reach_covered : (swarmSystem codec).Reach (fun _ _ => True) covered := by
  have hwaiting : (swarmSystem codec).Reach (fun _ _ => True) waiting :=
    reach_waiting trivial (fun _ => ⟨trivial, trivial, trivial, trivial⟩) ⟨trivial, trivial⟩
  have hsent := reach_after_one (i := .peer 0 (.wire (.piece 0 0 [7]) peerEnv)) hwaiting trivial
    trivial (by decide +kernel)
  exact reach_after_one hsent plain_deliver trivial (by decide +kernel)

end Sample

theorem requested_blocks_cover_sample :
    ∃ dict info post,
      Sample.covered.log = Sample.covered.log.take 7 ++ .effect dict (.pieceReceived 0) :: post ∧
      dict = some info ∧ (rowHistory 0 (Sample.covered.log.take 7)).writes = [(0, 1)] ∧
      CoversOnce (info.pieceLen 0) (rowHistory 0 (Sample.covered.log.take 7)).writes := by
  obtain ⟨dict, post, hlog⟩ := Sample.exists_received Sample.covered.log (k := 7)
    (by decide +kernel)
  obtain ⟨info, hdict, -, hcreated, -⟩ :=
    (requested_blocks_cover Sample.reach_covered).2.2 _ post dict 0 hlog
  exact ⟨dict, info, post, hlog, hdict, by decide +kernel, hcreated (by decide +kernel)⟩

/-- The storage strategy is set. -/
def SetsStorage [DecidableEq H] {c : Codec H} : SwarmInput c → Prop
  | .outside i => ∃ strategy created, i.message = .setPieceStorage strategy created
  | _ => False

namespace Sample

/-- The torrent of two blocks as it was saved when the first of them had been received. -/
def halfDone : ValidatedTorrentSnapshot codec where
  snapshot :=
    { version := torrentSnapshotVersion
      infoHash := encode twoBlocks
      state := .added
      autoStart := true
      sufficientPeers := 1
      outputPath := some [['o']]
      metainfo := .torrent twoBlocks
      pieceStorage := .inFile
      resolvedMagnetInfo := none
      bitfield := [false]
      blockMap := [⟨0, [true, false]⟩] }
  valid := by
    refine ⟨rfl, rfl, fun _ _ => rfl, rfl, fun _ h => (nomatch h), rfl, ?_, by decide⟩
    intro entry hentry
    rw [List.mem_singleton.1 hentry]
    exact ⟨by decide, rfl, twoBlocks, 16385, rfl, by decide, by decide⟩

/-- The snapshot is restored. -/
def resumed : Swarm Bytes :=
  after (alone (fromInfo twoBlocks .inFile)) [.outside (input (.restoreSnapshot halfDone))]

/-- A peer has the piece, is asked for the second block and sends it; the piece cannot be read
back. -/
def resumedInputs : List (SwarmInput codec) :=
  [.peer 0 .start, .peer 0 (.wire (.bitfield [true]) peerEnv), deliver, deliver,
    .peer 0 (.command peerEnv), .peer 0 (.wire (.piece 0 16384 [7]) peerEnv),
    .deliver { deliverEnv with block := { blockEnv with read := false } }]

theorem reach_resumed :
    (swarmSystem codec).Reach (fun _ i => ¬ SetsStorage i) (after resumed [connect peer 0]) := by
  have hinit : (swarmSystem codec).Reach (fun _ i => ¬ SetsStorage i)
      (alone (fromInfo twoBlocks .inFile)) := .init ⟨init_fromInfo twoBlocks .inFile, rfl, rfl, rfl⟩
  have hresumed : (swarmSystem codec).Reach (fun _ i => ¬ SetsStorage i) resumed := by
    refine .step (i := .outside (input (.restoreSnapshot halfDone))) hinit ?_ ⟨⟨?_, ?_, ?_⟩, rfl⟩
    · rintro ⟨strategy, created, ⟨⟩⟩
    · rintro id ref ⟨⟩
    · rintro m ⟨⟩
      rfl
    · rintro m ⟨⟩ id hdead
      cases hdead
  exact reach_connect hresumed (by rintro ⟨strategy, created, ⟨⟩⟩) rfl

theorem plain_of_mem_resumedInputs {i : SwarmInput codec} (hi : i ∈ resumedInputs) :
    Plain i ∧ ¬ SetsStorage i := by
  simp only [resumedInputs, List.mem_cons, List.not_mem_nil, or_false] at hi
  rcases hi with rfl | rfl | rfl | rfl | rfl | rfl | rfl
  · exact ⟨trivial, id⟩
  · exact ⟨trivial, id⟩
  · exact ⟨plain_deliver, id⟩
  · exact ⟨plain_deliver, id⟩
  · exact ⟨trivial, id⟩
  · exact ⟨trivial, id⟩
  · exact ⟨fun _ => ⟨rfl, rfl⟩, id⟩

end Sample

/-- **A row that comes out of a snapshot is completed by one write**, though the storage has not been
changed: the writes since the row has come do not cover the piece. -/
theorem restored_row_completed_by_one_write :
    ∃ s : Swarm Bytes, (swarmSystem Sample.codec).Reach (fun _ i => ¬ SetsStorage i) s ∧
      ∃ pre dict post, s.log = pre ++ .effect dict (.pieceReceived 0) :: post ∧
        (rowHistory 0 pre).writes = [(16384, 1)] ∧
        ∀ n, ¬ CoversOnce n (rowHistory 0 pre).writes := by
  -- the run is evaluated once: the entry at which the piece is received, and the writes before it
  have hrun : (Sample.runSwarm (Sample.after Sample.resumed [Sample.connect Sample.peer 0])
      Sample.resumedInputs).map (fun s => ((s.log[7]?).any Sample.isReceived,
        (rowHistory 0 (s.log.take 7)).writes)) = some (true, [(16384, 1)]) := by decide +kernel
  obtain ⟨s, hs, hentry⟩ := Option.map_eq_some_iff.1 hrun
  obtain ⟨hreceived, hwrites⟩ := Prod.mk.inj hentry
  obtain ⟨dict, post, hlog⟩ := Sample.exists_received s.log hreceived
  have hreach : (swarmSystem Sample.codec).Reach (fun _ i => ¬ SetsStorage i) s := by
    refine Sample.reach_runSwarm Sample.reach_resumed hs ?_
    intro i hi
    obtain ⟨hplain, hkeeps⟩ := Sample.plain_of_mem_resumedInputs hi
    exact ⟨hplain, fun _ => hkeeps⟩
  refine ⟨s, hreach, _, dict, post, hlog, hwrites, ?_⟩
  intro n hcovers
  rw [hwrites] at hcovers
  -- the first byte of the piece is in no write, and the last one is in one
  have hfirst := hcovers 0
  have hlast := hcovers 16384
  simp only [covers, List.countP_singleton] at hfirst hlast
  norm_num at hfirst hlast
  omega

end Tortillas
