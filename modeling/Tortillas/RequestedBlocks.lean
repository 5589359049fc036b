/-
**Only blocks that have been asked for come back.**

The torrent asks a peer actor for a block by its piece, its offset and its length.  The request waits
in the mailbox, is then pending, perhaps through a choke and a repetition on the wire, and ends when
the remote sends the block, when it is cancelled or when the actor stops.  A block is forwarded to
the torrent only against a pending request, which is then gone.  So the requests that still wait,
together with the blocks that have been forwarded, are never more than the requests that have been
made, whatever the remote sends and in whatever order the actors take their steps.

Main definitions:

* `asks`, `answers` — how often a block has been asked for, and forwarded, in a log;
* `Balanced` — what waits and what has been forwarded is no more than what has been asked for;
* `Forwards` — what justifies that a block is forwarded;
* `AsksBlock` — what justifies that a block is asked for: it is a block of the metadata.

Main results:

* `PeerProcess.Acts.waiting` — a step of a peer actor forwards only what waits no longer;
* `Balanced.postAll`, `Balanced.report` — a round and a step of a peer actor keep the balance;
* `isBlock_of_changes` — what is asked for in a round is a block of the metadata.
-/

import Tortillas.BlockDeeds
import Tortillas.Outstanding
import Tortillas.Transition

set_option relaxedAutoImplicit false
set_option autoImplicit false

namespace Tortillas

variable {H : Type}

/-! ### Requests and answers -/

/-- The torrent asks a peer actor for a block. -/
def Effect.isAsk (ref : ActorRef) (key : BlockKey) : Effect → Bool
  | .tell ref' (.needPiece index start length) =>
      decide (ref' = ref ∧ (index, start, length) = key)
  | _ => false

/-- A block is forwarded to the torrent. -/
def PeerEvent.isBlock (key : BlockKey) : PeerEvent → Bool
  | .incomingPiece _ index offset block => decide ((index, offset, block.length) = key)
  | _ => false

namespace LogEntry

def isAsk (ref : ActorRef) (key : BlockKey) : LogEntry H → Bool
  | .effect _ e => e.isAsk ref key
  | _ => false

/-- A peer actor forwards a block. -/
def isAnswer (ref : ActorRef) (key : BlockKey) : LogEntry H → Bool
  | .told ref' e => decide (ref' = ref) && e.isBlock key
  | _ => false

end LogEntry

/-- How often a peer actor has been asked for a block. -/
def asks (ref : ActorRef) (key : BlockKey) (log : List (LogEntry H)) : ℕ :=
  log.countP (LogEntry.isAsk ref key)

/-- How often a peer actor has forwarded a block. -/
def answers (ref : ActorRef) (key : BlockKey) (log : List (LogEntry H)) : ℕ :=
  log.countP (LogEntry.isAnswer ref key)

/-- Whether a block is pending, as a number. -/
def PeerActor.pendingCount (a : PeerActor) (key : BlockKey) : ℕ :=
  if key ∈ a.pendingBlockRequests then 1 else 0

/-- The number of requests for a block that wait: in the mailbox, or for the remote. -/
def PeerProcess.waiting (p : PeerProcess) (key : BlockKey) : ℕ :=
  p.mailbox.count (.need key) + p.actor.pendingCount key

def Processes.waiting (ps : Processes) (ref : ActorRef) (key : BlockKey) : ℕ :=
  match ps ref with
  | some p => p.waiting key
  | none => 0

/-- What waits and what has been forwarded is no more than what has been asked for. -/
def Balanced (ps : Processes) (log : List (LogEntry H)) : Prop :=
  ∀ ref key, answers ref key log + ps.waiting ref key ≤ asks ref key log

section Counting

variable {ref : ActorRef} {key : BlockKey} {log : List (LogEntry H)}

theorem asks_append (new : List (LogEntry H)) :
    asks ref key (log ++ new) = asks ref key log + asks ref key new := List.countP_append

theorem answers_append (new : List (LogEntry H)) :
    answers ref key (log ++ new) = answers ref key log + answers ref key new := List.countP_append

/-- Effects of the torrent answer nothing. -/
theorem answers_of_effects {new : List (LogEntry H)} (h : ∀ e ∈ new, ∀ ref' e', e ≠ .told ref' e') :
    answers ref key new = 0 := by
  refine List.countP_eq_zero.2 ?_
  intro e he
  cases e with
  | told ref' e' => exact absurd rfl (h _ he ref' e')
  | _ => simp [LogEntry.isAnswer]

/-- Peer actors ask for nothing. -/
theorem asks_map_told (ref' : ActorRef) (es : List PeerEvent) :
    asks ref key (es.map (LogEntry.told (H := H) ref')) = 0 := by
  refine List.countP_eq_zero.2 ?_
  intro e he
  obtain ⟨e', -, rfl⟩ := List.mem_map.1 he
  simp [LogEntry.isAsk]

end Counting

/-! ### A round of the torrent -/

namespace Processes

variable {ps : Processes} {ref : ActorRef} {key : BlockKey}

theorem waiting_of_some {p : PeerProcess} (h : ps ref = some p) : ps.waiting ref key = p.waiting key := by
  rw [waiting, h]

theorem waiting_congr {qs : Processes} (h : qs ref = ps ref) :
    qs.waiting ref key = ps.waiting ref key := by
  rw [waiting, waiting, h]

/-- An effect makes one request more wait if it asks for the block. -/
theorem waiting_post (ps : Processes) (e : Effect) (ref : ActorRef) (key : BlockKey) :
    (ps.post e).waiting ref key ≤ ps.waiting ref key + if e.isAsk ref key then 1 else 0 := by
  cases e with
  | tell ref' command =>
      simp only [post]
      split
      · rename_i p hp
        split
        · exact Nat.le_add_right _ _
        · by_cases href : ref = ref'
          · subst href
            rw [waiting_of_some (Function.update_self ..), waiting_of_some hp]
            simp only [PeerProcess.waiting, List.count_append]
            have hcount : [command].count (.need key) ≤
                if Effect.isAsk ref key (.tell ref command) then 1 else 0 := by
              by_cases hcommand : command = .need key
              · subst hcommand
                simp [Effect.isAsk, PeerCommand.need]
              · rw [List.count_eq_zero.2]
                · exact Nat.zero_le _
                · simpa using fun h => hcommand h.symm
            omega
          · rw [waiting_congr (Function.update_of_ne href ..)]
            exact Nat.le_add_right _ _
      · exact Nat.le_add_right _ _
  | spawn ref' id =>
      simp only [post]
      by_cases href : ref = ref'
      · subst href
        rw [waiting_of_some (Function.update_self ..)]
        -- a new actor has neither mail nor pending requests
        simp [PeerProcess.waiting, PeerActor.pendingCount, PeerActor.new]
      · rw [waiting_congr (Function.update_of_ne href ..)]
        exact Nat.le_add_right _ _
  | _ => exact Nat.le_add_right _ _

end Processes

/-- **The effects of a round keep the balance.** -/
theorem Balanced.postAll {ps : Processes} {log : List (LogEntry H)} (h : Balanced ps log)
    (dict : Option (Info H)) (es : List Effect) :
    Balanced (ps.postAll es) (log ++ es.map (.effect dict)) := by
  induction es generalizing ps log with
  | nil => simpa [Processes.postAll] using h
  | cons e es ih =>
      have hpost : Balanced (ps.post e) (log ++ [.effect dict e]) := by
        intro ref key
        have hold := h ref key
        have hwaiting := ps.waiting_post e ref key
        have hask : asks ref key [LogEntry.effect dict e] = if e.isAsk ref key then 1 else 0 := by
          rw [asks, List.countP_singleton]
          rfl
        have hanswer : answers ref key [LogEntry.effect dict e] = 0 := answers_of_effects (by simp)
        rw [answers_append, asks_append, hask, hanswer]
        omega
      have hrest := ih hpost
      rwa [List.append_assoc] at hrest

/-- What peer actors have no part in keeps the balance. -/
theorem Balanced.append_of_not_told {ps : Processes} {log new : List (LogEntry H)}
    (h : Balanced ps log) (hnew : ∀ e ∈ new, ∀ ref e', e ≠ .told ref e') :
    Balanced ps (log ++ new) := by
  intro ref key
  have hold := h ref key
  rw [answers_append, asks_append, answers_of_effects hnew]
  omega

/-! ### A step of a peer actor -/

theorem answers_map_told {ref ref' : ActorRef} {key : BlockKey} (es : List PeerEvent) :
    answers ref key (es.map (LogEntry.told (H := H) ref')) =
      if ref' = ref then es.countP (PeerEvent.isBlock key) else 0 := by
  rw [answers, List.countP_map]
  split
  · rename_i href
    refine List.countP_congr ?_
    intro e he
    simp [LogEntry.isAnswer, href]
  · rename_i href
    refine List.countP_eq_zero.2 ?_
    intro e he
    simp [LogEntry.isAnswer, href]

/-- Notices and refusals are no blocks. -/
theorem countP_isBlock_eq_zero {key : BlockKey} {es : List PeerEvent}
    (h : ∀ e ∈ es, ∀ p index offset block, e ≠ .incomingPiece p index offset block) :
    es.countP (PeerEvent.isBlock key) = 0 := by
  refine List.countP_eq_zero.2 ?_
  intro e he
  cases e with
  | incomingPiece p index offset block => exact absurd rfl (h _ he p index offset block)
  | _ => simp [PeerEvent.isBlock]

namespace PeerActor

variable {a b : PeerActor} {env : PeerEnv}

theorem pendingCount_of_mem {key : BlockKey} (h : key ∈ a.pendingBlockRequests) :
    a.pendingCount key = 1 := if_pos h

theorem pendingCount_of_notMem {key : BlockKey} (h : key ∉ a.pendingBlockRequests) :
    a.pendingCount key = 0 := if_neg h

theorem pendingCount_mono {key : BlockKey}
    (h : key ∈ b.pendingBlockRequests → key ∈ a.pendingBlockRequests) :
    b.pendingCount key ≤ a.pendingCount key := by
  by_cases hmem : key ∈ b.pendingBlockRequests
  · rw [pendingCount_of_mem hmem, pendingCount_of_mem (h hmem)]
  · rw [pendingCount_of_notMem hmem]
    exact Nat.zero_le _

/-- A command forwards nothing, and only a request makes a block pending. -/
theorem pendingCount_perform (env : PeerEnv) (hout : a.told = []) (command : PeerCommand)
    (key : BlockKey) :
    (a.perform env command).pendingCount key +
        (a.perform env command).told.countP (PeerEvent.isBlock key) ≤
      a.pendingCount key + [command].count (.need key) := by
  obtain ⟨-, ⟨hpending, htold⟩ | ⟨index, start, length, rfl, hpending, htold⟩⟩ :=
    perform_spec env a command
  · rw [htold, hout, List.countP_nil, Nat.add_zero]
    by_cases hmem : key ∈ command.applyTo a.pendingBlockRequests
    · rcases PeerCommand.of_mem_applyTo hmem with hold | rfl
      · exact le_trans (pendingCount_mono fun _ => hold) (Nat.le_add_right _ _)
      · rw [List.count_singleton_self, pendingCount_of_mem (hpending ▸ hmem)]
        exact Nat.le_add_left _ _
    · rw [pendingCount_of_notMem (hpending ▸ hmem)]
      exact Nat.zero_le _
  · rw [htold, hout, countP_isBlock_eq_zero (by simp)]
    exact le_trans (pendingCount_mono fun h => hpending ▸ h) (Nat.le_add_right _ _)

/-- What comes in from the remote is forwarded only if it is pending, and is not pending then. -/
theorem pendingCount_handle {m : PeerMessages} (hout : a.told = []) (h : a.handle env m = some b)
    (key : BlockKey) :
    b.pendingCount key + b.told.countP (PeerEvent.isBlock key) ≤ a.pendingCount key := by
  rcases handle_spec h with
    ⟨index, offset, data, -, hmem, rfl⟩ | ⟨index, offset, length, -, rfl⟩ | hb
  · rw [told_tell]
    change _ + (a.told ++ _).countP _ ≤ _
    rw [hout, List.nil_append, List.countP_singleton]
    by_cases hkey : (index.toNat, offset.toNat, data.length) = key
    · subst hkey
      rw [pendingCount_of_notMem (Finset.notMem_erase _ _), pendingCount_of_mem hmem]
      simp [PeerEvent.isBlock]
    · have hother : PeerEvent.isBlock key
          (.incomingPiece a.id index.toNat offset.toNat data) = false := by
        simp [PeerEvent.isBlock, hkey]
      rw [hother]
      exact pendingCount_mono fun h => Finset.mem_of_mem_erase h
  · change _ + a.told.countP _ ≤ _
    rw [hout]
    exact pendingCount_mono fun h => Finset.mem_of_mem_erase h
  · obtain ⟨es, htold, hes⟩ := hb.told
    rw [htold, hout, List.nil_append, countP_isBlock_eq_zero]
    · exact pendingCount_mono fun h => hb.pending ▸ h
    · rintro e he p index offset block rfl
      cases hes _ he

end PeerActor

/-- **A step of a peer actor forwards only what waits no longer.** -/
theorem PeerProcess.Acts.waiting {p q : PeerProcess} {i : PeerInput} {es : List PeerEvent}
    (h : p.Acts i q es) (key : BlockKey) :
    q.waiting key + es.countP (PeerEvent.isBlock key) ≤ p.waiting key := by
  cases h with
  | @command env command rest a hphase hmail ha =>
      have hstep := PeerActor.pendingCount_perform (a := { p.actor with outbox := [] }) env rfl
        command key
      have hcount : p.mailbox.count (.need key) =
          [command].count (.need key) + rest.count (.need key) := by
        rw [hmail, ← List.count_append]
        rfl
      rw [← ha] at hstep
      change rest.count _ + a.pendingCount key + _ ≤ p.mailbox.count _ + p.actor.pendingCount key
      change _ ≤ p.actor.pendingCount key + _ at hstep
      omega
  | @wire m env a hphase ha =>
      have hstep := PeerActor.pendingCount_handle rfl ha key
      change p.mailbox.count _ + a.pendingCount key + _ ≤
        p.mailbox.count _ + p.actor.pendingCount key
      change _ ≤ p.actor.pendingCount key at hstep
      omega
  | _ =>
      rw [countP_isBlock_eq_zero (by simp)]
      exact Nat.le_refl _

/-- **A step of a peer actor keeps the balance.** -/
theorem Balanced.report {s : Swarm H} {ref : ActorRef} {p q : PeerProcess} {i : PeerInput}
    {es : List PeerEvent} (h : Balanced s.processes s.log) (hp : s.processes ref = some p)
    (hacts : p.Acts i q es) : Balanced (s.report ref q es).processes (s.report ref q es).log := by
  intro ref' key
  have hold := h ref' key
  have hlog : (s.report ref q es).log = s.log ++ es.map (.told ref) := rfl
  rw [hlog, answers_append, asks_append, asks_map_told, answers_map_told]
  by_cases href : ref' = ref
  · subst href
    have hstep := hacts.waiting key
    rw [Processes.waiting_of_some hp] at hold
    rw [Processes.waiting_of_some (s.processes_report_self ..), if_pos rfl]
    omega
  · rw [Processes.waiting_congr (s.processes_report_of_ne q es href), if_neg (Ne.symm href)]
    omega

/-! ### What is asked for -/

/-- A block of a piece, by its offset and its length. -/
def Info.IsBlock (info : Info H) (index offset length : ℕ) : Prop :=
  index < info.pieceCount ∧
    ∃ j, j * blockSize < info.pieceLen index ∧ (index, offset, length) = info.blockKey index j

/-- What is asked for is a block of the metadata. -/
def LogEntry.AsksBlock : LogEntry H → Prop
  | .effect dict (.tell _ (.needPiece index offset length)) =>
      ∃ info, dict = some info ∧ info.IsBlock index offset length
  | _ => True

/-- The scheduler has no pieces, or those of the metadata. -/
def TorrentActor.KnowsPieces (t : TorrentActor H) : Prop :=
  t.pieceScheduler.completedPieces = [] ∨
    t.pieceScheduler.completedPieces.length = t.pieceCount

section Asking

variable {t u : TorrentActor H} {R : ℕ → ℕ → ℕ → Prop}

theorem TorrentActor.BitsInv.knowsPieces (h : t.BitsInv) : t.KnowsPieces := by
  rcases h.scheduler with hagree | hunset
  · refine Or.inr ?_
    rw [hagree.bits]
    exact h.fits
  · exact Or.inl hunset.bits

theorem TorrentActor.KnowsPieces.deed (h : t.KnowsPieces) (hdeed : TorrentActor.Deed R t u) :
    u.KnowsPieces := by
  have hlen := hdeed.length_completedPieces
  refine h.imp ?_ ?_
  · intro hnil
    rw [hnil] at hlen
    exact List.eq_nil_of_length_eq_zero hlen
  · intro hcount
    rw [hlen, hcount, TorrentActor.pieceCount, TorrentActor.pieceCount, hdeed.infoDict]

theorem Effect.IsPlain.asksBlock {e : Effect} (h : e.IsPlain) (dict : Option (Info H)) :
    (LogEntry.effect dict e).AsksBlock := by
  cases e with
  | tell ref command =>
      cases command with
      | needPiece => exact h.elim
      | _ => trivial
  | _ => trivial

/-- A request is for a block of the metadata. -/
theorem TorrentActor.IsRequest.asksBlock {e : Effect} (h : t.IsRequest e) (hknows : t.KnowsPieces) :
    (LogEntry.effect t.infoDict e).AsksBlock := by
  cases h with
  | choke => trivial
  | @need p ref info r hp hinfo hr =>
      have hlen : t.pieceScheduler.completedPieces.length = info.pieceCount := by
        rcases hknows with hnil | hlen
        · have hpiece := hr.piece
          rw [hnil] at hpiece
          cases hpiece
        · rw [hlen, TorrentActor.pieceCount, hinfo]
          rfl
      obtain ⟨hpiece, hblock, hkey⟩ := hr.key hlen
      exact ⟨info, hinfo, hpiece, r.blockIndex, hblock, hkey⟩

/-- **What a round asks for is a block of the metadata.** -/
theorem asksBlock_of_deeds (h : TorrentActor.Deeds R { t with outbox := [] } u)
    (hknows : t.KnowsPieces) :
    u.infoDict = t.infoDict ∧ u.KnowsPieces ∧
      ∀ e ∈ u.outbox, (LogEntry.effect t.infoDict e).AsksBlock := by
  refine h.invariant (I := fun u => u.infoDict = t.infoDict ∧ u.KnowsPieces ∧
    ∀ e ∈ u.outbox, (LogEntry.effect t.infoDict e).AsksBlock) ?_ ?_
  · rintro u v hdeed ⟨hinfo, hknows, hold⟩
    refine ⟨hdeed.infoDict.trans hinfo, hknows.deed hdeed, ?_⟩
    -- what has been sent before, and what the deed sends
    have happend : ∀ {new : List Effect}, v.outbox = u.outbox ++ new →
        (∀ e ∈ new, (LogEntry.effect t.infoDict e).AsksBlock) →
        ∀ e ∈ v.outbox, (LogEntry.effect t.infoDict e).AsksBlock := by
      intro new hout hnew e he
      rw [hout] at he
      rcases List.mem_append.1 he with he | he
      · exact hold e he
      · exact hnew e he
    cases hdeed with
    | tells h =>
        obtain ⟨new, hout, hnew⟩ := h.sent
        exact happend hout fun e he => (hnew e he).asksBlock _
    | request h =>
        obtain ⟨new, hout, hnew, -⟩ := h.sent
        refine happend hout fun e he => ?_
        rw [← hinfo]
        exact (hnew e he).asksBlock hknows
    | record p sent ha hR =>
        obtain ⟨new, hout, hnew⟩ := TorrentActor.outbox_recorded p _ _ _ _ sent u
        refine happend hout fun e he => ?_
        rcases hnew e he with rfl | rfl | ⟨q, ref, -, rfl⟩
        · trivial
        · trivial
        · trivial
    | receive h =>
        refine happend rfl fun e he => ?_
        rw [List.mem_singleton.1 he]
        trivial
    | complete index => exact hold
  · exact ⟨rfl, hknows, fun e he => absurd he List.not_mem_nil⟩

theorem asksBlock_of_step [DecidableEq H] {c : Codec H} (hknows : t.KnowsPieces)
    (i : TorrentActor.Input c) :
    ∀ e ∈ (t.step i).outbox, (LogEntry.effect t.infoDict e).AsksBlock := by
  rcases TorrentActor.step_deeds t i with
    ⟨v, u, -, hdeeds, -, heq⟩ | ⟨-, hdeeds | ⟨u, info, env, hdeeds, -, heq⟩⟩
  · rw [heq]
    exact (asksBlock_of_deeds hdeeds hknows).2.2
  · exact (asksBlock_of_deeds hdeeds hknows).2.2
  · rw [heq]
    intro e he
    rcases List.mem_append.1 he with he | he
    · exact (asksBlock_of_deeds hdeeds hknows).2.2 e he
    · obtain ⟨q, ref, -, rfl⟩ := TorrentActor.mem_told he
      trivial

end Asking

/-! ### Runs -/

/-- A block is forwarded when it has been asked for more often than it has been forwarded. -/
def Forwards (pre : List (LogEntry H)) : LogEntry H → Prop
  | .told ref (.incomingPiece _ index offset block) =>
      answers ref (index, offset, block.length) pre < asks ref (index, offset, block.length) pre
  | _ => True

/-- **Every block that is forwarded has been asked for.** -/
structure Asked (s : Swarm H) : Prop where
  balanced : Balanced s.processes s.log
  forwards : Justified Forwards s.log
  blocks : ∀ e ∈ s.log, e.AsksBlock
  inbox : ∀ m ∈ s.inbox, .told m.1 m.2 ∈ s.log

namespace Asked

variable {s : Swarm H}

/-- What stands in the log before a block that is forwarded. -/
theorem answer (h : Asked s) {pre post : List (LogEntry H)} {ref : ActorRef} {p : PeerId}
    {index offset : ℕ} {block : Bytes}
    (hlog : s.log = pre ++ .told ref (.incomingPiece p index offset block) :: post) :
    answers ref (index, offset, block.length) pre < asks ref (index, offset, block.length) pre ∧
      ∃ info, .effect (some info) (.tell ref (.needPiece index offset block.length)) ∈ pre ∧
        info.IsBlock index offset block.length := by
  have hlt := h.forwards pre _ post hlog
  refine ⟨hlt, ?_⟩
  obtain ⟨e, he, hask⟩ := List.countP_pos_iff.1 (Nat.zero_lt_of_lt hlt)
  have hblock := h.blocks e (by rw [hlog]; exact List.mem_append_left _ he)
  cases e with
  | effect dict e =>
      cases e with
      | tell ref' command =>
          cases command with
          | needPiece index' offset' length' =>
              simp only [LogEntry.isAsk, Effect.isAsk, decide_eq_true_eq, Prod.mk.injEq] at hask
              obtain ⟨rfl, rfl, rfl, rfl⟩ := hask
              obtain ⟨info, rfl, hinfo⟩ := hblock
              exact ⟨info, he, hinfo⟩
          | _ => cases hask
      | _ => cases hask
  | _ => cases hask

/-- A step of a peer actor. -/
theorem report {ref : ActorRef} {p q : PeerProcess} {i : PeerInput} {es : List PeerEvent}
    (h : Asked s) (hp : s.processes ref = some p) (hacts : p.Acts i q es) :
    Asked (s.report ref q es) := by
  have hbalanced := h.balanced.report hp hacts
  refine ⟨hbalanced, ?_, ?_, ?_⟩
  · refine justified_append.2 ⟨h.forwards, ?_⟩
    intro mid e post hnew
    cases e with
    | told ref' e =>
        cases e with
        | incomingPiece id index offset block =>
            -- the answers up to here are among all answers, and nothing is asked for in between
            have hall := hbalanced ref' (index, offset, block.length)
            have hlog : (s.report ref q es).log = s.log ++ es.map (.told ref) := rfl
            have hasks : asks ref' (index, offset, block.length) (es.map (LogEntry.told (H := H) ref)) =
                0 := asks_map_told ref es
            have hmid : asks ref' (index, offset, block.length) mid = 0 := by
              rw [hnew, asks_append] at hasks
              omega
            have hthis : answers ref' (index, offset, block.length) (es.map (LogEntry.told (H := H) ref))
                ≥ answers ref' (index, offset, block.length) mid + 1 := by
              rw [hnew, answers_append]
              have hone : 0 < answers ref' (index, offset, block.length)
                  (LogEntry.told (H := H) ref' (.incomingPiece id index offset block) :: post) :=
                List.countP_pos_iff.2 ⟨_, List.mem_cons_self .., by
                  simp [LogEntry.isAnswer, PeerEvent.isBlock]⟩
              omega
            rw [hlog, answers_append, asks_append, hasks] at hall
            change answers _ _ (s.log ++ mid) < asks _ _ (s.log ++ mid)
            rw [answers_append, asks_append, hmid]
            omega
        | _ => trivial
    | _ => trivial
  · intro e he
    rcases List.mem_append.1 he with he | he
    · exact h.blocks e he
    · obtain ⟨e', -, rfl⟩ := List.mem_map.1 he
      trivial
  · intro m hm
    rcases List.mem_append.1 hm with hm | hm
    · exact List.mem_append_left _ (h.inbox m hm)
    · obtain ⟨e, he, rfl⟩ := List.mem_map.1 hm
      exact List.mem_append_right _ (List.mem_map_of_mem he)

/-- A round of the torrent. -/
theorem round [DecidableEq H] {c : Codec H} (h : Asked s) (hbits : s.torrent.BitsInv)
    {rest : List (ActorRef × PeerEvent)} (hrest : ∀ m ∈ rest, m ∈ s.inbox)
    (i : TorrentActor.Input c) : Asked ({ s with inbox := rest }.round i) := by
  have hlog : ({ s with inbox := rest }.round i).log =
      s.log ++ Swarm.roundLog s.torrent.infoDict i (s.torrent.step i).outbox := rfl
  have hnew : ∀ e ∈ Swarm.roundLog s.torrent.infoDict i (s.torrent.step i).outbox,
      ∀ ref e', e ≠ .told ref e' := by
    rintro e he ref e' rfl
    rcases List.mem_append.1 he with he | he
    · obtain ⟨e, -, heq⟩ := List.mem_map.1 he
      cases heq
    · obtain ⟨rows, -, heq⟩ := Option.map_eq_some_iff.1 (Option.mem_toList.1 he)
      cases heq
  refine ⟨?_, ?_, ?_, ?_⟩
  · rw [hlog, Swarm.roundLog, ← List.append_assoc]
    exact (h.balanced.postAll s.torrent.infoDict (s.torrent.step i).outbox).append_of_not_told
      fun e he => hnew e (List.mem_append_right _ he)
  · rw [hlog]
    refine h.forwards.append_of_forall ?_
    intro e he mid _
    cases e with
    | told ref e' => exact absurd rfl (hnew _ he ref e')
    | _ => trivial
  · intro e he
    rw [hlog] at he
    rcases List.mem_append.1 he with he | he
    · exact h.blocks e he
    · rcases List.mem_append.1 he with he | he
      · obtain ⟨e', he', rfl⟩ := List.mem_map.1 he
        exact asksBlock_of_step hbits.knowsPieces i e' he'
      · obtain ⟨rows, -, rfl⟩ := Option.map_eq_some_iff.1 (Option.mem_toList.1 he)
        trivial
  · intro m hm
    exact List.mem_append_left _ (h.inbox m (hrest m hm))

end Asked

/-- **In every run, every block that is forwarded has been asked for.** -/
theorem asked_of_reach [DecidableEq H] {c : Codec H} {G : Swarm H → SwarmInput c → Prop}
    {s : Swarm H} (h : (swarmSystem c).Reach G s) : Asked s := by
  refine h.strengthen (J := fun s : Swarm H => s.torrent.BitsInv) ?_ ?_ ?_
  · exact fun s hs => TorrentActor.bitsInv_of_reach (torrent_of_reach hs)
  · rintro s ⟨-, hprocesses, hinbox, hlog⟩
    refine ⟨?_, ?_, ?_, ?_⟩
    · intro ref key
      rw [hlog, Processes.waiting, hprocesses]
      exact Nat.le_refl _
    · rw [hlog]
      exact justified_nil
    · rw [hlog]
      exact fun e he => absurd he List.not_mem_nil
    · rw [hinbox]
      exact fun m hm => absurd hm List.not_mem_nil
  · rintro s i t hbits hs - ⟨-, happly⟩
    rcases (Swarm.moves_of_apply happly).cases with
      ⟨j, rest, -, hrest, rfl⟩ | ⟨ref, j, p, q, es, -, hp, hacts, rfl⟩
    · exact hs.round hbits (fun m hm => hrest.subset hm) j
    · exact hs.report hp hacts

end Tortillas
