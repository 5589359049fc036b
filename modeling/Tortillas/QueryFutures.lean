/-
**Queries of the DHT whose tasks are aborted.**

`dht/transport.rs`, `DhtTransport::query`: a query takes an id from the table, sends its datagram, and
waits for the result or for the timeout.  When sending fails, and after the timeout, it takes its id
out of the table again; a response takes it out too.  The bootstrap, the lookups and the announcements
make queries, from tasks that the DHT actor aborts when a torrent is registered again or unregistered,
when an announcement is replaced, and when it stops.

An aborted task is dropped where it waits, and the rest of its code does not run.  A query that had
taken an id leaves it in the table.

Main definitions:

* `DhtSystem.Aborts` — the step aborts a task;
* `QuerySystem` — the DHT actor with its tasks, the table and the queries that are alive;
* `QuerySystem.Owned` — every entry of the table belongs to a query that is alive;
* `QuerySystem.Spares` — the step aborts no task with a query that is in the table.

Main results:

* `DhtSystem.get?_next_iff` — which tasks a step of the DHT actor leaves;
* `QuerySystem.Owned.next_iff` — a step leaks no id exactly when it meets the condition;
* `dht_transactions_owned` — **no id leaks**, in every run whose steps meet the condition;
* `aborted_lookup_leaks_id` — a torrent is unregistered while it is looked up.
-/

import Tortillas.DhtTasks
import Tortillas.Transactions

set_option relaxedAutoImplicit false
set_option autoImplicit false

namespace Tortillas

variable {H : Type} [DecidableEq H]

/-! ### The tasks that a step aborts -/

namespace DhtSystem

variable {s : DhtSystem H} {c : Codec H} {task : ℕ} {work : DhtTask H}

/-- `remove_torrent_registration` aborts the task. -/
def RemovalAborts (s : DhtSystem H) (infoHash : H) (task : ℕ) : Prop :=
  s.lookupTasks.get? infoHash = some task ∨ s.announceTasks.get? infoHash = some task

/-- `start_lookup` aborts the task. -/
def LookupAborts (s : DhtSystem H) (infoHash : H) (task : ℕ) : Prop :=
  s.torrents.contains infoHash = true ∧ s.lookupTasks.get? infoHash = some task

/-- Handling the message aborts the task. -/
def MessageAborts (s : DhtSystem H) (task : ℕ) : DhtMessage H → Prop
  | .registerTorrent infoHash _ _ => s.lookupTasks.get? infoHash = some task
  | .unregisterTorrent infoHash => s.RemovalAborts infoHash task
  | .lookupTorrent _ => False
  | .refreshTorrents => ∃ infoHash, s.LookupAborts infoHash task
  | .lookupFinished infoHash result => s.announceTasks.get? infoHash = some task ∧
      ∃ torrent, s.torrents.get? infoHash = some torrent ∧
        (result.peers = [] ∨ s.alive torrent.actor = true)

/-- Going on with the answer aborts the task. -/
def AnswerAborts (s : DhtSystem H) (infoHash : H) (task : ℕ) :
    Except String (Option (Info H)) → Prop
  | .ok (some info) =>
      if info.isPrivate.getD false then s.RemovalAborts infoHash task
      else s.LookupAborts infoHash task
  | .ok none => s.LookupAborts infoHash task
  | .error _ => s.RemovalAborts infoHash task

/-- The step aborts the task. -/
def Aborts (s : DhtSystem H) (task : ℕ) : DhtEvent H → Prop
  | .handle => s.asking = none ∧
      ∃ message, s.mailbox.head? = some message ∧ s.MessageAborts task message
  | .resume => ∃ infoHash actor answer, s.asking = some ⟨infoHash, actor, some answer⟩ ∧
      s.AnswerAborts infoHash task answer
  | _ => False

theorem get?_startLookup_iff (infoHash : H) (hlt : task < s.nextTask) :
    (s.startLookup infoHash).1.tasks.get? task = some work ↔
      s.tasks.get? task = some work ∧ ¬ s.LookupAborts infoHash task := by
  have hspawn (new : DhtTask H) :
      ((s.abort s.lookupTasks infoHash).insert s.nextTask new).get? task = some work ↔
        s.tasks.get? task = some work ∧ ¬ s.lookupTasks.get? infoHash = some task := by
    rw [HashMap.get?_insert_of_ne (Nat.ne_of_lt hlt), get?_abort]
    split
    · rename_i h
      simp [h]
    · rename_i h
      simp [h]
  unfold startLookup LookupAborts
  split
  · rename_i hregistered
    simp only [hregistered, true_and]
    split
    · exact hspawn _
    · exact hspawn _
  · rename_i hregistered
    simp [hregistered]

theorem startLookup_nextTask_le (s : DhtSystem H) (infoHash : H) :
    s.nextTask ≤ (s.startLookup infoHash).1.nextTask := by
  unfold startLookup
  split
  · dsimp only
    split
    · exact Nat.le_succ _
    · exact Nat.le_succ _
  · exact le_refl _

/-- The handle of an earlier task stays in the table of lookups until its own hash is looked up. -/
theorem lookupAborts_startLookup_iff {infoHash other : H} (hlt : task < s.nextTask)
    (hne : ¬ s.LookupAborts infoHash task) :
    (s.startLookup infoHash).1.LookupAborts other task ↔ s.LookupAborts other task := by
  have hspawn (new : DhtTask H) (hregistered : s.torrents.contains infoHash = true) :
      ((s.lookupTasks.erase infoHash).insert infoHash s.nextTask).get? other = some task ↔
        s.lookupTasks.get? other = some task := by
    by_cases hother : other = infoHash
    · subst hother
      have hnone : ¬ s.lookupTasks.get? other = some task := fun h => hne ⟨hregistered, h⟩
      simp only [HashMap.get?_insert_self, Option.some.injEq, hnone, iff_false]
      omega
    · rw [HashMap.get?_insert_of_ne hother, HashMap.get?_erase_of_ne hother]
  unfold startLookup
  split
  · rename_i hregistered
    dsimp only
    split
    · exact and_congr Iff.rfl (hspawn (.lookup infoHash) hregistered)
    · exact and_congr Iff.rfl (hspawn (.timer infoHash) hregistered)
  · exact Iff.rfl

theorem get?_refreshAll_iff (infoHashes : List H) (hlt : task < s.nextTask) :
    (s.refreshAll infoHashes).1.tasks.get? task = some work ↔
      s.tasks.get? task = some work ∧ ∀ infoHash ∈ infoHashes, ¬ s.LookupAborts infoHash task := by
  induction infoHashes generalizing s with
  | nil => simp [refreshAll]
  | cons infoHash infoHashes ih =>
      have hlater : task < (s.startLookup infoHash).1.nextTask :=
        lt_of_lt_of_le hlt (startLookup_nextTask_le s infoHash)
      have hrest := ih hlater
      have hfirst : (s.startLookup infoHash).1.tasks.get? task = some work ↔
          s.tasks.get? task = some work ∧ ¬ s.LookupAborts infoHash task :=
        get?_startLookup_iff infoHash hlt
      simp only [refreshAll, List.forall_mem_cons]
      rw [hrest, hfirst, and_assoc]
      refine and_congr_right fun _ => and_congr_right fun hne => ?_
      refine forall₂_congr fun other _ => not_congr ?_
      exact lookupAborts_startLookup_iff hlt hne

theorem get?_removeTorrentRegistration_iff (infoHash : H) :
    (s.removeTorrentRegistration infoHash).tasks.get? task = some work ↔
      s.tasks.get? task = some work ∧ ¬ s.RemovalAborts infoHash task := by
  simp only [removeTorrentRegistration, get?_abort, RemovalAborts, not_or]
  split
  · rename_i hannounce
    simp [hannounce]
  · rename_i hannounce
    split
    · rename_i hlookup
      simp [hlookup]
    · rename_i hlookup
      simp [hannounce, hlookup]

theorem get?_lookupFinished_iff (infoHash : H) (result : LookupResult) (hlt : task < s.nextTask) :
    (s.lookupFinished infoHash result).1.tasks.get? task = some work ↔
      s.tasks.get? task = some work ∧ ¬ s.MessageAborts task (.lookupFinished infoHash result) := by
  unfold lookupFinished MessageAborts
  dsimp only
  cases htorrent : s.torrents.get? infoHash with
  | none => simp
  | some torrent =>
      simp only [Option.some.injEq, exists_eq_left']
      split
      · rename_i hdead
        simp only [Bool.and_eq_true, Bool.not_eq_true', List.isEmpty_eq_false_iff] at hdead
        have halive : s.alive torrent.actor = false := hdead.2
        simp [hdead.1, halive]
      · rename_i hdead
        have hgoes : result.peers = [] ∨ s.alive torrent.actor = true := by
          by_contra hno
          rw [not_or] at hno
          refine hdead ?_
          have halive : s.alive torrent.actor = false := eq_false_of_ne_true hno.2
          simp only [Bool.and_eq_true, Bool.not_eq_true', List.isEmpty_eq_false_iff]
          exact ⟨hno.1, halive⟩
        simp only [scheduleLookup, spawnLookup, hgoes, and_true]
        rw [HashMap.get?_insert_of_ne (by omega), HashMap.get?_insert_of_ne (by omega), get?_abort]
        split
        · rename_i h
          simp [h]
        · rename_i h
          simp [h]

theorem get?_handleMessage_iff (message : DhtMessage H) (hlt : task < s.nextTask) :
    (s.handleMessage message).1.tasks.get? task = some work ↔
      s.tasks.get? task = some work ∧ ¬ s.MessageAborts task message := by
  cases message with
  | registerTorrent infoHash actor port =>
      refine (get?_startLookup_iff (s := { s with
        torrents := s.torrents.insert infoHash ⟨actor, port⟩ }) infoHash hlt).trans ?_
      simp [LookupAborts, MessageAborts, HashMap.contains]
  | unregisterTorrent infoHash => exact get?_removeTorrentRegistration_iff infoHash
  | lookupTorrent infoHash =>
      simp only [handleMessage, (lookupTorrent_sameTasks s infoHash).tasks, MessageAborts,
        not_false_eq_true, and_true]
  | refreshTorrents =>
      refine (get?_refreshAll_iff _ hlt).trans (and_congr_right fun _ => ?_)
      simp only [MessageAborts, not_exists]
      constructor
      · intro h infoHash haborts
        obtain ⟨torrent, htorrent⟩ := Option.isSome_iff_exists.1 haborts.1
        exact h infoHash (List.mem_map.2 ⟨_, HashMap.mem_toList_iff.2 htorrent, rfl⟩) haborts
      · intro h infoHash _
        exact h infoHash
  | lookupFinished infoHash result => exact get?_lookupFinished_iff infoHash result hlt

theorem get?_lookupAnswered_iff (infoHash : H) (answer : Except String (Option (Info H)))
    (hlt : task < s.nextTask) :
    (s.lookupAnswered infoHash answer).1.tasks.get? task = some work ↔
      s.tasks.get? task = some work ∧ ¬ s.AnswerAborts infoHash task answer := by
  cases answer with
  | error error => exact get?_removeTorrentRegistration_iff infoHash
  | ok known =>
      cases known with
      | none => exact get?_startLookup_iff infoHash hlt
      | some info =>
          simp only [lookupAnswered, AnswerAborts]
          split
          · exact get?_removeTorrentRegistration_iff infoHash
          · exact get?_startLookup_iff infoHash hlt

/-- **Which tasks a step leaves**: all but those that it aborts, and the one that is done. -/
theorem get?_next_iff (event : DhtEvent H) (hfinish : ∀ result, event ≠ .finish task result)
    (hlt : task < s.nextTask) :
    (s.next c event).tasks.get? task = some work ↔
      s.tasks.get? task = some work ∧ ¬ s.Aborts task event := by
  by_cases hmoves : MovesTasks event
  · cases event with
    | finish done result =>
        have hne : task ≠ done := fun heq => hfinish result (heq ▸ rfl)
        simp only [next, step, finishTask, Aborts, not_false_eq_true, and_true]
        split
        · exact Iff.rfl
        · rw [HashMap.get?_erase_of_ne hne]
    | handle =>
        simp only [next, step, Aborts]
        split
        · rename_i message mailbox hnone hmailbox
          refine (get?_handleMessage_iff (s := { s with mailbox }) message hlt).trans ?_
          have hhead : s.mailbox.head? = some message := by rw [hmailbox]; rfl
          simp only [true_and, hnone, hhead, Option.some.injEq, exists_eq_left']
          cases message <;> exact Iff.rfl
        · rename_i hother
          have hidle : ¬ (s.asking = none ∧ ∃ message, s.mailbox.head? = some message ∧
              s.MessageAborts task message) := by
            rintro ⟨hnone, message, hhead, -⟩
            obtain ⟨mailbox, hmailbox⟩ := List.head?_eq_some_iff.1 hhead
            exact hother message mailbox hnone hmailbox
          simp only [hidle, not_false_eq_true, and_true]
    | resume =>
        simp only [next, step, Aborts]
        split
        · rename_i infoHash actor answer hasking
          rw [get?_lookupAnswered_iff (s := { s with asking := none }) infoHash answer hlt]
          refine and_congr_right fun _ => ?_
          simp only [hasking, Option.some.injEq, DhtQuestion.mk.injEq]
          refine not_congr ⟨fun h => ⟨infoHash, actor, answer, ⟨rfl, rfl, rfl⟩, h⟩, ?_⟩
          rintro ⟨_, _, _, ⟨rfl, rfl, rfl⟩, h⟩
          exact h
        · rename_i hother
          have hidle : ¬ ∃ infoHash actor answer, s.asking = some ⟨infoHash, actor, some answer⟩ ∧
              s.AnswerAborts infoHash task answer := by
            rintro ⟨infoHash, actor, answer, hasking, -⟩
            exact hother infoHash actor answer hasking
          simp only [hidle, not_false_eq_true, and_true]
    | _ => exact absurd hmoves id
  · rw [(next_sameTasks s hmoves).tasks]
    cases event with
    | handle => exact absurd trivial hmoves
    | resume => exact absurd trivial hmoves
    | _ => simp [Aborts]

theorem startLookup_bootstrapping (s : DhtSystem H) (infoHash : H) :
    (s.startLookup infoHash).1.bootstrapping = s.bootstrapping := by
  unfold startLookup
  split
  · dsimp only
    split <;> rfl
  · rfl

theorem handleMessage_bootstrapping (s : DhtSystem H) (message : DhtMessage H) :
    (s.handleMessage message).1.bootstrapping = s.bootstrapping := by
  cases message with
  | registerTorrent infoHash actor port => exact startLookup_bootstrapping _ infoHash
  | unregisterTorrent infoHash => rfl
  | lookupTorrent infoHash =>
      simp only [handleMessage, lookupTorrent]
      split <;> rfl
  | refreshTorrents =>
      exact refreshAll_keeps_of (I := fun s' => s'.bootstrapping = s.bootstrapping)
        (fun s' h hs => (startLookup_bootstrapping s' h).trans hs) rfl _
  | lookupFinished infoHash result =>
      rcases lookupFinished_cases s infoHash result with ⟨torrents, heq⟩ | heq
      · exact heq ▸ rfl
      · exact heq ▸ rfl

/-- The bootstrap goes on until it is done. -/
theorem next_bootstrapping (s : DhtSystem H) {event : DhtEvent H} (h : event ≠ .bootstrapped) :
    (s.next c event).bootstrapping = s.bootstrapping := by
  have hcreate (metainfo : MetaInfo H) (resolved : Option (Info H)) (port : Option ℕ) :
      (s.createTorrent c metainfo resolved port).bootstrapping = s.bootstrapping := by
    unfold createTorrent
    split
    · rfl
    · split <;> rfl
  cases event with
  | add metainfo port => exact hcreate metainfo none port
  | restore snapshot port =>
      simp only [next, step]
      split
      · rfl
      · exact hcreate _ _ port
  | remove infoHash =>
      simp only [next, step]
      split <;> rfl
  | resolve actor info => rfl
  | stop actor => rfl
  | route seeds => rfl
  | bootstrapped => exact absurd rfl h
  | finish task result =>
      simp only [next, step, finishTask]
      split <;> rfl
  | handle =>
      simp only [next, step]
      split
      · exact handleMessage_bootstrapping _ _
      · rfl
  | answer =>
      simp only [next, step]
      split <;> rfl
  | resume =>
      simp only [next, step]
      split
      · exact lookupAnswered_keeps_of (s := { s with asking := none })
          (I := fun s' => s'.bootstrapping = s.bootstrapping) (startLookup_bootstrapping _ _) rfl _
      · rfl

/-- `on_stop`: the bootstrap and the tasks with a handle are aborted. -/
def onStop (s : DhtSystem H) : DhtSystem H :=
  { s with
    bootstrapping := false
    tasks := s.tasks.retain fun task work =>
      if s.lookupTasks.toList.any (fun e => e.2 == task) ||
        s.announceTasks.toList.any (fun e => e.2 == task) then none else some work
    lookupTasks := ∅
    announceTasks := ∅ }

theorem any_handle_iff (table : HashMap H ℕ) :
    table.toList.any (fun e => e.2 == task) = true ↔ ∃ infoHash, table.get? infoHash = some task := by
  rw [List.any_eq_true]
  constructor
  · rintro ⟨⟨infoHash, handle⟩, hmem, heq⟩
    cases eq_of_beq heq
    exact ⟨infoHash, HashMap.mem_toList_iff.1 hmem⟩
  · rintro ⟨infoHash, h⟩
    exact ⟨(infoHash, task), HashMap.mem_toList_iff.2 h, BEq.rfl⟩

theorem get?_onStop_iff :
    s.onStop.tasks.get? task = some work ↔
      s.tasks.get? task = some work ∧ ∀ infoHash, ¬ s.RemovalAborts infoHash task := by
  simp only [onStop, HashMap.get?_retain, RemovalAborts, Option.bind_eq_some_iff]
  constructor
  · rintro ⟨old, hold, hkept⟩
    split at hkept
    · cases hkept
    · rename_i hhandles
      cases hkept
      refine ⟨hold, ?_⟩
      rintro infoHash (h | h)
      · exact hhandles (by simp [(any_handle_iff s.lookupTasks).2 ⟨infoHash, h⟩])
      · exact hhandles (by simp [(any_handle_iff s.announceTasks).2 ⟨infoHash, h⟩])
  · rintro ⟨hwork, hnone⟩
    refine ⟨work, hwork, if_neg ?_⟩
    rw [Bool.or_eq_true, any_handle_iff, any_handle_iff]
    rintro (⟨infoHash, h⟩ | ⟨infoHash, h⟩)
    · exact hnone infoHash (.inl h)
    · exact hnone infoHash (.inr h)

theorem Numbered.onStop (hs : s.Numbered) : s.onStop.Numbered :=
  hs.of_sub rfl (fun _ _ h => (get?_onStop_iff.1 h).1) fun _ _ h => (nomatch h)

end DhtSystem

/-! ### Queries that are alive -/

/-- Where a query waits, in `DhtTransport::query`. -/
inductive QueryStage
  /-- For its datagram to be sent. -/
  | sending
  /-- For the result or the timeout. -/
  | waiting
  /-- For the lock of the table, to take its id out. -/
  | cancelling
  deriving DecidableEq

inductive QueryOwner
  | bootstrap
  | task (number : ℕ)
  deriving DecidableEq

structure QueryFuture where
  owner : QueryOwner
  stage : QueryStage

structure QuerySystem (H : Type) where
  dht : DhtSystem H
  /-- The DHT actor did not stop. -/
  running : Bool
  transactions : Transactions
  /-- The queries that have taken an id and are alive, by the number of their receiver. -/
  futures : HashMap ℕ QueryFuture

inductive QueryEvent (H : Type)
  | dht (event : DhtEvent H)
  /-- The DHT actor stops. -/
  | stop
  /-- A task begins a query. -/
  | query (owner : QueryOwner) (addr : SocketAddr)
  /-- The datagram of a query was sent, or could not be. -/
  | sent (future : ℕ) (ok : Bool)
  | timeout (future : ℕ)
  | cancel (future : ℕ)
  | receive (future : ℕ)
  /-- The DHT actor handles a datagram. -/
  | datagram (message : Krpc.Message) (source : SocketAddr)

/-- The owner of a query runs. -/
def DhtSystem.runs (s : DhtSystem H) : QueryOwner → Bool
  | .bootstrap => s.bootstrapping
  | .task number => s.tasks.contains number

/-- The owner makes queries: a timer does not. -/
def DhtSystem.queries (s : DhtSystem H) : QueryOwner → Bool
  | .bootstrap => s.bootstrapping
  | .task number =>
      match s.tasks.get? number with
      | some (.lookup _) => true
      | some (.announce _) => true
      | _ => false

namespace QuerySystem

def init (nextId : UInt16) (bootstrapping : Bool) : QuerySystem H :=
  ⟨.init bootstrapping, true, .init nextId, ∅⟩

/-- The sender of the channel is in the table. -/
def hasEntry (s : QuerySystem H) (future : ℕ) : Bool :=
  s.transactions.table.pending.toList.any fun e => e.2.reply == future

/-- There is something to receive: a result, or the sender is gone. -/
def ready (s : QuerySystem H) (future : ℕ) : Bool :=
  !s.hasEntry future || (s.transactions.receivers[future]?.map fun r => !r.results.isEmpty).getD false

/-- The owner has queries that are not done. -/
def busy (s : QuerySystem H) (owner : QueryOwner) : Bool :=
  s.futures.toList.any fun e => e.2.owner == owner

/-- The queries of tasks that run no longer are dropped. -/
def settle (s : QuerySystem H) (dht : DhtSystem H) : QuerySystem H :=
  { s with
    dht
    futures := s.futures.retain fun _ f => if dht.runs f.owner then some f else none
    transactions := s.transactions.next
      (.drop ((s.futures.toList.filter fun e => !dht.runs e.2.owner).map Prod.fst)) }

/-- The query returns. -/
def endFuture (s : QuerySystem H) (future : ℕ) : QuerySystem H :=
  { s with
    futures := s.futures.erase future
    transactions := s.transactions.next (.drop [future]) }

/-- The DHT actor does nothing once it has stopped, and a task is not done before its queries are. -/
def enabled (s : QuerySystem H) : DhtEvent H → Bool
  | .handle => s.running
  | .resume => s.running
  | .finish task _ => !s.busy (.task task)
  | .bootstrapped => !s.busy .bootstrap
  | _ => true

def next (c : Codec H) (s : QuerySystem H) : QueryEvent H → QuerySystem H
  | .dht event => if s.enabled event then s.settle (s.dht.next c event) else s
  | .stop => if s.running then { s.settle s.dht.onStop with running := false } else s
  | .query owner addr =>
      if s.dht.queries owner then
        match s.transactions.table.begin addr s.transactions.receivers.length with
        | none => s
        | some _ =>
            { s with
              transactions := s.transactions.next (.begin addr)
              futures := s.futures.insert s.transactions.receivers.length ⟨owner, .sending⟩ }
      else s
  | .sent future ok =>
      match s.futures.get? future with
      | some ⟨owner, .sending⟩ =>
          { s with
            futures := s.futures.insert future ⟨owner, if ok then .waiting else .cancelling⟩ }
      | _ => s
  | .timeout future =>
      match s.futures.get? future with
      | some ⟨owner, .waiting⟩ =>
          if s.ready future then s
          else
            { s with
              futures := s.futures.insert future ⟨owner, .cancelling⟩
              transactions := s.transactions.next (.drop [future]) }
      | _ => s
  | .cancel future =>
      match s.futures.get? future, s.transactions.receivers[future]? with
      | some ⟨_, .cancelling⟩, some r =>
          { s with transactions := s.transactions.next (.cancel r.transactionId) }.endFuture future
      | _, _ => s
  | .receive future =>
      match s.futures.get? future with
      | some ⟨_, .waiting⟩ => if s.ready future then s.endFuture future else s
      | _ => s
  | .datagram message source =>
      if s.running then { s with transactions := s.transactions.next (.datagram message source) } else s

/-- Every entry of the table belongs to a query that is alive. -/
def Owned (s : QuerySystem H) : Prop :=
  ∀ transactionId pending, s.transactions.table.pending.get? transactionId = some pending →
    s.futures.contains pending.reply = true

/-- The step aborts no task that has a query in the table. -/
def Spares (s : QuerySystem H) : QueryEvent H → Prop
  | .dht event => s.running = true → ∀ i task stage,
      s.futures.get? i = some ⟨.task task, stage⟩ → s.dht.Aborts task event → s.hasEntry i = false
  | .stop => s.running = true → ∀ i f, s.futures.get? i = some f →
      (f.owner = .bootstrap ∨ ∃ task infoHash, f.owner = .task task ∧
        s.dht.RemovalAborts infoHash task) → s.hasEntry i = false
  | _ => True

/-! ### What a step leaves in the table -/

variable {s s' : QuerySystem H} {c : Codec H} {future : ℕ}

omit [DecidableEq H] in
theorem hasEntry_iff : s.hasEntry future = true ↔
    ∃ transactionId pending, s.transactions.table.pending.get? transactionId = some pending ∧
      pending.reply = future := by
  unfold hasEntry
  rw [List.any_eq_true]
  constructor
  · rintro ⟨⟨transactionId, pending⟩, hmem, heq⟩
    exact ⟨transactionId, pending, HashMap.mem_toList_iff.1 hmem, eq_of_beq heq⟩
  · rintro ⟨transactionId, pending, hget, rfl⟩
    exact ⟨(transactionId, pending), HashMap.mem_toList_iff.2 hget, BEq.rfl⟩

omit [DecidableEq H] in
theorem hasEntry_of_get? {transactionId : Bytes} {pending : PendingTransaction}
    (h : s.transactions.table.pending.get? transactionId = some pending) :
    s.hasEntry pending.reply = true :=
  hasEntry_iff.2 ⟨transactionId, pending, h, rfl⟩

omit [DecidableEq H] in
theorem busy_of_get? {f : QueryFuture} (h : s.futures.get? future = some f) :
    s.busy f.owner = true := by
  unfold busy
  rw [List.any_eq_true]
  exact ⟨(future, f), HashMap.mem_toList_iff.2 h, BEq.rfl⟩

/-- The table is sound, the numbers of the tasks are fresh, and queries belong to tasks that run. -/
structure Fits (s : QuerySystem H) : Prop where
  sound : s.transactions.Sound
  numbered : s.dht.Numbered
  owners : ∀ i f, s.futures.get? i = some f → s.dht.runs f.owner = true

theorem fits_init (nextId : UInt16) (bootstrapping : Bool) :
    (init nextId bootstrapping : QuerySystem H).Fits :=
  ⟨Transactions.sound_init nextId, DhtSystem.numbered_init bootstrapping, fun _ _ h => (nomatch h)⟩

theorem Fits.settle (hs : s.Fits) {dht : DhtSystem H} (hdht : dht.Numbered) :
    (s.settle dht).Fits := by
  refine ⟨hs.sound.drop _, hdht, ?_⟩
  intro i f hf
  simp only [QuerySystem.settle, HashMap.get?_retain, Option.bind_eq_some_iff] at hf
  obtain ⟨old, -, hkept⟩ := hf
  split at hkept
  · rename_i hruns
    cases hkept
    exact hruns
  · cases hkept

omit [DecidableEq H] in
/-- An owner that makes queries runs. -/
theorem runs_of_queries {dht : DhtSystem H} {owner : QueryOwner} (h : dht.queries owner = true) :
    dht.runs owner = true := by
  cases owner with
  | bootstrap => exact h
  | task number =>
      simp only [DhtSystem.queries] at h
      simp only [DhtSystem.runs, HashMap.contains]
      split at h
      · rename_i hget
        rw [hget]
        rfl
      · rename_i hget
        rw [hget]
        rfl
      · cases h

/-- A query goes on in a task that runs. -/
theorem Fits.setFuture (hs : s.Fits) {transactions : Transactions} (hsound : transactions.Sound)
    (i : ℕ) (f : QueryFuture) (hruns : s.dht.runs f.owner = true) :
    Fits { s with transactions, futures := s.futures.insert i f } := by
  refine ⟨hsound, hs.numbered, ?_⟩
  intro j g hg
  rcases HashMap.get?_of_get?_insert hg with ⟨-, rfl⟩ | ⟨-, hg⟩
  · exact hruns
  · exact hs.owners j g hg

/-- A query returns. -/
theorem Fits.endFuture (hs : s.Fits) {transactions : Transactions} (hsound : transactions.Sound)
    (i : ℕ) : Fits (QuerySystem.endFuture { s with transactions } i) :=
  ⟨hsound.drop [i], hs.numbered, fun j g hg => hs.owners j g (HashMap.get?_of_get?_erase hg).2⟩

/-- **The queries that are alive belong to tasks that run**, after every step. -/
theorem Fits.next (hs : s.Fits) (event : QueryEvent H) : (s.next c event).Fits := by
  cases event with
  | dht event =>
      simp only [QuerySystem.next]
      split
      · exact hs.settle (hs.numbered.next event)
      · exact hs
  | stop =>
      simp only [QuerySystem.next]
      split
      · have hstopped := hs.settle hs.numbered.onStop
        exact ⟨hstopped.sound, hstopped.numbered, hstopped.owners⟩
      · exact hs
  | query owner addr =>
      simp only [QuerySystem.next]
      split
      · rename_i hqueries
        split
        · exact hs
        · exact hs.setFuture (hs.sound.next (.begin addr)) _ ⟨owner, .sending⟩
            (runs_of_queries hqueries)
      · exact hs
  | sent future ok =>
      simp only [QuerySystem.next]
      split
      · rename_i owner hget
        exact hs.setFuture hs.sound future ⟨owner, _⟩ (hs.owners future ⟨owner, .sending⟩ hget)
      · exact hs
  | timeout future =>
      simp only [QuerySystem.next]
      split
      · rename_i owner hget
        split
        · exact hs
        · exact hs.setFuture (hs.sound.drop [future]) future ⟨owner, _⟩
            (hs.owners future ⟨owner, .waiting⟩ hget)
      · exact hs
  | cancel future =>
      simp only [QuerySystem.next]
      split
      · exact hs.endFuture (hs.sound.cancel _) future
      · exact hs
  | receive future =>
      simp only [QuerySystem.next]
      split
      · split
        · exact hs.endFuture hs.sound future
        · exact hs
      · exact hs
  | datagram message source =>
      simp only [QuerySystem.next]
      split
      · exact ⟨hs.sound.next (.datagram message source), hs.numbered, hs.owners⟩
      · exact hs

omit [DecidableEq H] in
/-- When tasks end, the ids stay owned exactly if none of their queries is in the table. -/
theorem Owned.settle_iff (ho : s.Owned) (dht : DhtSystem H) :
    (s.settle dht).Owned ↔ ∀ i f, s.futures.get? i = some f → dht.runs f.owner = false →
      s.hasEntry i = false := by
  have hkept (i : ℕ) : (s.settle dht).futures.contains i = true ↔
      ∃ f, s.futures.get? i = some f ∧ dht.runs f.owner = true := by
    simp only [QuerySystem.settle, HashMap.contains, HashMap.get?_retain, Option.isSome_iff_exists,
      Option.bind_eq_some_iff]
    constructor
    · rintro ⟨f, old, hold, hf⟩
      split at hf
      · rename_i hruns
        exact ⟨old, hold, hruns⟩
      · cases hf
    · rintro ⟨f, hf, hruns⟩
      exact ⟨f, f, hf, if_pos hruns⟩
  constructor
  · intro howned i f hf hended
    by_contra hentry
    obtain ⟨transactionId, pending, hget, rfl⟩ := hasEntry_iff.1 (eq_true_of_ne_false hentry)
    obtain ⟨f', hf', hruns⟩ := (hkept _).1 (howned transactionId pending hget)
    rw [hf] at hf'
    cases hf'
    cases hended.symm.trans hruns
  · intro hspared transactionId pending hget
    obtain ⟨f, hf⟩ := Option.isSome_iff_exists.1 (ho transactionId pending hget)
    refine (hkept _).2 ⟨f, hf, ?_⟩
    by_contra hended
    have hnone := hspared _ f hf (eq_false_of_ne_true hended)
    rw [hasEntry_of_get? (s := s) hget] at hnone
    cases hnone

/-- After a step of the DHT actor the owner of a query runs exactly if it was not aborted. -/
theorem Fits.runs_next_iff (hs : s.Fits) {event : DhtEvent H} (henabled : s.enabled event = true)
    {f : QueryFuture} (hf : s.futures.get? future = some f) :
    (s.dht.next c event).runs f.owner = false ↔
      ∃ task, f.owner = .task task ∧ s.dht.Aborts task event := by
  have hruns := hs.owners future f hf
  have hbusy := busy_of_get? hf
  cases howner : f.owner with
  | bootstrap =>
      rw [howner] at hruns hbusy
      have hevent : event ≠ .bootstrapped := by
        rintro rfl
        simp [enabled, hbusy] at henabled
      have hkept : (s.dht.next c event).bootstrapping = true :=
        (DhtSystem.next_bootstrapping s.dht hevent).trans hruns
      simp [DhtSystem.runs, hkept]
  | task task =>
      rw [howner] at hruns hbusy
      obtain ⟨work, hwork⟩ := Option.isSome_iff_exists.1 hruns
      have hfinish (result : LookupResult) : event ≠ .finish task result := by
        rintro rfl
        simp [enabled, hbusy] at henabled
      have hlt : task < s.dht.nextTask := hs.numbered.fresh task work hwork
      have hkept (left : DhtTask H) : (s.dht.next c event).tasks.get? task = some left ↔
          s.dht.tasks.get? task = some left ∧ ¬ s.dht.Aborts task event :=
        DhtSystem.get?_next_iff event hfinish hlt
      simp only [DhtSystem.runs, HashMap.contains, Option.isSome_eq_false_iff,
        Option.isNone_iff_eq_none, QueryOwner.task.injEq, exists_eq_left']
      constructor
      · intro hnone
        by_contra hspared
        cases hnone.symm.trans ((hkept work).2 ⟨hwork, hspared⟩)
      · intro haborts
        cases hget : (s.dht.next c event).tasks.get? task with
        | none => rfl
        | some left => exact absurd haborts ((hkept left).1 hget).2

/-- When the DHT actor stops, the owner of a query runs on exactly if it has no handle. -/
theorem Fits.runs_onStop_iff (hs : s.Fits) {f : QueryFuture} (hf : s.futures.get? future = some f) :
    s.dht.onStop.runs f.owner = false ↔
      f.owner = .bootstrap ∨ ∃ task infoHash, f.owner = .task task ∧
        s.dht.RemovalAborts infoHash task := by
  have hruns := hs.owners future f hf
  cases howner : f.owner with
  | bootstrap => simp [DhtSystem.runs, DhtSystem.onStop]
  | task task =>
      rw [howner] at hruns
      obtain ⟨work, hwork⟩ := Option.isSome_iff_exists.1 hruns
      simp only [DhtSystem.runs, HashMap.contains, Option.isSome_eq_false_iff,
        Option.isNone_iff_eq_none, reduceCtorEq, QueryOwner.task.injEq, false_or]
      constructor
      · intro hnone
        by_contra hspared
        have hleft : s.dht.onStop.tasks.get? task = some work :=
          DhtSystem.get?_onStop_iff.2 ⟨hwork, fun infoHash h => hspared ⟨task, infoHash, rfl, h⟩⟩
        cases hnone.symm.trans hleft
      · rintro ⟨_, infoHash, rfl, haborts⟩
        cases hget : s.dht.onStop.tasks.get? task with
        | none => rfl
        | some left => exact absurd haborts ((DhtSystem.get?_onStop_iff.1 hget).2 infoHash)

omit [DecidableEq H] in
/-- A query that returns without its entry in the table leaves the others owned. -/
theorem Owned.endFuture (ho : s.Owned) (hentry : s.hasEntry future = false) :
    (s.endFuture future).Owned := by
  intro transactionId pending hget
  have hne : pending.reply ≠ future := by
    rintro rfl
    rw [hasEntry_of_get? (s := s) hget] at hentry
    cases hentry
  have hcontains := ho transactionId pending hget
  simp only [QuerySystem.endFuture, HashMap.contains, HashMap.get?_erase_of_ne hne]
  exact hcontains

omit [DecidableEq H] in
/-- What there is to receive is there after the entry was taken out of the table. -/
theorem Fits.hasEntry_of_ready (hs : s.transactions.Sound) (hready : s.ready future = true) :
    s.hasEntry future = false := by
  cases hentry : s.hasEntry future with
  | false => rfl
  | true =>
      obtain ⟨transactionId, pending, hget, rfl⟩ := hasEntry_iff.1 hentry
      obtain ⟨r, hr, -, -, hnone⟩ := hs.entries transactionId pending hget
      simp [ready, hentry, hr, hnone] at hready

omit [DecidableEq H] in
/-- The table is the same or smaller, and no query returns. -/
theorem Owned.of_sub (ho : s.Owned)
    (hpending : ∀ transactionId pending,
      s'.transactions.table.pending.get? transactionId = some pending →
        s.transactions.table.pending.get? transactionId = some pending)
    (hfutures : ∀ i, s.futures.contains i = true → s'.futures.contains i = true) : s'.Owned := by
  intro transactionId pending hget
  exact hfutures _ (ho transactionId pending (hpending transactionId pending hget))

/-- Only the DHT actor aborts tasks. -/
theorem running_of_aborts {task : ℕ} {event : DhtEvent H} (h : s.dht.Aborts task event) :
    s.enabled event = s.running := by
  cases event with
  | handle => rfl
  | resume => rfl
  | _ => exact absurd h id

/-- A step of the DHT actor leaks no id exactly when the tasks that it aborts have none. -/
theorem Owned.dht_iff (ho : s.Owned) (hs : s.Fits) (event : DhtEvent H) :
    (s.next c (.dht event)).Owned ↔ s.Spares (.dht event) := by
  simp only [QuerySystem.next, Spares]
  split
  · rename_i henabled
    rw [ho.settle_iff]
    constructor
    · intro h _ i task stage hf haborts
      exact h i _ hf ((hs.runs_next_iff henabled hf).2 ⟨task, rfl, haborts⟩)
    · intro h i f hf hended
      obtain ⟨task, howner, haborts⟩ := (hs.runs_next_iff henabled hf).1 hended
      obtain ⟨owner, stage⟩ := f
      subst howner
      exact h ((running_of_aborts haborts).symm.trans henabled) i task stage hf haborts
  · rename_i hdisabled
    refine iff_of_true ho ?_
    intro hrunning i task stage _ haborts
    exact absurd ((running_of_aborts haborts).trans hrunning) hdisabled

omit [DecidableEq H] in
/-- That the actor has stopped says nothing about the table. -/
theorem owned_stopped_iff : ({ s with running := false } : QuerySystem H).Owned ↔ s.Owned := Iff.rfl

/-- When the DHT actor stops, no id leaks exactly when the tasks that it aborts have none. -/
theorem Owned.stop_iff (ho : s.Owned) (hs : s.Fits) :
    (s.next c .stop).Owned ↔ s.Spares .stop := by
  simp only [QuerySystem.next, Spares]
  split
  · rename_i hrunning
    rw [owned_stopped_iff, ho.settle_iff]
    constructor
    · intro h _ i f hf haborts
      exact h i f hf ((hs.runs_onStop_iff hf).2 haborts)
    · intro h i f hf hended
      exact h hrunning i f hf ((hs.runs_onStop_iff hf).1 hended)
  · rename_i hstopped
    exact iff_of_true ho fun h => absurd h hstopped

/-- A query that takes an id is alive. -/
theorem Owned.query (ho : s.Owned) (owner : QueryOwner) (addr : SocketAddr) :
    (s.next c (.query owner addr)).Owned := by
  simp only [QuerySystem.next]
  split
  · split
    · exact ho
    · rcases Transactions.begin_cases s.transactions addr with
        ⟨heq, -⟩ | ⟨transactionId, -, hpending, -⟩
      · refine ho.of_sub ?_ fun _ h => HashMap.contains_insert_of_contains h
        intro id pending hget
        simp only [Transactions.next, heq] at hget
        exact hget
      · intro id pending hget
        simp only [Transactions.next, hpending] at hget
        rcases HashMap.get?_of_get?_insert hget with ⟨-, rfl⟩ | ⟨-, hget⟩
        · simp [HashMap.contains]
        · exact HashMap.contains_insert_of_contains (ho id pending hget)
  · exact ho

/-- A query that has failed takes its id out of the table before it returns. -/
theorem Owned.cancel (ho : s.Owned) (hs : s.transactions.Sound) (future : ℕ) :
    (s.next c (.cancel future)).Owned := by
  simp only [QuerySystem.next]
  split
  · rename_i r _ hr
    have hcancelled :
        Owned { s with transactions := s.transactions.next (.cancel r.transactionId) } :=
      ho.of_sub (fun _ _ h => (HashMap.get?_of_get?_erase h).2) fun _ h => h
    refine hcancelled.endFuture ?_
    -- an entry of this query would have had its id
    by_contra hentry
    obtain ⟨transactionId, pending, hget, rfl⟩ := hasEntry_iff.1 (eq_true_of_ne_false hentry)
    obtain ⟨hne, hold⟩ := HashMap.get?_of_get?_erase hget
    obtain ⟨r', hr', hid, -⟩ := hs.entries transactionId pending hold
    rw [hr] at hr'
    cases hr'
    exact hne hid.symm
  · exact ho

/-- A datagram only takes entries out of the table. -/
theorem Owned.datagram (ho : s.Owned) (message : Krpc.Message) (source : SocketAddr) :
    (s.next c (.datagram message source)).Owned := by
  simp only [QuerySystem.next]
  split
  · refine ho.of_sub ?_ fun _ h => h
    intro transactionId pending hget
    rcases Transactions.complete_cases s.transactions message source with
      ⟨id, result, channel, -, -, heq⟩ | ⟨-, heq⟩
    · simp only [Transactions.next, heq] at hget
      exact (HashMap.get?_of_get?_erase hget).2
    · simp only [Transactions.next, heq] at hget
      exact hget
  · exact ho

/-- **A step leaks no id exactly when it aborts no task with a query in the table.** -/
theorem Owned.next_iff (ho : s.Owned) (hs : s.Fits) (event : QueryEvent H) :
    (s.next c event).Owned ↔ s.Spares event := by
  cases event with
  | dht event => exact ho.dht_iff hs event
  | stop => exact ho.stop_iff hs
  | query owner addr => exact iff_of_true (ho.query owner addr) trivial
  | sent future ok =>
      refine iff_of_true ?_ trivial
      simp only [QuerySystem.next]
      split
      · exact ho.of_sub (fun _ _ h => h) fun _ h => HashMap.contains_insert_of_contains h
      · exact ho
  | timeout future =>
      refine iff_of_true ?_ trivial
      simp only [QuerySystem.next]
      split
      · split
        · exact ho
        · exact ho.of_sub (fun _ _ h => h) fun _ h => HashMap.contains_insert_of_contains h
      · exact ho
  | cancel future => exact iff_of_true (ho.cancel hs.sound future) trivial
  | receive future =>
      refine iff_of_true ?_ trivial
      simp only [QuerySystem.next]
      split
      · split
        · rename_i hready
          exact ho.endFuture (Fits.hasEntry_of_ready hs.sound hready)
        · exact ho
      · exact ho
  | datagram message source => exact iff_of_true (ho.datagram message source) trivial

/-! ### How many ids are in use -/

omit [DecidableEq H] in
/-- **There are at most as many entries as queries that are alive.** -/
theorem Owned.length_le (ho : s.Owned) (hs : s.transactions.Sound) :
    s.transactions.table.pending.toList.length ≤ s.futures.toList.length := by
  have hreplies : (s.transactions.table.pending.toList.map fun e => e.2.reply).Nodup := by
    refine List.Nodup.map_on ?_ (List.Nodup.of_map _ (HashMap.nodup_toList_keys _))
    rintro ⟨id, pending⟩ hmem ⟨id', pending'⟩ hmem' heq
    rw [HashMap.mem_toList_iff] at hmem hmem'
    cases hs.reply_inj hmem hmem' heq
    rw [hmem] at hmem'
    cases hmem'
    rfl
  have hsub : (s.transactions.table.pending.toList.map fun e => e.2.reply) ⊆
      s.futures.toList.map Prod.fst := by
    intro reply hreply
    obtain ⟨⟨id, pending⟩, hmem, rfl⟩ := List.mem_map.1 hreply
    obtain ⟨f, hf⟩ := Option.isSome_iff_exists.1 (ho id pending (HashMap.mem_toList_iff.1 hmem))
    exact List.mem_map.2 ⟨_, HashMap.mem_toList_iff.2 hf, rfl⟩
  simpa using (List.subperm_of_subset hreplies hsub).length_le

end QuerySystem

/-- **`begin` returns while fewer than 65536 ids are in use.** -/
theorem TransactionTable.begin_ne_none {t : TransactionTable} (h : t.pending.toList.length < 65536)
    (addr : SocketAddr) (reply : ℕ) : t.begin addr reply ≠ none := by
  intro hnone
  rw [begin_eq_none_iff] at hnone
  have hids : ((List.range 65536).map fun n => idBytes (UInt16.ofNat n)).Nodup := by
    refine List.Nodup.map_on ?_ List.nodup_range
    intro m hm n hn heq
    have hnat := congrArg UInt16.toNat (idBytes_injective heq)
    rwa [UInt16.toNat_ofNat_of_lt' (List.mem_range.1 hm),
      UInt16.toNat_ofNat_of_lt' (List.mem_range.1 hn)] at hnat
  have hsub : ((List.range 65536).map fun n => idBytes (UInt16.ofNat n)) ⊆
      t.pending.toList.map Prod.fst := by
    intro id hid
    obtain ⟨n, -, rfl⟩ := List.mem_map.1 hid
    obtain ⟨pending, hget⟩ := Option.isSome_iff_exists.1 (hnone (UInt16.ofNat n))
    exact List.mem_map.2 ⟨_, HashMap.mem_toList_iff.2 hget, rfl⟩
  have hle := (List.subperm_of_subset hids hsub).length_le
  simp only [List.length_map, List.length_range] at hle
  omega

namespace QuerySystem

/-- The invariant of the runs whose steps meet the condition. -/
theorem owned_along (c : Codec H) (nextId : UInt16) (bootstrapping : Bool)
    (events : List (QueryEvent H))
    (h : System.Along Spares (QuerySystem.next c) (init nextId bootstrapping) events) :
    (events.foldl (QuerySystem.next c) (init nextId bootstrapping)).Owned ∧
      (events.foldl (QuerySystem.next c) (init nextId bootstrapping)).Fits := by
  refine h.invariant (I := fun s => s.Owned ∧ s.Fits) ?_
    ⟨fun _ _ h => (nomatch h), fits_init nextId bootstrapping⟩
  rintro s event ⟨ho, hs⟩ hevent
  exact ⟨(ho.next_iff hs event).2 hevent, hs.next event⟩

end QuerySystem

/-- **No id leaks**, in every run that aborts no task while one of its queries is in the table: every
entry belongs to a query that is alive, so that there are no more entries than queries, and `begin`
returns as long as fewer than 65536 queries are alive.  The next step leaks no id exactly if it meets
the condition. -/
theorem dht_transactions_owned (c : Codec H) (nextId : UInt16) (bootstrapping : Bool)
    (events : List (QueryEvent H))
    (h : System.Along QuerySystem.Spares (QuerySystem.next c) (.init nextId bootstrapping) events) :
    let s := events.foldl (QuerySystem.next c) (.init nextId bootstrapping)
    (∀ transactionId pending, s.transactions.table.pending.get? transactionId = some pending →
      s.futures.contains pending.reply = true) ∧
    (s.futures.toList.length < 65536 →
      s.transactions.table.pending.toList.length < 65536 ∧
      ∀ addr reply, s.transactions.table.begin addr reply ≠ none) ∧
    ∀ event, (s.next c event).Owned ↔ s.Spares event := by
  obtain ⟨howned, hfits⟩ := QuerySystem.owned_along c nextId bootstrapping events h
  intro s
  refine ⟨howned, ?_, fun event => howned.next_iff hfits event⟩
  intro halive
  have hlt := lt_of_le_of_lt (howned.length_le hfits.sound) halive
  exact ⟨hlt, fun addr reply => TransactionTable.begin_ne_none hlt addr reply⟩

namespace Sample

/-- A torrent is registered, and its lookup asks a node. -/
def lookupAsks : List (QueryEvent Bytes) :=
  registerOnce.map .dht ++ [.query (.task 0) nodeAddr, .sent 0 true]

/-- The torrent is unregistered. -/
def unregisterOnce : List (QueryEvent Bytes) := [.dht (.remove linkHash), .dht .handle]

end Sample

open Sample in
theorem dht_transactions_owned_sample :
    (lookupAsks.foldl (QuerySystem.next codec)
      (.init 7 true)).transactions.table.pending.get? [0, 7] = some ⟨nodeAddr, 0⟩ ∧
    (lookupAsks.foldl (QuerySystem.next codec) (.init 7 true)).futures.contains 0 = true := by
  have hentry : (lookupAsks.foldl (QuerySystem.next codec)
      (.init 7 true)).transactions.table.pending.get? [0, 7] = some ⟨nodeAddr, 0⟩ := by decide
  refine ⟨hentry, (dht_transactions_owned codec 7 true lookupAsks ?_).1 [0, 7] _ hentry⟩
  refine ⟨?_, ?_, ?_, trivial, trivial, trivial⟩
  · exact fun _ _ _ _ h => (nomatch h)
  · exact fun _ _ _ _ h => (nomatch h)
  · exact fun _ _ _ _ h => (nomatch h)

open Sample in
/-- A torrent is unregistered while a node is asked for its peers: the id stays in the table, and the
query is gone. -/
theorem aborted_lookup_leaks_id :
    ∃ transactionId pending,
      ((lookupAsks ++ unregisterOnce).foldl (QuerySystem.next codec)
        (.init 7 true)).transactions.table.pending.get? transactionId = some pending ∧
      ((lookupAsks ++ unregisterOnce).foldl (QuerySystem.next codec)
        (.init 7 true)).futures.contains pending.reply = false :=
  ⟨[0, 7], ⟨nodeAddr, 0⟩, by decide, by decide⟩

end Tortillas
