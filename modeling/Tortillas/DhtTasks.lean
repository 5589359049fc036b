/-
**The tasks of the DHT actor.**

`dht/actor.rs` and `dht/messages.rs`: for each registered torrent the DHT actor has a task that looks
for peers or waits for the next time to do so, and a task that announces.  It keeps their handles in
`lookup_tasks` and `announce_tasks`, to abort them when they are replaced and when the torrent is
unregistered.  A lookup that is done sends `LookupFinished` with its info hash, and nothing else tells
the message of one lookup from that of another.

A lookup may be done, and its message in the mailbox, when a refresh or another registration starts the
next one.  The message then takes the handle of the new task out of the table, without aborting it, and
starts a timer beside it.

Main definitions:

* `DhtSystem.RunsLookup` — a lookup or a timer of a hash that runs;
* `DhtSystem.Tracked` — the handle of every task that runs is in the table it belongs to;
* `DhtSystem.NoStale` — the step does not take a lookup that is done for the one that runs.

Main results:

* `DhtSystem.Tracked.next_iff` — a step keeps the tasks tracked exactly when it meets the condition;
* `DhtSystem.Quiet.next` — nothing goes on for a torrent that is unregistered;
* `dht_tasks_tracked` — **every task that runs is tracked**, in every run whose steps meet the
  condition;
* `stale_lookup_orphans_task` — a refresh between the end of a lookup and its message.
-/

import Tortillas.DhtActor

set_option relaxedAutoImplicit false
set_option autoImplicit false

namespace Tortillas

variable {H : Type} [DecidableEq H]

def DhtTask.infoHash : DhtTask H → H
  | .lookup infoHash => infoHash
  | .timer infoHash => infoHash
  | .announce infoHash => infoHash

namespace DhtSystem

variable {s s' : DhtSystem H} {c : Codec H}

/-- A lookup or a timer of this hash runs under this number. -/
def RunsLookup (s : DhtSystem H) (infoHash : H) (task : ℕ) : Prop :=
  s.tasks.get? task = some (.lookup infoHash) ∨ s.tasks.get? task = some (.timer infoHash)

/-- The handle that the DHT actor has in the place of such a task. -/
def handleOf (s : DhtSystem H) : DhtTask H → Option ℕ
  | .lookup infoHash => s.lookupTasks.get? infoHash
  | .timer infoHash => s.lookupTasks.get? infoHash
  | .announce infoHash => s.announceTasks.get? infoHash

/-- The handle of every task that runs is in the table it belongs to. -/
def Tracked (s : DhtSystem H) : Prop :=
  ∀ task work, s.tasks.get? task = some work → s.handleOf work = some task

/-- The step does not handle the result of a lookup while a lookup or a timer of the same hash runs. -/
def NoStale (s : DhtSystem H) : DhtEvent H → Prop
  | .handle => s.asking = none → ∀ infoHash result,
      s.mailbox.head? = some (.lookupFinished infoHash result) → ∀ task, ¬ s.RunsLookup infoHash task
  | _ => True

/-! ### Numbers -/

/-- Numbers of tasks are not used again, and a handle in the table of announcements is not that of
another task. -/
structure Numbered (s : DhtSystem H) : Prop where
  fresh : ∀ task work, s.tasks.get? task = some work → task < s.nextTask
  announces : ∀ infoHash task, s.announceTasks.get? infoHash = some task →
    task < s.nextTask ∧ ∀ work, s.tasks.get? task = some work → work = .announce infoHash

theorem numbered_init (bootstrapping : Bool) : (init bootstrapping : DhtSystem H).Numbered :=
  ⟨fun _ _ h => (nomatch h), fun _ _ h => (nomatch h)⟩

/-- Tasks end, and handles are dropped. -/
theorem Numbered.of_sub (hs : s.Numbered) (hnext : s'.nextTask = s.nextTask)
    (htasks : ∀ task work, s'.tasks.get? task = some work → s.tasks.get? task = some work)
    (hannounces : ∀ h task, s'.announceTasks.get? h = some task →
      s.announceTasks.get? h = some task) : s'.Numbered := by
  refine ⟨fun task work h => hnext ▸ hs.fresh task work (htasks task work h), ?_⟩
  intro infoHash task h
  obtain ⟨hlt, hannounce⟩ := hs.announces infoHash task (hannounces infoHash task h)
  exact ⟨hnext ▸ hlt, fun work hwork => hannounce work (htasks task work hwork)⟩

/-- A task is spawned. -/
theorem Numbered.spawn (hs : s.Numbered) (new : DhtTask H) (hnext : s'.nextTask = s.nextTask + 1)
    (htasks : ∀ task work, s'.tasks.get? task = some work →
      (task = s.nextTask ∧ work = new) ∨ s.tasks.get? task = some work)
    (hannounces : ∀ h task, s'.announceTasks.get? h = some task →
      (task = s.nextTask ∧ new = .announce h) ∨ s.announceTasks.get? h = some task) :
    s'.Numbered := by
  refine ⟨?_, ?_⟩
  · intro task work h
    rw [hnext]
    rcases htasks task work h with ⟨rfl, -⟩ | hold
    · exact Nat.lt_succ_self _
    · exact Nat.lt_succ_of_lt (hs.fresh task work hold)
  · intro infoHash task h
    rw [hnext]
    rcases hannounces infoHash task h with ⟨rfl, hnew⟩ | hold
    · refine ⟨Nat.lt_succ_self _, ?_⟩
      intro work hwork
      rcases htasks _ work hwork with ⟨-, rfl⟩ | hold
      · exact hnew
      · exact absurd (hs.fresh _ work hold) (Nat.lt_irrefl _)
    · obtain ⟨hlt, hannounce⟩ := hs.announces infoHash task hold
      refine ⟨Nat.lt_succ_of_lt hlt, ?_⟩
      intro work hwork
      rcases htasks task work hwork with ⟨rfl, -⟩ | hwork
      · exact absurd hlt (Nat.lt_irrefl _)
      · exact hannounce work hwork

/-! ### What each section does to the tasks -/

/-- What starting a lookup keeps, a refresh keeps. -/
theorem refreshAll_keeps_of {I : DhtSystem H → Prop} (hstart : ∀ s h, I s → I (s.startLookup h).1)
    (hs : I s) (infoHashes : List H) : I (s.refreshAll infoHashes).1 := by
  induction infoHashes generalizing s with
  | nil => exact hs
  | cons infoHash infoHashes ih => exact ih (hstart s infoHash hs)

/-- What starting a lookup and unregistering keep, the answer of the torrent keeps. -/
theorem lookupAnswered_keeps_of {I : DhtSystem H → Prop} {infoHash : H}
    (hstart : I (s.startLookup infoHash).1) (hremove : I (s.removeTorrentRegistration infoHash))
    (answer : Except String (Option (Info H))) : I (s.lookupAnswered infoHash answer).1 := by
  unfold lookupAnswered
  split
  · split
    · exact hremove
    · exact hstart
  · exact hstart
  · exact hremove

theorem get?_abort (s : DhtSystem H) (table : HashMap H ℕ) (infoHash : H) (task : ℕ) :
    (s.abort table infoHash).get? task =
      if table.get? infoHash = some task then none else s.tasks.get? task := by
  unfold abort
  cases htable : table.get? infoHash with
  | none => simp
  | some old =>
      simp only [HashMap.get?_erase, Option.some.injEq]
      by_cases hold : task = old
      · simp [hold]
      · simp [hold, Ne.symm hold]

/-- A task is spawned in the place of the one that was aborted. -/
theorem Tracked.replaceLookup (hs : s.Tracked) (infoHash : H) {work : DhtTask H}
    (hwork : work = .lookup infoHash ∨ work = .timer infoHash) :
    Tracked (spawnLookup { s with
      tasks := s.abort s.lookupTasks infoHash
      lookupTasks := s.lookupTasks.erase infoHash } work infoHash) := by
  have hold (task : ℕ) (old : DhtTask H) (hne : task ≠ s.nextTask)
      (h : ((s.abort s.lookupTasks infoHash).insert s.nextTask work).get? task = some old) :
      s.lookupTasks.get? infoHash ≠ some task ∧ s.tasks.get? task = some old := by
    rw [HashMap.get?_insert_of_ne hne, get?_abort] at h
    by_cases hhandle : s.lookupTasks.get? infoHash = some task
    · simp [hhandle] at h
    · exact ⟨hhandle, by simpa [hhandle] using h⟩
  intro task old hold'
  by_cases hne : task = s.nextTask
  · subst hne
    cases (HashMap.get?_insert_self _ _ _).symm.trans hold'
    rcases hwork with rfl | rfl
    · simp [handleOf, spawnLookup]
    · simp [handleOf, spawnLookup]
  · obtain ⟨haborted, hruns⟩ := hold task old hne hold'
    have hhandle := hs task old hruns
    -- a task that is left belongs to another hash, or announces
    cases old with
    | lookup h =>
        have hh : h ≠ infoHash := fun heq => haborted (heq ▸ hhandle)
        simpa [handleOf, spawnLookup, HashMap.get?_insert, HashMap.get?_erase, hh] using hhandle
    | timer h =>
        have hh : h ≠ infoHash := fun heq => haborted (heq ▸ hhandle)
        simpa [handleOf, spawnLookup, HashMap.get?_insert, HashMap.get?_erase, hh] using hhandle
    | announce h => exact hhandle

theorem Tracked.startLookup (hs : s.Tracked) (infoHash : H) :
    (s.startLookup infoHash).1.Tracked := by
  unfold DhtSystem.startLookup
  split
  · dsimp only
    split
    · exact hs.replaceLookup infoHash (.inl rfl)
    · exact hs.replaceLookup infoHash (.inr rfl)
  · exact hs

/-- After a torrent is unregistered no task of its hash runs. -/
theorem Tracked.runs_of_removed (hs : s.Tracked) {infoHash : H} {task : ℕ} {work : DhtTask H}
    (h : (s.removeTorrentRegistration infoHash).tasks.get? task = some work) :
    s.tasks.get? task = some work ∧ work.infoHash ≠ infoHash := by
  simp only [DhtSystem.removeTorrentRegistration, get?_abort] at h
  split at h
  · cases h
  · rename_i hannounce
    split at h
    · cases h
    · rename_i hlookup
      refine ⟨h, ?_⟩
      have hhandle := hs task work h
      rintro rfl
      cases work with
      | lookup h => exact hlookup hhandle
      | timer h => exact hlookup hhandle
      | announce h => exact hannounce hhandle

theorem Tracked.removeTorrentRegistration (hs : s.Tracked) (infoHash : H) :
    (s.removeTorrentRegistration infoHash).Tracked := by
  intro task work h
  obtain ⟨hruns, hne⟩ := hs.runs_of_removed h
  have hhandle := hs task work hruns
  cases work with
  | lookup h => exact (HashMap.get?_erase_of_ne hne).trans hhandle
  | timer h => exact (HashMap.get?_erase_of_ne hne).trans hhandle
  | announce h => exact (HashMap.get?_erase_of_ne hne).trans hhandle

/-- The section of a lookup that is done: the handle is taken out of the table, and if the torrent is
still there an announcement and a timer are spawned. -/
theorem lookupFinished_cases (s : DhtSystem H) (infoHash : H) (result : LookupResult) :
    (∃ torrents, (s.lookupFinished infoHash result).1 =
      { s with lookupTasks := s.lookupTasks.erase infoHash, torrents := torrents }) ∨
    (s.lookupFinished infoHash result).1 =
      { s with
        tasks := ((s.abort s.announceTasks infoHash).insert s.nextTask (.announce infoHash)).insert
          (s.nextTask + 1) (.timer infoHash)
        nextTask := s.nextTask + 1 + 1
        lookupTasks := (s.lookupTasks.erase infoHash).insert infoHash (s.nextTask + 1)
        announceTasks := s.announceTasks.insert infoHash s.nextTask } := by
  unfold lookupFinished
  dsimp only
  split
  · exact .inl ⟨_, rfl⟩
  · split
    · exact .inl ⟨_, rfl⟩
    · exact .inr rfl

/-- When a handle is taken out of `lookup_tasks`, the tasks stay tracked exactly if nothing runs under its
hash. -/
theorem Tracked.forgetLookup_iff (hs : s.Tracked) (infoHash : H) (torrents : HashMap H DhtTorrent) :
    Tracked { s with lookupTasks := s.lookupTasks.erase infoHash, torrents } ↔
      ∀ task, ¬ s.RunsLookup infoHash task := by
  constructor
  · -- a task that runs has lost its handle
    intro ht task hruns
    rcases hruns with hruns | hruns
    · cases (HashMap.get?_erase_self _ _).symm.trans (ht task _ hruns)
    · cases (HashMap.get?_erase_self _ _).symm.trans (ht task _ hruns)
  · intro hnone task work hwork
    have hhandle := hs task work hwork
    cases work with
    | lookup h =>
        have hh : h ≠ infoHash := fun heq => hnone task (.inl (heq ▸ hwork))
        exact (HashMap.get?_erase_of_ne hh).trans hhandle
    | timer h =>
        have hh : h ≠ infoHash := fun heq => hnone task (.inr (heq ▸ hwork))
        exact (HashMap.get?_erase_of_ne hh).trans hhandle
    | announce h => exact hhandle

/-- A lookup or a timer goes on when an announcement and a timer are spawned. -/
theorem Numbered.get?_announced (hn : s.Numbered) {infoHash : H} {task : ℕ}
    (hruns : s.RunsLookup infoHash task) :
    ∃ work, (work = .lookup infoHash ∨ work = .timer infoHash) ∧ task < s.nextTask ∧
      (((s.abort s.announceTasks infoHash).insert s.nextTask (.announce infoHash)).insert
        (s.nextTask + 1) (.timer infoHash)).get? task = some work := by
  obtain ⟨work, hwork, hkind⟩ : ∃ work, s.tasks.get? task = some work ∧
      (work = .lookup infoHash ∨ work = .timer infoHash) := by
    rcases hruns with hruns | hruns
    · exact ⟨_, hruns, .inl rfl⟩
    · exact ⟨_, hruns, .inr rfl⟩
  have hlt := hn.fresh task work hwork
  refine ⟨work, hkind, hlt, ?_⟩
  rw [HashMap.get?_insert_of_ne (by omega), HashMap.get?_insert_of_ne (by omega), get?_abort, if_neg,
    hwork]
  intro hhandle
  have hannounce := (hn.announces infoHash task hhandle).2 work hwork
  rcases hkind with rfl | rfl
  · cases hannounce
  · cases hannounce

/-- When an announcement and a timer are spawned, the tasks stay tracked exactly if no lookup or timer of
the hash runs: only the handle of the announcement before is used to abort. -/
theorem Tracked.announce_iff (hs : s.Tracked) (hn : s.Numbered) (infoHash : H) :
    Tracked { s with
      tasks := ((s.abort s.announceTasks infoHash).insert s.nextTask (.announce infoHash)).insert
        (s.nextTask + 1) (.timer infoHash)
      nextTask := s.nextTask + 1 + 1
      lookupTasks := (s.lookupTasks.erase infoHash).insert infoHash (s.nextTask + 1)
      announceTasks := s.announceTasks.insert infoHash s.nextTask } ↔
      ∀ task, ¬ s.RunsLookup infoHash task := by
  constructor
  · -- a task that runs still does, and the handle in its place is that of the new timer
    intro ht task hruns
    obtain ⟨work, hkind, hlt, hkept⟩ := hn.get?_announced hruns
    have hhandle := ht task work hkept
    have hnew : s.nextTask + 1 = task := by
      rcases hkind with rfl | rfl
      · simpa [handleOf] using hhandle
      · simpa [handleOf] using hhandle
    omega
  · intro hnone task work hwork
    simp only at hwork
    by_cases htimer : task = s.nextTask + 1
    · subst htimer
      cases (HashMap.get?_insert_self _ _ _).symm.trans hwork
      simp [handleOf]
    · rw [HashMap.get?_insert_of_ne htimer] at hwork
      by_cases hannounce : task = s.nextTask
      · subst hannounce
        cases (HashMap.get?_insert_self _ _ _).symm.trans hwork
        simp [handleOf]
      · rw [HashMap.get?_insert_of_ne hannounce, get?_abort] at hwork
        split at hwork
        · cases hwork
        · rename_i hkept
          have hhandle := hs task work hwork
          cases work with
          | lookup h =>
              have hh : h ≠ infoHash := fun heq => hnone task (.inl (heq ▸ hwork))
              simpa [handleOf, HashMap.get?_insert, HashMap.get?_erase, hh] using hhandle
          | timer h =>
              have hh : h ≠ infoHash := fun heq => hnone task (.inr (heq ▸ hwork))
              simpa [handleOf, HashMap.get?_insert, HashMap.get?_erase, hh] using hhandle
          | announce h =>
              have hh : h ≠ infoHash := fun heq => hkept (heq ▸ hhandle)
              simpa [handleOf, HashMap.get?_insert, hh] using hhandle

/-- **When the result of a lookup is handled**, the tasks stay tracked exactly if no other lookup or
timer of the hash runs. -/
theorem Tracked.lookupFinished_iff (hs : s.Tracked) (hn : s.Numbered) (infoHash : H)
    (result : LookupResult) :
    (s.lookupFinished infoHash result).1.Tracked ↔ ∀ task, ¬ s.RunsLookup infoHash task := by
  rcases lookupFinished_cases s infoHash result with ⟨torrents, heq⟩ | heq
  · rw [heq]
    exact hs.forgetLookup_iff infoHash torrents
  · rw [heq]
    exact hs.announce_iff hn infoHash

/-! ### Runs -/

theorem Numbered.startLookup (hs : s.Numbered) (infoHash : H) :
    (s.startLookup infoHash).1.Numbered := by
  have hspawn (work : DhtTask H) : Numbered (spawnLookup { s with
      tasks := s.abort s.lookupTasks infoHash
      lookupTasks := s.lookupTasks.erase infoHash } work infoHash) := by
    refine hs.spawn work rfl ?_ fun _ _ h => .inr h
    intro task old h
    by_cases hne : task = s.nextTask
    · subst hne
      exact .inl ⟨rfl, Option.some.inj (h.symm.trans (HashMap.get?_insert_self _ _ _))⟩
    · refine .inr ?_
      simp only [spawnLookup, HashMap.get?_insert_of_ne hne, get?_abort] at h
      split at h
      · cases h
      · exact h
  unfold DhtSystem.startLookup
  split
  · dsimp only
    split
    · exact hspawn _
    · exact hspawn _
  · exact hs

theorem Numbered.removeTorrentRegistration (hs : s.Numbered) (infoHash : H) :
    (s.removeTorrentRegistration infoHash).Numbered := by
  refine hs.of_sub rfl ?_ fun h task hget => (HashMap.get?_of_get?_erase hget).2
  intro task work h
  simp only [DhtSystem.removeTorrentRegistration, get?_abort] at h
  split at h
  · cases h
  · split at h
    · cases h
    · exact h

theorem Numbered.lookupFinished (hs : s.Numbered) (infoHash : H) (result : LookupResult) :
    (s.lookupFinished infoHash result).1.Numbered := by
  rcases lookupFinished_cases s infoHash result with ⟨torrents, heq⟩ | heq
  · rw [heq]
    exact hs.of_sub rfl (fun _ _ h => h) fun _ _ h => h
  · rw [heq]
    -- the announcement is spawned first, and then the timer
    have hannounce : Numbered { s with
        tasks := (s.abort s.announceTasks infoHash).insert s.nextTask (.announce infoHash)
        nextTask := s.nextTask + 1
        announceTasks := s.announceTasks.insert infoHash s.nextTask } := by
      refine hs.spawn (.announce infoHash) rfl ?_ ?_
      · intro task work h
        simp only [HashMap.get?_insert, get?_abort] at h
        split at h
        · rename_i hnew
          exact .inl ⟨hnew, (Option.some.inj h).symm⟩
        · split at h
          · cases h
          · exact .inr h
      · intro h task hget
        rcases HashMap.get?_of_get?_insert hget with ⟨rfl, htask⟩ | ⟨-, hget⟩
        · exact .inl ⟨htask, rfl⟩
        · exact .inr hget
    refine hannounce.spawn (.timer infoHash) rfl ?_ fun _ _ h => .inr h
    intro task work h
    rcases HashMap.get?_of_get?_insert h with ⟨hnew, hwork⟩ | ⟨-, h⟩
    · exact .inl ⟨hnew, hwork⟩
    · exact .inr h

/-- The steps of the others, and questions and answers, leave the tasks alone. -/
structure SameTasks (s s' : DhtSystem H) : Prop where
  tasks : s'.tasks = s.tasks
  nextTask : s'.nextTask = s.nextTask
  lookupTasks : s'.lookupTasks = s.lookupTasks
  announceTasks : s'.announceTasks = s.announceTasks

theorem Numbered.same (hs : s.Numbered) (h : SameTasks s s') : s'.Numbered :=
  hs.of_sub h.nextTask (fun _ _ hget => h.tasks ▸ hget) fun _ _ hget => h.announceTasks ▸ hget

theorem Tracked.same (hs : s.Tracked) (h : SameTasks s s') : s'.Tracked := by
  intro task work hwork
  rw [h.tasks] at hwork
  rw [← hs task work hwork]
  cases work <;> simp only [handleOf, h.lookupTasks, h.announceTasks]

theorem createTorrent_sameTasks (s : DhtSystem H) (metainfo : MetaInfo H)
    (resolved : Option (Info H)) (port : Option ℕ) :
    SameTasks s (s.createTorrent c metainfo resolved port) := by
  unfold createTorrent
  split
  · exact ⟨rfl, rfl, rfl, rfl⟩
  · split <;> exact ⟨rfl, rfl, rfl, rfl⟩

theorem lookupTorrent_sameTasks (s : DhtSystem H) (infoHash : H) :
    SameTasks s (s.lookupTorrent infoHash) := by
  unfold lookupTorrent
  split <;> exact ⟨rfl, rfl, rfl, rfl⟩

omit [DecidableEq H] in
/-- A task that is done runs no longer. -/
theorem get?_finishTask {task done : ℕ} {result : LookupResult} {work : DhtTask H}
    (h : (s.finishTask done result).tasks.get? task = some work) :
    s.tasks.get? task = some work := by
  unfold finishTask at h
  split at h
  · exact h
  · exact (HashMap.get?_of_get?_erase h).2

omit [DecidableEq H] in
theorem finishTask_tables (s : DhtSystem H) (done : ℕ) (result : LookupResult) :
    (s.finishTask done result).nextTask = s.nextTask ∧
      (s.finishTask done result).lookupTasks = s.lookupTasks ∧
      (s.finishTask done result).announceTasks = s.announceTasks := by
  unfold finishTask
  split <;> exact ⟨rfl, rfl, rfl⟩

/-- The steps in which the tasks may change: one is done, or the DHT actor is at work. -/
def MovesTasks : DhtEvent H → Prop
  | .finish _ _ | .handle | .resume => True
  | _ => False

theorem next_sameTasks (s : DhtSystem H) {event : DhtEvent H} (h : ¬ MovesTasks event) :
    SameTasks s (s.next c event) := by
  cases event with
  | add metainfo port => exact createTorrent_sameTasks s metainfo none port
  | restore snapshot port =>
      simp only [next, step]
      split
      · exact ⟨rfl, rfl, rfl, rfl⟩
      · exact createTorrent_sameTasks s _ _ port
  | remove infoHash =>
      simp only [next, step]
      split <;> exact ⟨rfl, rfl, rfl, rfl⟩
  | resolve actor info => exact ⟨rfl, rfl, rfl, rfl⟩
  | stop actor => exact ⟨rfl, rfl, rfl, rfl⟩
  | route seeds => exact ⟨rfl, rfl, rfl, rfl⟩
  | bootstrapped =>
      simp only [next, step]
      split <;> exact ⟨rfl, rfl, rfl, rfl⟩
  | answer =>
      simp only [next, step]
      split <;> exact ⟨rfl, rfl, rfl, rfl⟩
  | finish => exact absurd trivial h
  | handle => exact absurd trivial h
  | resume => exact absurd trivial h

theorem Numbered.handleMessage (hs : s.Numbered) (message : DhtMessage H) :
    (s.handleMessage message).1.Numbered := by
  cases message with
  | registerTorrent infoHash actor port =>
      have hinsert : Numbered { s with torrents := s.torrents.insert infoHash ⟨actor, port⟩ } :=
        hs.same ⟨rfl, rfl, rfl, rfl⟩
      exact hinsert.startLookup infoHash
  | unregisterTorrent infoHash => exact hs.removeTorrentRegistration infoHash
  | lookupTorrent infoHash => exact hs.same (lookupTorrent_sameTasks s infoHash)
  | refreshTorrents => exact refreshAll_keeps_of (fun _ h hs => hs.startLookup h) hs _
  | lookupFinished infoHash result => exact hs.lookupFinished infoHash result

theorem Numbered.next (hs : s.Numbered) (event : DhtEvent H) : (s.next c event).Numbered := by
  by_cases hmoves : MovesTasks event
  · cases event with
    | finish task result =>
        obtain ⟨hnext, -, hannounces⟩ := finishTask_tables s task result
        exact hs.of_sub hnext (fun _ _ h => get?_finishTask h) fun _ _ h => hannounces ▸ h
    | handle =>
        simp only [DhtSystem.next, step]
        split
        · rename_i message mailbox _ _
          have htaken : Numbered { s with mailbox } := hs.same ⟨rfl, rfl, rfl, rfl⟩
          exact htaken.handleMessage message
        · exact hs
    | resume =>
        simp only [DhtSystem.next, step]
        split
        · have hclear : Numbered { s with asking := none } := hs.same ⟨rfl, rfl, rfl, rfl⟩
          exact lookupAnswered_keeps_of (hclear.startLookup _)
            (hclear.removeTorrentRegistration _) _
        · exact hs
    | _ => exact absurd hmoves id
  · exact hs.same (next_sameTasks s hmoves)

/-- **What a message does to the tasks.** -/
theorem Tracked.handleMessage_iff (hs : s.Tracked) (hn : s.Numbered) (message : DhtMessage H) :
    (s.handleMessage message).1.Tracked ↔ ∀ infoHash result,
      message = .lookupFinished infoHash result → ∀ task, ¬ s.RunsLookup infoHash task := by
  cases message with
  | registerTorrent infoHash actor port =>
      refine iff_of_true ?_ (fun _ _ h => (nomatch h))
      have hinsert : Tracked { s with torrents := s.torrents.insert infoHash ⟨actor, port⟩ } :=
        hs.same ⟨rfl, rfl, rfl, rfl⟩
      exact hinsert.startLookup infoHash
  | unregisterTorrent infoHash =>
      exact iff_of_true (hs.removeTorrentRegistration infoHash) fun _ _ h => (nomatch h)
  | lookupTorrent infoHash =>
      exact iff_of_true (hs.same (lookupTorrent_sameTasks s infoHash)) fun _ _ h => (nomatch h)
  | refreshTorrents =>
      exact iff_of_true (refreshAll_keeps_of (fun _ h hs => hs.startLookup h) hs _)
        fun _ _ h => (nomatch h)
  | lookupFinished infoHash result =>
      refine (hs.lookupFinished_iff hn infoHash result).trans ?_
      constructor
      · intro h infoHash' result' heq
        cases heq
        exact h
      · exact fun h => h infoHash result rfl

/-- **What a step does to the tasks.** -/
theorem Tracked.next_iff (hs : s.Tracked) (hn : s.Numbered) (event : DhtEvent H) :
    (s.next c event).Tracked ↔ s.NoStale event := by
  by_cases hmoves : MovesTasks event
  · cases event with
    | finish done result =>
        refine iff_of_true ?_ trivial
        obtain ⟨-, hlookups, hannounces⟩ := finishTask_tables s done result
        intro task work h
        have hhandle := hs task work (get?_finishTask h)
        change (s.finishTask done result).handleOf work = some task
        cases work <;> simpa only [handleOf, hlookups, hannounces] using hhandle
    | handle =>
        simp only [DhtSystem.next, step, NoStale]
        split
        · rename_i message mailbox hnone hmailbox
          have htaken : Tracked { s with mailbox } := hs.same ⟨rfl, rfl, rfl, rfl⟩
          refine (htaken.handleMessage_iff (hn.same ⟨rfl, rfl, rfl, rfl⟩) message).trans ?_
          simp only [hnone, hmailbox, List.head?_cons, Option.some.injEq, true_implies]
          exact Iff.rfl
        · rename_i hcase
          refine iff_of_true hs ?_
          intro hnone infoHash result hhead
          obtain ⟨mailbox, hmailbox⟩ := List.head?_eq_some_iff.1 hhead
          exact absurd hmailbox (hcase _ mailbox hnone)
    | resume =>
        refine iff_of_true ?_ trivial
        simp only [DhtSystem.next, step]
        split
        · have hclear : Tracked { s with asking := none } := hs.same ⟨rfl, rfl, rfl, rfl⟩
          exact lookupAnswered_keeps_of (hclear.startLookup _)
            (hclear.removeTorrentRegistration _) _
        · exact hs
    | _ => exact absurd hmoves id
  · refine iff_of_true (hs.same (next_sameTasks s hmoves)) ?_
    cases event with
    | handle => exact absurd trivial hmoves
    | _ => trivial

/-! ### After a torrent is unregistered -/

/-- Nothing goes on for this hash: it is not registered, no task of it runs, and the DHT actor does not
ask its torrent. -/
structure Quiet (s : DhtSystem H) (infoHash : H) : Prop where
  torrents : s.torrents.get? infoHash = none
  tasks : ∀ task work, s.tasks.get? task = some work → work.infoHash ≠ infoHash
  asking : ∀ q, s.asking = some q → q.infoHash ≠ infoHash

/-- The step handles a registration of this hash. -/
def Registers (infoHash : H) (s : DhtSystem H) : DhtEvent H → Prop
  | .handle => s.asking = none ∧
      ∃ actor port, s.mailbox.head? = some (.registerTorrent infoHash actor port)
  | _ => False

/-- The step starts no lookup and no announcement for this hash. -/
def NoTraffic (c : Codec H) (infoHash : H) (s : DhtSystem H) (event : DhtEvent H) : Prop :=
  ∀ traffic ∈ (s.step c event).2, traffic.infoHash ≠ infoHash

variable {infoHash : H}

theorem Quiet.not_contains (hs : s.Quiet infoHash) : ¬ s.torrents.contains infoHash = true := by
  simp [HashMap.contains, hs.torrents]

/-- Tasks end, others are spawned for other hashes, and no torrent of the hash is registered. -/
theorem Quiet.of_sub (hs : s.Quiet infoHash) (htorrents : s'.torrents.get? infoHash = none)
    (htasks : ∀ task work, s'.tasks.get? task = some work →
      s.tasks.get? task = some work ∨ work.infoHash ≠ infoHash)
    (hasking : s'.asking = s.asking) : s'.Quiet infoHash := by
  refine ⟨htorrents, ?_, hasking ▸ hs.asking⟩
  intro task work h
  rcases htasks task work h with hold | hother
  · exact hs.tasks task work hold
  · exact hother

theorem Quiet.startLookup (hs : s.Quiet infoHash) (other : H) :
    (s.startLookup other).1.Quiet infoHash := by
  refine hs.of_sub ?_ ?_ (startLookup_keeps s other).asking
  · rw [startLookup_torrents]
    exact hs.torrents
  · intro task work h
    unfold DhtSystem.startLookup at h
    split at h
    · rename_i hregistered
      have hother : other ≠ infoHash := fun heq => hs.not_contains (heq ▸ hregistered)
      have hspawned (new : DhtTask H) (hnew : new.infoHash = other)
          (h : ((s.abort s.lookupTasks other).insert s.nextTask new).get? task = some work) :
          s.tasks.get? task = some work ∨ work.infoHash ≠ infoHash := by
        rw [HashMap.get?_insert, get?_abort] at h
        split at h
        · cases h
          exact .inr (hnew ▸ hother)
        · split at h
          · cases h
          · exact .inl h
      dsimp only at h
      split at h
      · exact hspawned (.lookup other) rfl h
      · exact hspawned (.timer other) rfl h
    · exact .inl h

theorem Quiet.removeTorrentRegistration (hs : s.Quiet infoHash) (other : H) :
    (s.removeTorrentRegistration other).Quiet infoHash := by
  refine hs.of_sub ?_ ?_ rfl
  · simp only [DhtSystem.removeTorrentRegistration, HashMap.get?_erase, hs.torrents, ite_self]
  · intro task work h
    simp only [DhtSystem.removeTorrentRegistration, get?_abort] at h
    split at h
    · cases h
    · split at h
      · cases h
      · exact .inl h

theorem Quiet.lookupFinished (hs : s.Quiet infoHash) (other : H) (result : LookupResult) :
    (s.lookupFinished other result).1.Quiet infoHash := by
  have htorrents : (s.lookupFinished other result).1.torrents.get? infoHash = none := by
    cases hget : (s.lookupFinished other result).1.torrents.get? infoHash with
    | none => rfl
    | some torrent =>
        have hold := (lookupFinished_keeps s other result).torrents infoHash torrent hget
        cases hs.torrents.symm.trans hold
  refine hs.of_sub htorrents ?_ (lookupFinished_keeps s other result).asking
  intro task work h
  unfold DhtSystem.lookupFinished at h
  dsimp only at h
  split at h
  · exact .inl h
  · rename_i torrent hget
    have hother : other ≠ infoHash := by
      rintro rfl
      cases hs.torrents.symm.trans hget
    split at h
    · exact .inl h
    · simp only [scheduleLookup, spawnLookup, HashMap.get?_insert] at h
      split at h
      · cases h
        exact .inr hother
      · split at h
        · cases h
          exact .inr hother
        · simp only [abort] at h
          split at h
          · exact .inl h
          · exact .inl (HashMap.get?_of_get?_erase h).2

theorem Quiet.handleMessage (hs : s.Quiet infoHash) (message : DhtMessage H)
    (hmessage : ∀ actor port, message ≠ .registerTorrent infoHash actor port) :
    (s.handleMessage message).1.Quiet infoHash ∧
      ∀ traffic ∈ (s.handleMessage message).2, traffic.infoHash ≠ infoHash := by
  cases message with
  | registerTorrent other actor port =>
      have hother : other ≠ infoHash := fun heq => hmessage actor port (heq ▸ rfl)
      have hinsert : Quiet { s with torrents := s.torrents.insert other ⟨actor, port⟩ } infoHash :=
        hs.of_sub ((HashMap.get?_insert_of_ne hother.symm).trans hs.torrents) (fun _ _ h => .inl h) rfl
      refine ⟨hinsert.startLookup other, ?_⟩
      intro traffic htraffic
      obtain ⟨rfl, -⟩ := (mem_startLookup_traffic _ other traffic).1 htraffic
      exact hother
  | unregisterTorrent other =>
      exact ⟨hs.removeTorrentRegistration other, fun _ h => absurd h List.not_mem_nil⟩
  | lookupTorrent other =>
      refine ⟨?_, fun _ h => absurd h List.not_mem_nil⟩
      simp only [DhtSystem.handleMessage, lookupTorrent]
      split
      · exact hs
      · rename_i torrent hget
        refine ⟨hs.torrents, hs.tasks, ?_⟩
        rintro q hq rfl
        cases hq
        cases hs.torrents.symm.trans hget
  | refreshTorrents =>
      refine ⟨refreshAll_keeps_of (I := fun s => s.Quiet infoHash)
        (fun _ h hs => hs.startLookup h) hs _, ?_⟩
      intro traffic htraffic
      obtain ⟨-, other, -, hregistered, rfl⟩ := (mem_refreshAll_traffic s _ traffic).1 htraffic
      exact fun heq => hs.not_contains (heq ▸ hregistered)
  | lookupFinished other result =>
      refine ⟨hs.lookupFinished other result, ?_⟩
      intro traffic htraffic
      obtain ⟨rfl, torrent, hget, -⟩ :=
        (mem_lookupFinished_traffic s other result traffic).1 htraffic
      rintro rfl
      cases hs.torrents.symm.trans hget

/-- The steps of the others register no torrent and ask none. -/
theorem next_torrents (s : DhtSystem H) {event : DhtEvent H} (h : ¬ MovesTasks event) :
    (s.next c event).torrents = s.torrents ∧ (s.step c event).2 = [] ∧
      ∀ q, (s.next c event).asking = some q → ∃ q', s.asking = some q' ∧ q'.infoHash = q.infoHash := by
  have hcreate (metainfo : MetaInfo H) (resolved : Option (Info H)) (port : Option ℕ) :
      (s.createTorrent c metainfo resolved port).torrents = s.torrents ∧
        (s.createTorrent c metainfo resolved port).asking = s.asking := by
    unfold createTorrent
    split
    · exact ⟨rfl, rfl⟩
    · split <;> exact ⟨rfl, rfl⟩
  cases event with
  | add metainfo port =>
      obtain ⟨htorrents, hasking⟩ := hcreate metainfo none port
      exact ⟨htorrents, rfl, fun q hq => ⟨q, hasking ▸ hq, rfl⟩⟩
  | restore snapshot port =>
      simp only [next, step]
      split
      · exact ⟨rfl, rfl, fun q hq => ⟨q, hq, rfl⟩⟩
      · obtain ⟨htorrents, hasking⟩ := hcreate snapshot.metainfo snapshot.resolvedMagnetInfo port
        exact ⟨htorrents, rfl, fun q hq => ⟨q, hasking ▸ hq, rfl⟩⟩
  | remove infoHash =>
      simp only [next, step]
      split <;> exact ⟨rfl, rfl, fun q hq => ⟨q, hq, rfl⟩⟩
  | resolve actor info => exact ⟨rfl, rfl, fun q hq => ⟨q, hq, rfl⟩⟩
  | stop actor => exact ⟨rfl, rfl, fun q hq => ⟨q, hq, rfl⟩⟩
  | route seeds => exact ⟨rfl, rfl, fun q hq => ⟨q, hq, rfl⟩⟩
  | bootstrapped =>
      simp only [next, step]
      split <;> exact ⟨rfl, rfl, fun q hq => ⟨q, hq, rfl⟩⟩
  | answer =>
      simp only [next, step]
      split
      · rename_i infoHash actor hasking
        refine ⟨rfl, rfl, ?_⟩
        intro q hq
        cases hq
        exact ⟨_, hasking, rfl⟩
      · exact ⟨rfl, rfl, fun q hq => ⟨q, hq, rfl⟩⟩
  | finish => exact absurd trivial h
  | handle => exact absurd trivial h
  | resume => exact absurd trivial h

/-- **Nothing goes on for a torrent that is unregistered**, until it is registered again. -/
theorem Quiet.next (hs : s.Quiet infoHash) {event : DhtEvent H} (h : ¬ Registers infoHash s event) :
    (s.next c event).Quiet infoHash ∧ NoTraffic c infoHash s event := by
  unfold NoTraffic
  by_cases hmoves : MovesTasks event
  · cases event with
    | finish done result =>
        refine ⟨hs.of_sub ?_ (fun _ _ h => .inl (get?_finishTask h)) ?_, fun _ h => absurd h List.not_mem_nil⟩
        · simp only [DhtSystem.next, step, finishTask]
          split <;> exact hs.torrents
        · simp only [DhtSystem.next, step, finishTask]
          split <;> rfl
    | handle =>
        simp only [DhtSystem.next, step]
        split
        · rename_i message mailbox hnone hmailbox
          have htaken : Quiet { s with mailbox } infoHash :=
            hs.of_sub hs.torrents (fun _ _ h => .inl h) rfl
          refine htaken.handleMessage message ?_
          rintro actor port rfl
          exact h ⟨hnone, actor, port, by rw [hmailbox]; rfl⟩
        · exact ⟨hs, fun _ h => absurd h List.not_mem_nil⟩
    | resume =>
        simp only [DhtSystem.next, step]
        split
        · rename_i other actor answer hasking
          have hother : other ≠ infoHash := hs.asking _ hasking
          have hclear : Quiet { s with asking := none } infoHash := by
            refine ⟨hs.torrents, hs.tasks, ?_⟩
            intro q hq
            cases hq
          refine ⟨lookupAnswered_keeps_of (I := fun s => s.Quiet infoHash)
            (hclear.startLookup other) (hclear.removeTorrentRegistration other) answer, ?_⟩
          intro traffic htraffic
          obtain ⟨rfl, -⟩ := (mem_lookupAnswered_traffic _ other answer traffic).1 htraffic
          exact hother
        · exact ⟨hs, fun _ h => absurd h List.not_mem_nil⟩
    | _ => exact absurd hmoves id
  · obtain ⟨htorrents, htraffic, hasking⟩ := next_torrents (c := c) s hmoves
    refine ⟨⟨htorrents ▸ hs.torrents, (next_sameTasks s hmoves).tasks ▸ hs.tasks, ?_⟩, ?_⟩
    · intro q hq
      obtain ⟨q', hq', heq⟩ := hasking q hq
      exact heq ▸ hs.asking q' hq'
    · rw [htraffic]
      exact fun _ h => absurd h List.not_mem_nil

/-- **After `UnregisterTorrent`** no task of the hash runs. -/
theorem Tracked.quiet_of_unregister (hs : s.Tracked) (hnone : s.asking = none)
    (hhead : s.mailbox.head? = some (.unregisterTorrent infoHash)) :
    (s.next c .handle).Quiet infoHash := by
  obtain ⟨mailbox, hmailbox⟩ := List.head?_eq_some_iff.1 hhead
  have hnext : s.next c .handle = { s with mailbox }.removeTorrentRegistration infoHash := by
    simp only [DhtSystem.next, step, hnone, hmailbox]
    rfl
  have htaken : Tracked { s with mailbox } := hs.same ⟨rfl, rfl, rfl, rfl⟩
  rw [hnext]
  refine ⟨HashMap.get?_erase_self _ _, fun task work h => (htaken.runs_of_removed h).2, ?_⟩
  intro q hq
  cases hnone.symm.trans hq

theorem Quiet.along (hs : s.Quiet infoHash) (events : List (DhtEvent H))
    (h : System.Along (fun s event => ¬ Registers infoHash s event) (DhtSystem.next c) s events) :
    System.Along (NoTraffic c infoHash) (DhtSystem.next c) s events ∧
      (events.foldl (DhtSystem.next c) s).Quiet infoHash := by
  have hstep (s : DhtSystem H) (event : DhtEvent H) (hs : s.Quiet infoHash)
      (hevent : ¬ Registers infoHash s event) : (s.next c event).Quiet infoHash := (hs.next hevent).1
  refine ⟨h.imp hstep ?_ hs, h.invariant hstep hs⟩
  intro s event hs hevent
  exact (hs.next hevent).2

/-- The invariant of the runs whose steps meet the condition. -/
theorem tracked_along (c : Codec H) (bootstrapping : Bool) (events : List (DhtEvent H))
    (h : System.Along NoStale (DhtSystem.next c) (init bootstrapping) events) :
    (events.foldl (DhtSystem.next c) (init bootstrapping)).Tracked ∧
      (events.foldl (DhtSystem.next c) (init bootstrapping)).Numbered := by
  refine h.invariant (I := fun s => s.Tracked ∧ s.Numbered) ?_
    ⟨fun _ _ h => (nomatch h), numbered_init bootstrapping⟩
  rintro s event ⟨hs, hn⟩ hevent
  exact ⟨(hs.next_iff hn event).2 hevent, hn.next event⟩

end DhtSystem

open DhtSystem in
/-- **Every task that runs is tracked**, in every run that does not take a lookup that is done for the
one that runs: each hash has at most one lookup or timer, which is the one in the table.  After
`UnregisterTorrent` no task of the hash runs, and no lookup of it begins until it is registered again.
The next step keeps the tasks tracked exactly if it meets the condition. -/
theorem dht_tasks_tracked (c : Codec H) (bootstrapping : Bool) (events : List (DhtEvent H))
    (h : System.Along NoStale (next c) (init bootstrapping) events) :
    let s := events.foldl (next c) (init bootstrapping)
    (∀ infoHash task, s.RunsLookup infoHash task → s.lookupTasks.get? infoHash = some task ∧
      ∀ other, s.RunsLookup infoHash other → other = task) ∧
    (∀ infoHash, s.asking = none → s.mailbox.head? = some (.unregisterTorrent infoHash) →
      (∀ task work, (s.next c .handle).tasks.get? task = some work → work.infoHash ≠ infoHash) ∧
      ∀ later, System.Along (fun s event => ¬ Registers infoHash s event) (next c) (s.next c .handle)
          later →
        System.Along (NoTraffic c infoHash) (next c) (s.next c .handle) later ∧
        ∀ task work, (later.foldl (next c) (s.next c .handle)).tasks.get? task = some work →
          work.infoHash ≠ infoHash) ∧
    ∀ event, (s.next c event).Tracked ↔ s.NoStale event := by
  obtain ⟨htracked, hnumbered⟩ := tracked_along c bootstrapping events h
  intro s
  have hlookup (infoHash : H) (task : ℕ) (hruns : s.RunsLookup infoHash task) :
      s.lookupTasks.get? infoHash = some task := by
    rcases hruns with hruns | hruns
    · exact htracked task _ hruns
    · exact htracked task _ hruns
  refine ⟨?_, ?_, fun event => htracked.next_iff hnumbered event⟩
  · intro infoHash task hruns
    refine ⟨hlookup infoHash task hruns, ?_⟩
    intro other hother
    exact Option.some.inj ((hlookup infoHash other hother).symm.trans (hlookup infoHash task hruns))
  · intro infoHash hnone hhead
    have hquiet : (s.next c .handle).Quiet infoHash := htracked.quiet_of_unregister hnone hhead
    refine ⟨hquiet.tasks, ?_⟩
    intro later hlater
    obtain ⟨htraffic, hend⟩ := hquiet.along later hlater
    exact ⟨htraffic, hend.tasks⟩

namespace Sample

/-- The hash of a magnet link. -/
def linkHash : Bytes := [7]

/-- A torrent is registered, and a lookup of it begins. -/
def registerOnce : List (DhtEvent Bytes) :=
  [.route true, .add (.magnetUri (some linkHash)) (some 6881), .handle]

/-- The lookup is done, and the DHT actor learns of it. -/
def lookupOnce : List (DhtEvent Bytes) := registerOnce ++ [.finish 0 ⟨[], []⟩, .handle]

/-- The bootstrap ends just before the lookup is done, so that a refresh stands before the result. -/
def lookupRefreshed : List (DhtEvent Bytes) :=
  registerOnce ++ [.bootstrapped, .finish 0 ⟨[], []⟩, .handle, .handle]

end Sample

open Sample in
theorem dht_tasks_tracked_sample :
    (lookupOnce.foldl (DhtSystem.next codec) (.init true)).RunsLookup linkHash 2 ∧
      (lookupOnce.foldl (DhtSystem.next codec) (.init true)).lookupTasks.get? linkHash = some 2 := by
  have hruns : (lookupOnce.foldl (DhtSystem.next codec) (.init true)).RunsLookup linkHash 2 :=
    .inr rfl
  refine ⟨hruns, ((dht_tasks_tracked codec true lookupOnce ?_).1 linkHash 2 hruns).1⟩
  refine ⟨trivial, trivial, fun _ _ _ h => (nomatch h), trivial, ?_, trivial⟩
  intro _ infoHash result _ task hruns
  rcases hruns with hruns | hruns
  · cases hruns
  · cases hruns

open Sample in
/-- A refresh between the end of a lookup and its message: a lookup and a timer run for the hash, and
the lookup goes on after the torrent is unregistered. -/
theorem stale_lookup_orphans_task :
    let s := lookupRefreshed.foldl (DhtSystem.next codec) (.init true)
    let t := [DhtEvent.remove linkHash, .handle].foldl (DhtSystem.next codec) s
    (s.RunsLookup linkHash 1 ∧ s.RunsLookup linkHash 3 ∧ s.lookupTasks.get? linkHash = some 3) ∧
      t.RunsLookup linkHash 1 ∧ t.torrents.get? linkHash = none :=
  ⟨⟨.inl rfl, .inr rfl, rfl⟩, .inl rfl, rfl⟩

end Tortillas
