import QKeySys.Core.Custody

/-! Every occupied slot has somebody who will release it, as long as init threads can be
created. This holds on all runs, also where an init thread switches the stage late.
-/

namespace QKeySys.Core

open QKeySys.Library

/-- The scheduler has accepted a SLAVE and not given its signal yet. -/
def SchedPc.accepting : SchedPc → Bool
  | .onActStage | .onActBlock | .onActReadType | .onActSignal _ _ => true
  | _ => false

/-- The scheduler has asked the init thread to end and will clear the slot. -/
def SchedPc.removing : SchedPc → Bool
  | .killJoin _ | .readPrev | .clearSlot _ => true
  | _ => false

@[simp]
theorem dispose_accepting (e : Event) : (Ctx.dispose e).accepting = false := by
  cases dir : e.dir <;> simp [Ctx.dispose, dir, SchedPc.accepting]

theorem dispose_handleEvent {e e' : Event} (disposed : Ctx.dispose e = .handleEvent e')
    : e'.dir = .master := by
  cases dir : e.dir <;> simp [Ctx.dispose, dir] at disposed
  rw [← disposed, dir]

namespace Ctx

variable {c c' : Ctx}

/-- Somebody works on the event in the slot: a live init thread started for exactly this
event that has not given its signal, or the execution layer between signal and completion.
-/
inductive WorkedOn (c : Ctx) : Prop where
  | initThread (k : Nat) (t : InitThread) (found : c.initThreads[k]? = some t)
      (before : t.pc.early = true ∨ t.pc.acting = true) (uncancelled : t.cancelled = false)
      (owner : t.owner = c.q.execEvent.id) (master : c.q.execEvent.dir = .master)
  | executing (stage : c.q.execEvent.stage = .exec)
      (signalled
        : (c.exec.wake = true ∧ c.q.execEvent.id ∈ c.exec.pendingIds)
          ∨ c.q.execEvent.id ∈ c.exec.dispatcher.ids)

/-- Creating an init thread succeeds. -/
def spawnSucceeds (c : Ctx) : Action → Prop
  | .sched ok => c.sched = .spawnCreate → ok = true
  | _ => True

/-- The init threads serve the MASTER in the slot, and every occupied slot is being worked
on or in the hands of the scheduler.
-/
structure HandedOn (c : Ctx) : Prop where
  owners
    : c.q.execEvent.dir = .master → c.sched.spawning = false →
        ∀ (k : Nat) (t : InitThread), c.initThreads[k]? = some t → t.pc.ended = false →
          t.owner = c.q.execEvent.id
          ∧ (t.pc.acting = true → c.q.hasExec = true → c.q.execEvent.stage = .exec)
          ∧ ∀ type id, t.pc = .signal type id → id = c.q.execEvent.id
  spawning : c.sched.spawning = true → c.q.execEvent.dir = .master
  slave
    : c.sched.accepting = true →
        c.q.execEvent.dir = .slave
        ∧ (c.sched ≠ .onActStage → c.q.hasExec = true → c.q.execEvent.stage = .exec)
        ∧ ∀ t id, c.sched = .onActSignal t id → id = c.q.execEvent.id
  install : ∀ e, c.sched = .handleEvent e → e.dir = .master
  worked
    : c.q.hasExec = true → c.sched.spawning = false → c.sched.accepting = false →
        c.sched.removing = false → c.WorkedOn

/-- Whether an event is worked on depends on the slot, the signals and the threads only. -/
theorem WorkedOn.same (now : c.WorkedOn) (event : c'.q.execEvent = c.q.execEvent)
    (exec : c'.exec = c.exec) (threads : c'.initThreads = c.initThreads)
    : c'.WorkedOn := by
  cases now with
  | initThread k t found before uncancelled owner master =>
      exact .initThread k t (threads ▸ found) before uncancelled (event ▸ owner)
        (event ▸ master)
  | executing stage signalled =>
      refine .executing (event ▸ stage) ?_
      rw [event, exec]
      exact signalled

/-- An event whose signal was given is executing. -/
theorem WorkedOn.of_inFlight (tagged : c.exec.Tagged) (stage : c.q.execEvent.stage = .exec)
    (member : c.q.execEvent.id ∈ c.exec.inFlight)
    : c.WorkedOn := by
  rcases List.mem_append.mp member with working | pending
  · exact .executing stage (.inr working)
  · exact .executing stage
      (.inl ⟨tagged.wake.mpr (List.ne_nil_of_mem pending), pending⟩)

namespace HandedOn

theorem init (role : Role) : (Ctx.init role).HandedOn := by
  constructor <;> simp [Ctx.init, Queue.init, SchedPc.spawning, SchedPc.accepting]

/-- A move between program points outside the scheduler's own care keeps everything. -/
theorem outside (now : c.HandedOn)
    (before
      : c.sched.spawning = false ∧ c.sched.accepting = false ∧ c.sched.removing = false)
    (spawning : c'.sched.spawning = false) (accepting : c'.sched.accepting = false)
    (install : ∀ e, c'.sched = .handleEvent e → e.dir = .master)
    (hasExec : c'.q.hasExec = c.q.hasExec) (event : c'.q.execEvent = c.q.execEvent)
    (exec : c'.exec = c.exec) (threads : c'.initThreads = c.initThreads)
    : c'.HandedOn where
  owners := by
    rw [event, threads, hasExec]
    exact fun master _ => now.owners master before.1
  spawning := by simp [spawning]
  slave := by simp [accepting]
  install := install
  worked := by
    rw [hasExec]
    exact fun occupied _ _ _ =>
      (now.worked occupied before.1 before.2.1 before.2.2).same event exec threads

/-- A move inside the scheduler's care that keeps slot and signals, and the program points
and owners of the threads.
-/
theorem inside (now : c.HandedOn) (q : c'.q = c.q)
    (after : c'.sched.spawning = true ∨ c'.sched.removing = true)
    (accepting : c'.sched.accepting = false)
    (spawning : c'.sched.spawning = true → c.sched.spawning = true)
    (removing : c'.sched.removing = true → c.sched.spawning = false)
    (install : ∀ e, c'.sched ≠ .handleEvent e)
    (threads
      : ∀ (k : Nat) (t' : InitThread), c'.initThreads[k]? = some t' →
          ∃ t, c.initThreads[k]? = some t ∧ t'.pc = t.pc ∧ t'.owner = t.owner)
    : c'.HandedOn where
  owners := by
    intro master quiet k t' found alive
    obtain ⟨t, found, pc, owner⟩ := threads k t' found
    have removing := removing (after.resolve_left (by simp [quiet]))
    rw [q] at master ⊢
    rw [pc, owner]
    exact now.owners master removing k t found (pc ▸ alive)
  spawning := by
    rw [q]
    exact fun busy => now.spawning (spawning busy)
  slave := by simp [accepting]
  install := fun e pc => absurd pc (install e)
  worked := by
    intro _ quiet _ kept
    rcases after with busy | busy
    · simp [quiet] at busy
    · simp [kept] at busy

/-- While a SLAVE is in the slot the scheduler may go on with it. -/
theorem onSlave (now : c.HandedOn) (before : c.sched.accepting = true)
    (after : c'.sched.accepting = true) (spawning : c'.sched.spawning = false)
    (dir : c'.q.execEvent.dir = c.q.execEvent.dir)
    (stage : c'.sched ≠ .onActStage → c'.q.hasExec = true → c'.q.execEvent.stage = .exec)
    (signal : ∀ t id, c'.sched = .onActSignal t id → id = c'.q.execEvent.id)
    (install : ∀ e, c'.sched ≠ .handleEvent e)
    : c'.HandedOn where
  owners := by
    rw [dir, (now.slave before).1]
    simp
  spawning := by simp [spawning]
  slave := fun _ => ⟨dir ▸ (now.slave before).1, stage, signal⟩
  install := fun e pc => absurd pc (install e)
  worked := by simp [after]

/-- The signal of a SLAVE hands it to the execution layer. -/
theorem actSignal (now : c.HandedOn) (tagged : c.exec.Tagged) {t : EventType} {id : Nat}
    (pc : c.sched = .onActSignal t id)
    : HandedOn { c with exec := c.exec.signal t c.role id, sched := .loopTop } := by
  obtain ⟨slave, stage, signal⟩ := now.slave (by rw [pc]; rfl)
  obtain rfl := signal t id pc
  constructor
  case owners => simp [slave]
  case worked =>
    intro occupied _ _ _
    refine .of_inFlight (tagged.signal _ _ _) (stage (by simp [pc]) occupied) ?_
    simp
  all_goals simp [SchedPc.spawning, SchedPc.accepting]

/-- A created init thread works on the event in the slot. -/
theorem spawned (now : c.HandedOn) (threads : c.OneThread) (pc : c.sched = .spawnCreate)
    : HandedOn {
        c with
        initMasterRunning := true
        initThreads := c.initThreads ++ [c.newThread]
        thInitMaster := some c.initThreads.length
        sched := .loopTop
      } := by
  have none := threads.alone (by rw [pc]; rfl)
  constructor
  case owners =>
    intro _ _ k t found alive
    rcases spawned_found found with ⟨rfl, rfl⟩ | found
    · exact ⟨rfl, by simp [newThread, InitPc.acting], by simp [newThread]⟩
    · simp [none k t found] at alive
  case worked =>
    intro _ _ _ _
    refine .initThread c.initThreads.length c.newThread (by simp) (.inl rfl) rfl rfl ?_
    exact now.spawning (by rw [pc]; rfl)
  all_goals simp [SchedPc.spawning, SchedPc.accepting]

/-- The scheduler's moves hand the slot on, by cases on the move. -/
theorem sched (now : c.HandedOn) (threads : c.OneThread) (tagged : c.exec.Tagged) {ok : Bool}
    (succeeds : c.sched = .spawnCreate → ok = true) (move : SchedMove c ok c')
    : c'.HandedOn := by
  cases move with
  | silent next move =>
      cases move with
      | readType pc =>
          refine now.onSlave (by rw [pc]; rfl) rfl rfl rfl ?_ (by simp) (by simp)
          exact fun _ => (now.slave (by rw [pc]; rfl)).2.1 (by simp [pc])
      | spawnFree pc idle =>
          refine now.inside rfl (.inl rfl) rfl ?_ ?_ (by simp)
            (fun _ t found => ⟨t, found, rfl, rfl⟩)
          all_goals simp [pc, SchedPc.spawning, SchedPc.removing]
      | readPrev pc =>
          refine now.inside rfl (.inr rfl) rfl ?_ ?_ (by simp)
            (fun _ t found => ⟨t, found, rfl, rfl⟩)
          all_goals simp [pc, SchedPc.spawning]
      | _ =>
          exact now.outside (by rw [‹c.sched = _›]; exact ⟨rfl, rfl, rfl⟩) rfl rfl (by simp)
            rfl rfl rfl rfl
  | claim e pc =>
      constructor <;>
        simp [claimed, SchedPc.spawning, SchedPc.accepting]
  | actStage pc =>
      refine now.onSlave (by rw [pc]; rfl) rfl rfl (by simp) ?_ (by simp) (by simp)
      intro _ occupied
      simp only [Queue.updateStage_hasExec] at occupied
      simp [Queue.updateStage_execEvent, occupied]
  | actBlock pc =>
      refine now.onSlave (by rw [pc]; rfl) rfl rfl rfl ?_ (by simp) (by simp)
      exact fun _ => (now.slave (by rw [pc]; rfl)).2.1 (by simp [pc])
  | actSignal t id pc => exact now.actSignal tagged pc
  | install e pc =>
      have master := now.install e pc
      rw [if_pos master]
      constructor <;> simp [SchedPc.spawning, SchedPc.accepting, master]
  | spawnKill k pc busy handle =>
      refine now.inside rfl (.inl rfl) rfl ?_ ?_ (by simp) (fun _ _ => requestCancel_found)
      all_goals simp [pc, SchedPc.spawning, SchedPc.removing]
  | spawnJoined k pc ended =>
      refine now.inside rfl (.inl rfl) rfl ?_ ?_ (by simp) (fun _ _ => join_found)
      all_goals simp [pc, SchedPc.spawning, SchedPc.removing]
  | spawned pc created => exact now.spawned threads pc
  | spawnFailed pc failed =>
      rw [succeeds pc] at failed
      cases failed
  | kill k pc handle =>
      refine now.inside rfl (.inr rfl) rfl ?_ ?_ (by simp) (fun _ _ => requestCancel_found)
      all_goals simp [pc, SchedPc.spawning]
  | killNone pc handle =>
      refine now.inside rfl (.inr rfl) rfl ?_ ?_ (by simp)
        (fun _ t found => ⟨t, found, rfl, rfl⟩)
      all_goals simp [pc, SchedPc.spawning]
  | killJoined k pc ended =>
      refine now.inside rfl (.inr rfl) rfl ?_ ?_ (by simp) (fun _ _ => join_found)
      all_goals simp [pc, SchedPc.spawning]
  | clear prev pc =>
      constructor
      case owners =>
        intro master _ k t found alive
        obtain ⟨owner, -, signal⟩ := now.owners master (by rw [pc]; rfl) k t found alive
        exact ⟨owner, by simp, signal⟩
      all_goals simp [SchedPc.spawning, SchedPc.accepting]
  | popReady e rest pc head =>
      refine now.outside ?_ (by simp) (by simp) (fun _ => dispose_handleEvent) rfl rfl rfl rfl
      rcases pc with pc | pc <;> rw [pc] <;> exact ⟨rfl, rfl, rfl⟩
  | popWait e heap pc popped =>
      exact now.outside (by rw [pc]; exact ⟨rfl, rfl, rfl⟩) (by simp) (by simp)
        (fun _ => dispose_handleEvent) rfl rfl rfl rfl
  | _ =>
      exact now.outside (by rw [‹c.sched = _›]; exact ⟨rfl, rfl, rfl⟩) rfl rfl (by simp)
        rfl rfl rfl rfl

/-- A thread that moves short of its signal still works on the event. -/
theorem worked_thread (worked : c.WorkedOn) {k : Nat} {t : InitThread} {pc : InitPc}
    (found : c.initThreads[k]? = some t)
    (before
      : t.pc.early = true ∨ t.pc.acting = true → pc.early = true ∨ pc.acting = true)
    (threads : c'.initThreads = (c.setInit k t pc).initThreads)
    (id : c'.q.execEvent.id = c.q.execEvent.id) (dir : c'.q.execEvent.dir = c.q.execEvent.dir)
    (stage : c.q.execEvent.stage = .exec → c'.q.execEvent.stage = .exec)
    (exec : c'.exec = c.exec)
    : c'.WorkedOn := by
  cases worked with
  | executing exec' signalled =>
      refine .executing (stage exec') ?_
      rw [id, exec]
      exact signalled
  | initThread k' t' found' before' uncancelled owner master =>
      by_cases same : k' = k
      · subst same
        obtain rfl := Option.some.inj (found'.symm.trans found)
        refine .initThread k' { t' with pc := pc } ?_ (before before') uncancelled
          (owner.trans id.symm) (dir.trans master)
        rw [threads, setInit_threads, List.getElem?_set_self]
        exact (List.getElem?_eq_some_iff.mp found).1
      · refine .initThread k' t' ?_ before' uncancelled (owner.trans id.symm) (dir.trans master)
        rw [threads, setInit_threads, List.getElem?_set_ne (Ne.symm same), found']

/-- A signal of an init thread for the event in the slot starts its execution. -/
theorem worked_signal (now : c.HandedOn) (tagged : c.exec.Tagged) {k : Nat} {t : InitThread}
    (found : c.initThreads[k]? = some t) {type : EventType} {id : Nat}
    (pc : t.pc = .signal type id) (occupied : c.q.hasExec = true)
    (quiet : c.sched.spawning = false) (worked : c.WorkedOn)
    : WorkedOn { c.setInit k t .clearRunning with exec := c.exec.signal type c.role id } := by
  cases worked with
  | executing stage signalled =>
      refine .of_inFlight (tagged.signal _ _ _) stage ?_
      rw [Exec.signal_inFlight]
      refine List.mem_append_left _ ?_
      rcases signalled with ⟨-, pending⟩ | working
      · exact List.mem_append_right _ pending
      · exact List.mem_append_left _ working
  | initThread k' t' found' before uncancelled owner master =>
      have alive : t.pc.ended = false := by rw [pc]; rfl
      obtain ⟨-, stage, signal⟩ := now.owners master quiet k t found alive
      refine .of_inFlight (tagged.signal _ _ _) (stage (by rw [pc]; rfl) occupied) ?_
      rw [Exec.signal_inFlight, signal type id pc]
      exact List.mem_append_right _ (List.mem_singleton.mpr rfl)

/-- The owner facts survive a move of one thread that respects them. -/
theorem owners_thread (now : c.HandedOn) {k : Nat} {t : InitThread} {pc : InitPc}
    (found : c.initThreads[k]? = some t) (alive : t.pc.ended = false)
    (threads : c'.initThreads = (c.setInit k t pc).initThreads)
    (sched : c'.sched = c.sched) (hasExec : c'.q.hasExec = c.q.hasExec)
    (id : c'.q.execEvent.id = c.q.execEvent.id) (dir : c'.q.execEvent.dir = c.q.execEvent.dir)
    (stage
      : c'.q.hasExec = true →
          c'.q.execEvent.stage = .exec ∨ c'.q.execEvent.stage = c.q.execEvent.stage)
    (acting
      : pc.acting = true →
          t.pc.acting = true ∨ (c'.q.hasExec = true → c'.q.execEvent.stage = .exec))
    (signal : ∀ type id, pc = .signal type id → id = c.q.execEvent.id)
    : c'.q.execEvent.dir = .master → c'.sched.spawning = false →
        ∀ (k : Nat) (t : InitThread), c'.initThreads[k]? = some t → t.pc.ended = false →
          t.owner = c'.q.execEvent.id
          ∧ (t.pc.acting = true → c'.q.hasExec = true → c'.q.execEvent.stage = .exec)
          ∧ ∀ type id, t.pc = .signal type id → id = c'.q.execEvent.id := by
  rw [dir, sched, id, threads]
  intro master quiet k' t' found' alive'
  have keep (stage' : c.q.hasExec = true → c.q.execEvent.stage = .exec)
      (occupied : c'.q.hasExec = true) : c'.q.execEvent.stage = .exec := by
    rcases stage occupied with exec | same
    · exact exec
    · rw [same]
      exact stage' (hasExec ▸ occupied)
  rcases setInit_found found' with ⟨rfl, rfl⟩ | ⟨-, found'⟩
  · obtain ⟨owner, exec, -⟩ := now.owners master quiet k' t found alive
    refine ⟨owner, fun acts => ?_, signal⟩
    rcases acting acts with acted | exec'
    · exact keep (exec acted)
    · exact exec'
  · obtain ⟨owner, exec, signal'⟩ := now.owners master quiet k' t' found' alive'
    exact ⟨owner, fun acts => keep (exec acts), signal'⟩

/-- The init threads hand the slot on to the execution layer, by cases on the move. -/
theorem initMove (now : c.HandedOn) (tagged : c.exec.Tagged)
    (go : c.stop = false) {k : Nat} {t : InitThread} (found : c.initThreads[k]? = some t)
    (move : InitMove c k t c')
    : c'.HandedOn := by
  have alive := move.alive
  cases move with
  | walk old new pc walk =>
      constructor
      case owners =>
        refine now.owners_thread found alive rfl rfl rfl rfl rfl (fun _ => .inr rfl) ?_ ?_
        · rw [pc]
          cases walk <;> simp [InitPc.acting]
        · cases walk <;> simp
      case worked =>
        intro occupied quiet accepting removing
        refine worked_thread (now.worked occupied quiet accepting removing) found ?_ rfl rfl rfl
          id rfl
        rw [pc]
        cases walk with
        | stopped elapsed stop => simp [go] at stop
        | _ => simp [InitPc.early, InitPc.acting]
      case spawning => exact now.spawning
      case slave => exact now.slave
      case install => exact now.install
  | stage pc =>
      have stage
          : c.q.hasExec = true → (c.q.updateStage .exec).execEvent.stage = .exec := by
        intro occupied
        simp [Queue.updateStage_execEvent, occupied]
      constructor
      case owners =>
        refine now.owners_thread found alive rfl rfl (by simp) (by simp) (by simp) ?_ ?_
          (by simp)
        · intro occupied
          exact .inl (stage (by simpa using occupied))
        · intro _
          exact .inr (fun occupied => stage (by simpa using occupied))
      case worked =>
        intro occupied quiet accepting removing
        have occupied : c.q.hasExec = true := by simpa using occupied
        exact worked_thread (now.worked occupied quiet accepting removing) found
          (by simp [InitPc.acting]) rfl (by simp) (by simp) (fun _ => stage occupied) rfl
      case slave =>
        intro accepting
        obtain ⟨dir, exec, signal⟩ := now.slave accepting
        exact ⟨by simpa using dir, fun _ occupied => stage (by simpa using occupied),
          by simpa using signal⟩
      case spawning => simpa using now.spawning
      case install => exact now.install
  | block pc =>
      constructor
      case owners =>
        exact now.owners_thread found alive rfl rfl rfl rfl rfl (fun _ => .inr rfl)
          (fun _ => .inl (by rw [pc]; rfl)) (by simp)
      case worked =>
        intro occupied quiet accepting removing
        exact worked_thread (now.worked occupied quiet accepting removing) found
          (by simp [InitPc.acting]) rfl rfl rfl id rfl
      case spawning => exact now.spawning
      case slave => exact now.slave
      case install => exact now.install
  | signal type id pc =>
      constructor
      case owners =>
        exact now.owners_thread found alive rfl rfl rfl rfl rfl (fun _ => .inr rfl)
          (by simp [InitPc.acting]) (by simp)
      case worked =>
        intro occupied quiet accepting removing
        exact now.worked_signal tagged found pc occupied quiet
          (now.worked occupied quiet accepting removing)
      case spawning => exact now.spawning
      case slave => exact now.slave
      case install => exact now.install
  | clear pc =>
      constructor
      case owners =>
        exact now.owners_thread found alive rfl rfl rfl rfl rfl (fun _ => .inr rfl)
          (by simp [InitPc.acting]) (by simp)
      case worked =>
        intro occupied quiet accepting removing
        exact worked_thread (now.worked occupied quiet accepting removing) found
          (by simp [pc, InitPc.early, InitPc.acting]) rfl rfl rfl id rfl
      case spawning => exact now.spawning
      case slave => exact now.slave
      case install => exact now.install

/-- A killed thread had a pending cancellation, so nobody relied on it. -/
theorem cancel (now : c.HandedOn) {k : Nat} {t : InitThread}
    (found : c.initThreads[k]? = some t) (pending : t.cancelled = true)
    (alive : t.pc.ended = false)
    : (c.setInit k t .killed).HandedOn where
  owners :=
    now.owners_thread found alive rfl rfl rfl rfl rfl (fun _ => .inr rfl)
      (by simp [InitPc.acting]) (by simp)
  spawning := now.spawning
  slave := now.slave
  install := now.install
  worked := by
    intro occupied quiet accepting removing
    cases now.worked occupied quiet accepting removing with
    | executing stage signalled => exact .executing stage signalled
    | initThread k' t' found' before uncancelled owner master =>
        refine .initThread k' t' ?_ before uncancelled owner master
        have other : k ≠ k' := by
          rintro rfl
          obtain rfl := Option.some.inj (found'.symm.trans found)
          simp [pending] at uncancelled
        rw [setInit_threads, List.getElem?_set_ne other, found']

/-- While signals are kept, so is the work on the event in the slot. -/
theorem keepSignals (now : c.HandedOn) {x : Exec} (tagged : x.Tagged)
    (inFlight : x.inFlight = c.exec.inFlight)
    : HandedOn { c with exec := x } := {
  now with
  worked := by
    intro occupied quiet accepting removing
    cases now.worked occupied quiet accepting removing with
    | initThread k t found before uncancelled owner master =>
        exact .initThread k t found before uncancelled owner master
    | executing stage signalled =>
        refine .of_inFlight tagged stage ?_
        rw [inFlight]
        rcases signalled with ⟨-, pending⟩ | working
        · exact List.mem_append_right _ pending
        · exact List.mem_append_left _ working
}

/-- The dispatcher works on the slot until it clears it, by cases on the move. -/
theorem dispatch (now : c.HandedOn) (tagged : c.exec.Tagged) (move : DispatchMove c c')
    : c'.HandedOn := by
  cases move with
  | inside x move busy => exact now.keepSignals (move.tagged tagged) (move.inFlight_eq busy)
  | clear t ids pc =>
      constructor
      case owners =>
        intro master quiet k t found alive
        obtain ⟨owner, -, signal⟩ := now.owners master quiet k t found alive
        exact ⟨owner, by simp, signal⟩
      case slave =>
        intro accepting
        obtain ⟨dir, -, signal⟩ := now.slave accepting
        exact ⟨dir, by simp, signal⟩
      case worked => simp
      case spawning => exact now.spawning
      case install => exact now.install
  | wake pc =>
      have move := Exec.DispatcherRule.notifyWake pc
      have kept := now.keepSignals (move.tagged tagged) (move.inFlight_eq (by simp [pc]))
      exact { kept with worked := fun occupied quiet accepting removing =>
        (kept.worked occupied quiet accepting removing).same rfl rfl rfl }

/-- Every move hands the slot on, by cases on the move. -/
theorem move (now : c.HandedOn) (threads : c.OneThread) (tagged : c.exec.Tagged)
    (go : c.stop = false) {action : Action} (succeeds : c.spawnSucceeds action)
    (move : Move c action c')
    : c'.HandedOn := by
  cases move with
  | arrive type dir payload =>
      exact { now with worked := fun occupied quiet accepting removing =>
        (now.worked occupied quiet accepting removing).same rfl rfl rfl }
  | reject type dir payload =>
      exact { now with worked := fun occupied quiet accepting removing =>
        (now.worked occupied quiet accepting removing).same rfl rfl rfl }
  | sched ok c' move => exact now.sched threads tagged succeeds move
  | wakeNonempty pc =>
      exact now.outside (by rw [pc]; exact ⟨rfl, rfl, rfl⟩) rfl rfl (by simp) rfl rfl rfl rfl
  | wakeForFifo pc =>
      exact now.outside (by rw [pc]; exact ⟨rfl, rfl, rfl⟩) rfl rfl (by simp) rfl rfl rfl rfl
  | init k t found c' move => exact now.initMove tagged go found move
  | cancel k t found pending alive =>
      exact now.cancel found pending (by rw [← dead_iff found]; exact alive)
  | dispatch c' move => exact now.dispatch tagged move
  | quiet action x same => exact now.keepSignals (same.tagged tagged) same.inFlight

end HandedOn

end Ctx

/-- In every state between two iterations an occupied slot is being worked on. -/
def SlotWorkedOn (system : Lts Ctx Action) : Prop :=
  ∀ c, system.Reachable c → c.sched.betweenIterations = true → c.q.hasExec = true →
    c.WorkedOn

theorem runsWhen_handedOn {role : Role} {c : Ctx}
    (reached : (runsWhen role Ctx.spawnSucceeds).Reachable c)
    : c.HandedOn := by
  refine runsWhen_induct Ctx.HandedOn (.init role) ?_ reached
  intro c action c' reached now succeeds move
  exact now.move (runsWhen_oneThread reached) (runsWhen_tagged reached)
    (runsWhen_go reached) succeeds move

/-- When init threads can be created, every occupied slot is worked on. -/
theorem spawnSucceeds_slotWorkedOn (role : Role)
    : SlotWorkedOn (runsWhen role Ctx.spawnSucceeds) := by
  intro c reached between occupied
  refine (runsWhen_handedOn reached).worked occupied ?_ ?_ ?_ <;>
    cases pc : c.sched <;> simp [pc, SchedPc.betweenIterations, SchedPc.spawning,
      SchedPc.accepting, SchedPc.removing] at between ⊢

/-- A MASTER is installed and the creation of its init thread fails. -/
def spawnFailedRun : List Action :=
  [.inject .keyRefill .master 0 true] ++ List.replicate 12 (.sched true) ++ [.sched false]

/-- The state after `spawnFailedRun`, with a MASTER in the slot and no thread at all. -/
def abandonedState : Ctx :=
  Option.get (Lts.execute runsStep (Ctx.init .a) spawnFailedRun) (by decide +kernel)

/-- An occupied slot can be abandoned: nobody works on the event of `spawnFailedRun`. -/
theorem spawnFailed_abandoned : ¬ ∀ role, SlotWorkedOn (runs role) := by
  intro always
  have reached : (runs .a).Reachable abandonedState := runs_reachable .a spawnFailedRun _
  have worked := always .a abandonedState reached (by decide +kernel) (by decide +kernel)
  cases worked with
  | initThread k t found =>
      have none : abandonedState.initThreads = [] := by decide +kernel
      simp [none] at found
  | executing stage => exact absurd stage (by decide +kernel)

end QKeySys.Core
