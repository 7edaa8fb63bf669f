import QKeySys.Core.AllRuns
import QKeySys.Core.Custody

/-! Stage and hard block: they agree in every state as long as no init thread switches the
stage, and the switch itself makes them disagree until the thread has set the block.
-/

namespace QKeySys.Core

open QKeySys.Library

/-- The hard block is on exactly while the slot holds an event in InitWait or Exec, and the
guard of an occupied slot is the priority of its event.
-/
structure Queue.Agrees (q : Queue) : Prop where
  block
    : q.hardBlocking = true
      ↔ q.hasExec = true ∧ (q.execEvent.stage = .iwait ∨ q.execEvent.stage = .exec)
  guard : q.hasExec = true → q.guardPriority = q.execEvent.priority

/-- A SLAVE is installed by the scheduler and waits for its stage to be switched. -/
def SchedPc.claiming : SchedPc → Bool
  | .onActStage => true
  | _ => false

/-- The scheduler has switched the stage of a SLAVE and not given the signal yet. -/
def SchedPc.switching : SchedPc → Bool
  | .onActBlock | .onActReadType | .onActSignal _ _ => true
  | _ => false

@[simp]
theorem dispose_claiming (e : Event) : (Ctx.dispose e).claiming = false := by
  cases dir : e.dir <;> simp [Ctx.dispose, dir, SchedPc.claiming]

@[simp]
theorem dispose_switching (e : Event) : (Ctx.dispose e).switching = false := by
  cases dir : e.dir <;> simp [Ctx.dispose, dir, SchedPc.switching]

namespace Ctx

variable {c c' : Ctx}

/-- No init thread executes `qks_queue_update_stage`. -/
def staysInInit (c : Ctx) : Action → Prop
  | .init k => ∀ t, c.initThreads[k]? = some t → t.pc ≠ .updateStage
  | _ => True

/-- No init thread is past its switch of the stage. -/
def NoneActing (threads : List InitThread) : Prop :=
  ∀ (k : Nat) (t : InitThread), threads[k]? = some t → t.pc.acting = false

/-- Stage and block agree, the signal is busy only between two iterations under a hard block,
and on the SLAVE path the slot is the scheduler's own.
-/
structure Settled (c : Ctx) : Prop where
  agrees : c.q.Agrees
  busy
    : c.exec.busy = true → c.q.hardBlocking = true ∧ c.sched.betweenIterations = true
  exclusive : c.exec.Exclusive
  claiming : c.sched.claiming = true → c.q.hasExec = true ∧ c.q.execEvent.stage = .iwait
  switching : c.sched.switching = true → c.q.hasExec = true ∧ c.q.execEvent.stage = .exec
  threads : NoneActing c.initThreads

theorem SameSlot.agrees {q q' : Queue} (same : SameSlot q q') (now : q.Agrees)
    : q'.Agrees := by
  obtain ⟨hasExec, event, block, guard⟩ := same
  constructor
  · rw [hasExec, event, block]
    exact now.block
  · rw [hasExec, event, guard]
    exact now.guard

/-- An installed event agrees with its guards when it is given the block of its stage. -/
theorem setExecSlot_agrees (q : Queue) (e : Event) (stage : Stage) (flag : Bool)
    (fits : flag = true ↔ stage = .iwait ∨ stage = .exec)
    : (q.setExecSlot e stage flag).Agrees := by
  constructor <;> simp [fits]

theorem clearExecSlot_agrees (q : Queue) : q.clearExecSlot.Agrees := by
  constructor <;> simp

/-- Threads at program points they were at before are as quiet as before. -/
theorem NoneActing.of_same {threads threads' : List InitThread} (quiet : NoneActing threads)
    (same
      : ∀ (k : Nat) (t' : InitThread), threads'[k]? = some t' →
          ∃ t, threads[k]? = some t ∧ t'.pc = t.pc)
    : NoneActing threads' := by
  intro k t' found'
  obtain ⟨t, found, pc⟩ := same k t' found'
  rw [pc]
  exact quiet k t found

theorem NoneActing.requestCancel (quiet : NoneActing c.initThreads) (k : Nat)
    : NoneActing (c.requestCancel k).initThreads :=
  quiet.of_same (fun _ _ found' =>
    have ⟨t, found, pc, _⟩ := requestCancel_found found'
    ⟨t, found, pc⟩)

theorem NoneActing.join (quiet : NoneActing c.initThreads) (k : Nat)
    : NoneActing (c.join k).initThreads :=
  quiet.of_same (fun _ _ found' =>
    have ⟨t, found, pc, _⟩ := join_found found'
    ⟨t, found, pc⟩)

theorem NoneActing.spawned (quiet : NoneActing c.initThreads)
    : NoneActing (c.initThreads ++ [c.newThread]) := by
  intro k t found
  rcases spawned_found found with ⟨-, rfl⟩ | found
  · rfl
  · exact quiet k t found

theorem NoneActing.setInit (quiet : NoneActing c.initThreads) (k : Nat) (t : InitThread)
    {pc : InitPc} (idle : pc.acting = false)
    : NoneActing (c.setInit k t pc).initThreads := by
  intro k' t' found'
  rcases setInit_found found' with ⟨-, rfl⟩ | ⟨-, found⟩
  · exact idle
  · exact quiet k' t' found

namespace Settled

theorem init (role : Role) : (Ctx.init role).Settled := by
  constructor
  case agrees => constructor <;> simp [Ctx.init, Queue.init]
  case threads => simp [NoneActing, Ctx.init]
  all_goals simp [Ctx.init, Exec.init, Exec.busy, Exec.Exclusive, DispatcherPc.working,
    SchedPc.claiming, SchedPc.switching]

/-- In the middle of an iteration there is no signal that has not cleared the slot. -/
theorem idle (now : c.Settled) (inside : c.sched.betweenIterations = false)
    : c.exec.busy = false := by
  cases busy : c.exec.busy with
  | false => rfl
  | true => simp [(now.busy busy).2] at inside

/-- On the SLAVE path after the switch the block is on. -/
theorem blocked (now : c.Settled) (switching : c.sched.switching = true)
    : c.q.hardBlocking = true := by
  obtain ⟨occupied, stage⟩ := now.switching switching
  exact now.agrees.block.mpr ⟨occupied, .inr stage⟩

/-- A move of the scheduler's program point that leaves slot and signal alone. -/
theorem goto (now : c.Settled) (slot : SameSlot c.q c'.q) (exec : c'.exec = c.exec)
    (between : c.sched.betweenIterations = true → c'.sched.betweenIterations = true
      ∨ c.q.hardBlocking = false)
    (claiming : c'.sched.claiming = false)
    (switching : c'.sched.switching = true → c.sched.switching = true)
    (quiet : NoneActing c'.initThreads)
    : c'.Settled where
  agrees := slot.agrees now.agrees
  busy busy := by
    obtain ⟨hard, before⟩ := now.busy (exec ▸ busy)
    refine ⟨slot.hardBlocking.trans hard, ?_⟩
    rcases between before with after | soft
    · exact after
    · simp [hard] at soft
  exclusive := exec ▸ now.exclusive
  claiming claims := by simp [claiming] at claims
  switching switches := by
    rw [slot.hasExec, slot.execEvent]
    exact now.switching (switching switches)
  threads := quiet

/-- A move outside the SLAVE path, within an iteration or between two. -/
theorem aside (now : c.Settled) (slot : SameSlot c.q c'.q) (exec : c'.exec = c.exec)
    (between : c.sched.betweenIterations = true → c'.sched.betweenIterations = true)
    (claiming : c'.sched.claiming = false) (switching : c'.sched.switching = false)
    (quiet : NoneActing c'.initThreads)
    : c'.Settled :=
  now.goto slot exec (fun before => .inl (between before)) claiming (by simp [switching]) quiet

/-- The silent moves, by cases on the move: only a soft guard leads into an iteration. -/
theorem silent (now : c.Settled) {next : SchedPc} (move : SilentMove c next)
    : Settled { c with sched := next } := by
  refine now.goto ⟨rfl, rfl, rfl, rfl⟩ rfl ?_ ?_ ?_ now.threads
  · cases move with
    | guardSoft pc soft => exact fun _ => .inr soft
    | _ => simp [*, SchedPc.betweenIterations]
  · cases move <;> rfl
  · cases move with
    | readType pc => simp [pc, SchedPc.switching]
    | _ => simp [SchedPc.switching]

/-- Whoever installs an event does so with no signal under way. -/
theorem installed (now : c.Settled) (inside : c.sched.betweenIterations = false) (e : Event)
    {stage : Stage} {flag : Bool} {next : SchedPc}
    (fits : flag = true ↔ stage = .iwait ∨ stage = .exec)
    (claiming : next.claiming = true → stage = .iwait) (switching : next.switching = false)
    : Settled { c with q := c.q.setExecSlot e stage flag, sched := next } where
  agrees := setExecSlot_agrees c.q e stage flag fits
  busy busy := by
    rw [Exec.busy, ← Exec.busy, now.idle inside] at busy
    cases busy
  exclusive := now.exclusive
  claiming claims := ⟨rfl, claiming claims⟩
  switching switches := by simp [switching] at switches
  threads := now.threads

/-- The switch of a SLAVE's stage keeps the agreement, since its block is on already. -/
theorem actStage (now : c.Settled) (pc : c.sched = .onActStage)
    : Settled { c with q := c.q.updateStage .exec, sched := .onActBlock } := by
  obtain ⟨occupied, stage⟩ := now.claiming (by rw [pc]; rfl)
  have block : c.q.hardBlocking = true := now.agrees.block.mpr ⟨occupied, .inl stage⟩
  have idle := now.idle (by rw [pc]; rfl)
  exact {
    agrees := by
      constructor
      · simp [occupied, block, Queue.updateStage_execEvent]
      · simpa [occupied] using now.agrees.guard occupied
    busy := by simp [idle]
    exclusive := now.exclusive
    claiming := by simp [SchedPc.claiming]
    switching := fun _ => by simp [occupied, Queue.updateStage_execEvent]
    threads := now.threads
  }

/-- The block that is set a second time was on. -/
theorem actBlock (now : c.Settled) (pc : c.sched = .onActBlock)
    : Settled { c with q := c.q.setBlocking true, sched := .onActReadType } := by
  have switching : c.sched.switching = true := by rw [pc]; rfl
  have block := now.blocked switching
  have same : SameSlot c.q (c.q.setBlocking true) := ⟨rfl, rfl, block.symm, rfl⟩
  exact now.goto same rfl (by simp [pc, SchedPc.betweenIterations]) rfl (fun _ => switching)
    now.threads

/-- The signal for a SLAVE is given under the block, and ends the iteration. -/
theorem actSignal (now : c.Settled) {t : EventType} {id : Nat}
    (pc : c.sched = .onActSignal t id)
    : Settled { c with exec := c.exec.signal t c.role id, sched := .loopTop } where
  agrees := now.agrees
  busy _ := ⟨now.blocked (by rw [pc]; rfl), rfl⟩
  exclusive _ := by
    have idle := now.idle (by rw [pc]; rfl)
    simp only [Exec.busy, Bool.or_eq_false_iff] at idle
    exact idle.2
  claiming := by simp [SchedPc.claiming]
  switching := by simp [SchedPc.switching]
  threads := now.threads

/-- The preempted event leaves a slot with no signal under way. -/
theorem clear (now : c.Settled) {prev : Event} (pc : c.sched = .clearSlot prev)
    : Settled { c with q := c.q.clearExecSlot, sched := .pushPrev prev } where
  agrees := clearExecSlot_agrees c.q
  busy := by simp [now.idle (by rw [pc]; rfl)]
  exclusive := now.exclusive
  claiming := by simp [SchedPc.claiming]
  switching := by simp [SchedPc.switching]
  threads := now.threads

/-- The scheduler's moves keep stage and block in agreement, by cases on the move. -/
theorem sched (now : c.Settled) {ok : Bool} (move : SchedMove c ok c')
    : c'.Settled := by
  have same : SameSlot c.q c.q := ⟨rfl, rfl, rfl, rfl⟩
  cases move with
  | start pc => exact now.aside same rfl (fun _ => rfl) rfl rfl now.threads
  | silent next move => exact now.silent move
  | sleepNonempty pc sleeps =>
      exact now.aside ⟨rfl, rfl, rfl, rfl⟩ rfl (fun _ => rfl) rfl rfl now.threads
  | sleepForFifo pc sleeps =>
      exact now.aside ⟨rfl, rfl, rfl, rfl⟩ rfl (fun _ => rfl) rfl rfl now.threads
  | popReady e rest pc head =>
      refine now.aside ⟨rfl, rfl, rfl, rfl⟩ rfl ?_ (by simp) (by simp) now.threads
      rcases pc with pc | pc <;> simp [pc, SchedPc.betweenIterations]
  | popWait e heap pc popped =>
      exact now.aside ⟨rfl, rfl, rfl, rfl⟩ rfl (by simp [pc, SchedPc.betweenIterations])
        (by simp) (by simp) now.threads
  | claim e pc => exact now.installed (by rw [pc]; rfl) _ (by simp) (fun _ => rfl) rfl
  | actStage pc => exact now.actStage pc
  | actBlock pc => exact now.actBlock pc
  | actSignal t id pc => exact now.actSignal pc
  | install e pc =>
      refine now.installed (by rw [pc]; rfl) _ (by simp) ?_ ?_
      · split <;> simp [SchedPc.claiming]
      · split <;> rfl
  | spawnKill k pc busy handle =>
      exact now.aside same rfl (by simp [pc, SchedPc.betweenIterations]) rfl rfl
        (now.threads.requestCancel k)
  | spawnJoined k pc ended =>
      exact now.aside same rfl (by simp [pc, SchedPc.betweenIterations]) rfl rfl
        (now.threads.join k)
  | spawned pc created =>
      exact now.aside same rfl (fun _ => rfl) rfl rfl now.threads.spawned
  | spawnFailed pc failed => exact now.aside same rfl (fun _ => rfl) rfl rfl now.threads
  | kill k pc handle =>
      exact now.aside same rfl (by simp [pc, SchedPc.betweenIterations]) rfl rfl
        (now.threads.requestCancel k)
  | killNone pc handle =>
      exact now.aside same rfl (by simp [pc, SchedPc.betweenIterations]) rfl rfl now.threads
  | killJoined k pc ended =>
      exact now.aside same rfl (by simp [pc, SchedPc.betweenIterations]) rfl rfl
        (now.threads.join k)
  | clear prev pc => exact now.clear pc
  | storePrev prev heap pc stored =>
      exact now.aside ⟨rfl, rfl, rfl, rfl⟩ rfl (by simp [pc, SchedPc.betweenIterations]) rfl
        rfl now.threads
  | losePrev prev pc failed =>
      exact now.aside same rfl (by simp [pc, SchedPc.betweenIterations]) rfl rfl now.threads
  | popBlocked f rest pc head master =>
      exact now.aside ⟨rfl, rfl, rfl, rfl⟩ rfl (by simp [pc, SchedPc.betweenIterations]) rfl
        rfl now.threads
  | drop f rest pc head slave =>
      exact now.aside ⟨rfl, rfl, rfl, rfl⟩ rfl (fun _ => rfl) rfl rfl now.threads
  | park f heap pc stored =>
      exact now.aside ⟨rfl, rfl, rfl, rfl⟩ rfl (fun _ => rfl) rfl rfl now.threads
  | loseBlocked f pc failed => exact now.aside same rfl (fun _ => rfl) rfl rfl now.threads

/-- A step of another thread that leaves the slot alone and hands signals on at most. -/
theorem same (now : c.Settled) (slot : SameSlot c.q c'.q)
    (handsOn : Exec.HandsOn c.exec c'.exec) (sched : c'.sched = c.sched)
    (quiet : NoneActing c'.initThreads)
    : c'.Settled where
  agrees := slot.agrees now.agrees
  busy busy := by
    rw [slot.hardBlocking, sched]
    exact now.busy (handsOn.busy ▸ busy)
  exclusive := handsOn.exclusive now.exclusive
  claiming := by
    rw [sched, slot.hasExec, slot.execEvent]
    exact now.claiming
  switching := by
    rw [sched, slot.hasExec, slot.execEvent]
    exact now.switching
  threads := quiet

/-- The moves of an init thread that does not switch the stage change no slot, by cases on
the move.
-/
theorem initMove (now : c.Settled) {k : Nat} {t : InitThread}
    (found : c.initThreads[k]? = some t) (stays : t.pc ≠ .updateStage)
    (move : InitMove c k t c')
    : c'.Settled := by
  have idle := now.threads k t found
  have slot : SameSlot c.q c.q := ⟨rfl, rfl, rfl, rfl⟩
  cases move with
  | walk old new pc walk =>
      refine now.same slot ⟨rfl, id⟩ rfl (now.threads.setInit k t ?_)
      cases walk with
      | readType => simp [pc, InitPc.acting] at idle
      | _ => rfl
  | stage pc => exact absurd pc stays
  | block pc => simp [pc, InitPc.acting] at idle
  | signal type id pc => simp [pc, InitPc.acting] at idle
  | clear pc => exact now.same slot ⟨rfl, id⟩ rfl (now.threads.setInit k t rfl)

/-- The end of an execution clears the slot between two iterations of the scheduler. -/
theorem done (now : c.Settled) {t : EventType} {ids : List Nat}
    (pc : c.exec.dispatcher = .notifyClear t ids) {x : Exec} (wake : x.wake = c.exec.wake)
    (done : x.dispatcher = .notifyWake) (log : CtxLog)
    : Settled { c with exec := x, q := c.q.clearExecSlot, log := log } := by
  have working : c.exec.dispatcher.working = true := by rw [pc]; rfl
  have quiet : c.exec.wake = false := by
    cases woken : c.exec.wake with
    | false => rfl
    | true => simp [now.exclusive woken] at working
  have between := (now.busy (by simp [Exec.busy, working])).2
  exact {
    agrees := clearExecSlot_agrees c.q
    busy := by simp [Exec.busy, wake, quiet, done, DispatcherPc.working]
    exclusive := by simp [Exec.Exclusive, wake, quiet]
    claiming := fun claims => by
      cases sched : c.sched <;> simp_all [SchedPc.claiming, SchedPc.betweenIterations]
    switching := fun switches => by
      cases sched : c.sched <;> simp_all [SchedPc.switching, SchedPc.betweenIterations]
    threads := now.threads
  }

/-- Every move without a switch of the stage by an init thread keeps the agreement, by cases
on the move.
-/
theorem move (now : c.Settled) {action : Action} (stays : c.staysInInit action)
    (move : AnyMove c action c')
    : c'.Settled := by
  have slot : SameSlot c.q c.q := ⟨rfl, rfl, rfl, rfl⟩
  cases move with
  | sched ok c' move => exact now.sched move
  | wakeNonempty pc => exact now.aside slot rfl (fun _ => rfl) rfl rfl now.threads
  | wakeForFifo pc => exact now.aside slot rfl (fun _ => rfl) rfl rfl now.threads
  | init k t found c' move => exact now.initMove found (stays t found) move
  | cancel k t found pending alive =>
      exact now.same slot ⟨rfl, id⟩ rfl (now.threads.setInit k t rfl)
  | clear t ids pc x log wake done => exact now.done pc wake done log
  | aside action q stop x log slot handsOn => exact now.same slot handsOn rfl now.threads

end Settled

end Ctx

-----------------------------------------------------------------------------------------
-- All runs
-----------------------------------------------------------------------------------------

/-- Stage and block agree in every reachable state; between two steps the queue is free. -/
def StageAgrees (system : Lts Ctx Action) : Prop :=
  ∀ c, system.Reachable c → c.q.Agrees

theorem staysInInit_settled {role : Role} {c : Ctx}
    (reached : (allRuns role Ctx.staysInInit).Reachable c)
    : c.Settled :=
  allRuns_induct Ctx.Settled (.init role) (fun _ _ _ _ now stays move => now.move stays move)
    reached

/-- When no init thread switches the stage, stage and block always agree. -/
theorem staysInInit_stageAgrees (role : Role) : StageAgrees (allRuns role Ctx.staysInInit) :=
  fun _ reached => (staysInInit_settled reached).agrees

section NoStop

variable {role : Role} {cond : Ctx → Action → Prop}

/-- A run without stop requests is one of the runs in which they are possible. -/
theorem runsWhen_allRuns {c : Ctx} (reached : (runsWhen role cond).Reachable c)
    : (allRuns role cond).Reachable c :=
  reached.of_meets (fun _ _ _ _ _ step => step.1.2)

/-- A thread that never switches the stage acts in time. -/
theorem Ctx.staysInInit.actsInTime {c : Ctx} {action : Action} (stays : c.staysInInit action)
    : c.actsInTime action := by
  cases action with
  | init k => exact fun _ => stays
  | _ => trivial

/-- Every switch of the stage by an init thread ends the agreement: the slot was a MASTER's in
its Init window, without a hard block.
-/
theorem updateStage_disagrees {c c' : Ctx} {k : Nat} {t : InitThread}
    (reached : (runsWhen role Ctx.staysInInit).Reachable c)
    (found : c.initThreads[k]? = some t) (switches : t.pc = .updateStage)
    (step : c.initStep k = some c')
    : ¬ c'.q.Agrees := by
  obtain ⟨holder, held⟩ := runsWhen_held (fun _ _ => Ctx.staysInInit.actsInTime) reached
  have window : holder = .window :=
    (held.threads.early k t found (by rw [switches]; rfl)).1
  have occupied : c.q.hasExec = true := by simp [held.hasExec, window]
  have stage : c.q.execEvent.stage = .init := (held.window window).1
  have soft : c.q.hardBlocking = false := by
    have agrees := (staysInInit_settled (runsWhen_allRuns reached)).agrees.block
    simpa [stage] using agrees
  obtain ⟨t', found', move⟩ := Ctx.initStep_move step
  obtain rfl : t = t' := Option.some.inj (found.symm.trans found')
  cases move with
  | stage pc =>
      intro agrees
      have block := agrees.block
      simp [Queue.updateStage_execEvent, occupied, soft] at block
  | walk old new pc walk =>
      obtain rfl : old = .updateStage := pc.symm.trans switches
      cases walk
  | block pc => simp [switches] at pc
  | signal type id pc => simp [switches] at pc
  | clear pc => simp [switches] at pc

/-- Without stop requests, stage and block agree in all runs of a kind exactly when no init
thread switches the stage in any of them.
-/
theorem runsWhen_stageAgrees_iff
    : StageAgrees (runsWhen role cond)
      ↔ ∀ c action c', (runsWhen role cond).Reachable c →
          (runsWhen role cond).next c action c' → c.staysInInit action := by
  constructor
  · intro agrees
    -- a first switch would lead to a disagreement at once
    have stays {c c' : Ctx} {action : Action}
        (early : (runsWhen role Ctx.staysInInit).Reachable c)
        (reached : (runsWhen role cond).Reachable c)
        (step : (runsWhen role cond).next c action c')
        : c.staysInInit action := by
      cases action with
      | init k =>
          intro t found switches
          exact updateStage_disagrees early found switches step.2
            (agrees c' (reached.next step))
      | _ => trivial
    have early {c : Ctx} (reached : (runsWhen role cond).Reachable c)
        : (runsWhen role Ctx.staysInInit).Reachable c :=
      reached.of_meets (fun _ _ _ reached early step =>
        ⟨step.1.1, stays early reached step⟩)
    exact fun c action c' reached step => stays (early reached) reached step
  · intro stays c reached
    have settled : (allRuns role Ctx.staysInInit).Reachable c :=
      reached.of_meets (fun c action c' reached _ step => stays c action c' reached step)
    exact (staysInInit_settled settled).agrees

end NoStop

/-- A MASTER is installed, and its init thread has just switched the stage. -/
def stageSwitchedRun : List Action :=
  [.inject .keyRefill .master 0 true] ++ List.replicate 13 (.sched true)
    ++ List.replicate 12 (.init 0)

/-- The state after `stageSwitchedRun`. -/
def stageSwitchedState : Ctx :=
  Option.get (Lts.execute runsStep (Ctx.init .a) stageSwitchedRun) (by decide +kernel)

/-- Stage and block do not always agree: after `stageSwitchedRun` the queue is free, the slot
is in Exec and the hard block is off.
-/
theorem stageSwitched_disagrees : ¬ ∀ role, StageAgrees (runs role) := by
  intro always
  have reached : (runs .a).Reachable stageSwitchedState := runs_reachable .a stageSwitchedRun _
  have block := (always .a stageSwitchedState reached).block
  have occupied : stageSwitchedState.q.hasExec = true := by decide +kernel
  have stage : stageSwitchedState.q.execEvent.stage = .exec := by decide +kernel
  have soft : stageSwitchedState.q.hardBlocking = false := by decide +kernel
  simp [occupied, stage, soft] at block

end QKeySys.Core
