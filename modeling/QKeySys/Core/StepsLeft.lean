import Mathlib.Algebra.BigOperators.Fin
import QKeySys.Core.Shutdown

/-! The steps that the threads have left once the stop flag is set: every step of a thread
costs at least one of them, and nothing that comes from outside adds one.
-/

namespace QKeySys.Core

-----------------------------------------------------------------------------------------
-- Program points
-----------------------------------------------------------------------------------------

/-- The steps that a master-init thread has left at most when the stop flag is set. -/
def InitPc.left : InitPc → Nat
  | .snapshot => 7
  | .ackWait _ => 6
  | .updateStage => 5
  | .setBlocking => 4
  | .readType => 3
  | .signal _ _ => 2
  | .clearRunning => 1
  | .finished | .killed => 0

/-- The steps that the scheduler has left at most when the stop flag is set, with those of a
thread that it may create on the way.
-/
def SchedPc.left : SchedPc → Nat
  | .exited => 0
  | .start | .loopTop | .stopCheck => 1
  | .waitNonempty | .waitForFifo | .onActSignal _ _ | .parkBlocked _ => 2
  | .asleepNonempty | .asleepForFifo | .peekForWait | .onActReadType | .popBlocked => 3
  | .readHasExec | .onActBlock => 4
  | .onActStage => 5
  | .acceptAndClaim _ => 6
  | .spawnCreate => 9
  | .spawnJoin _ => 10
  | .spawnCheck => 11
  | .handleEvent _ => 12
  | .freePopReady | .freePopWait | .popPreempting => 13
  | .freePeekWait _ | .pushPrev _ => 14
  | .freePeekFifo | .clearSlot _ => 15
  | .readPrev => 16
  | .killJoin _ => 17
  | .killCurrent => 18
  | .readDir _ _ => 19
  | .readStage _ _ => 20
  | .busyPeekFifo _ => 21
  | .readSlot _ => 22
  | .getGuard => 23

def DispatcherPc.left : DispatcherPc → Nat
  | .exited => 0
  | .wait => 1
  | .asleep | .notifyWake => 2
  | .notifyClear _ _ => 3
  | .waitDone _ _ => 4
  | .asleepDone _ _ | .wakeWorker _ _ _ => 5

def WorkerPc.left : WorkerPc → Nat
  | .exited => 0
  | .wait => 1
  | .asleep | .running => 2

def PollerPc.left : PollerPc → Nat
  | .absent | .exited => 0
  | .polling => 1
  | .starting => 2

def TimerPc.left : TimerPc → Nat
  | .absent | .exited => 0
  | .setStop => 1
  | .sleeping _ => 2

/-- The steps of the stop sequence, in its order; the timer is created before it. -/
def MainPc.left : MainPc → Nat
  | .returned => 0
  | .killJoin _ => 1
  | .killCurrent => 2
  | .joinWorker i => 8 - i
  | .joinDispatcher => 9
  | .wakeWorker i => 15 - i
  | .execStop => 16
  | .joinPoller .storage => 17
  | .joinPoller .clock => 18
  | .joinPoller .zigbee => 19
  | .joinPoller .injector => 20
  | .stopInjector => 21
  | .joinScheduler => 22
  | .wake => 23
  | .setStop => 24
  | .polling => 25
  | .createTimer => 28

-----------------------------------------------------------------------------------------
-- Threads
-----------------------------------------------------------------------------------------

/-- The step is one of a thread, and neither an injection nor a request for the stop. -/
def Action.byThread : Action → Bool
  | .inject _ _ _ _ | .requestStop => false
  | _ => true

namespace Exec

def left (x : Exec) : Nat := x.dispatcher.left + ∑ i, (x.worker i).left

variable {x y : Exec}

/-- One worker moves. -/
theorem left_update (i : Fin 6) (pc : WorkerPc)
    : ∑ j, (Function.update x.worker i pc j).left + (x.worker i).left
      = ∑ j, (x.worker j).left + pc.left := by
  have others : ∑ j ∈ Finset.univ.erase i, (Function.update x.worker i pc j).left
      = ∑ j ∈ Finset.univ.erase i, (x.worker j).left :=
    Finset.sum_congr rfl fun j inside => by
      rw [Function.update_of_ne (Finset.ne_of_mem_erase inside)]
  rw [← Finset.add_sum_erase _ _ (Finset.mem_univ i),
    ← Finset.add_sum_erase Finset.univ (fun j => (x.worker j).left) (Finset.mem_univ i), others,
    Function.update_self]
  omega

/-- With the stop flag set, the dispatcher never goes to sleep. -/
theorem dispatcherStep_left (step : x.dispatcherStep true = some y) : y.left < x.left := by
  have lowered : y.dispatcher.left < x.dispatcher.left ∧ y.worker = x.worker := by
    unfold dispatcherStep at step
    cases pc : x.dispatcher with
    | wait | wakeWorker t r ids | waitDone t ids | notifyClear t ids | notifyWake =>
        simp only [pc, Bool.not_true, Bool.and_false, Bool.false_eq_true, if_false, if_true,
          Option.some.injEq] at step
        subst step
        exact ⟨by simp [DispatcherPc.left], rfl⟩
    | asleep | asleepDone t ids | exited => simp [pc] at step
  rw [left, left, lowered.2]
  omega

theorem dispatcherReturn_left (step : x.dispatcherReturn = some y) : y.left < x.left := by
  rcases dispatcherReturn_cases step with ⟨pc, rfl⟩ | ⟨t, ids, pc, rfl⟩ <;>
    simp [left, pc, DispatcherPc.left]

/-- With the stop flag set, no worker goes to sleep. -/
theorem workerStep_left {i : Fin 6} (step : x.workerStep true i = some y)
    : y.left < x.left := by
  have lowered
      : ∃ pc, pc.left < (x.worker i).left ∧ y.worker = Function.update x.worker i pc
          ∧ y.dispatcher = x.dispatcher := by
    unfold workerStep at step
    cases pc : x.worker i with
    | wait | running =>
        simp only [pc, Bool.not_true, Bool.and_false, Bool.false_eq_true, if_false, if_true,
          Option.some.injEq] at step
        subst step
        exact ⟨_, by simp [WorkerPc.left], rfl, rfl⟩
    | asleep | exited => simp [pc] at step
  obtain ⟨pc, less, workers, dispatcher⟩ := lowered
  have moved := x.left_update i pc
  rw [left, left, workers, dispatcher]
  omega

theorem workerReturn_left {i : Fin 6} (step : x.workerReturn i = some y) : y.left < x.left := by
  obtain ⟨pc, rfl⟩ := workerReturn_cases step
  have moved := x.left_update i .wait
  rw [pc] at moved
  simp only [left, WorkerPc.left] at moved ⊢
  omega

end Exec

/-- The sum of a list in which one entry is replaced. -/
theorem sum_map_set {α : Type*} (f : α → Nat) {entries : List α} {k : Nat} {old : α}
    (found : entries[k]? = some old) (new : α)
    : ((entries.set k new).map f).sum + f old = (entries.map f).sum + f new := by
  induction entries generalizing k with
  | nil => cases found
  | cons first rest ih =>
      cases k with
      | zero =>
          obtain rfl := Option.some.inj found
          simp only [List.set_cons_zero, List.map_cons, List.sum_cons]
          omega
      | succ k =>
          have tail := ih (k := k) (by simpa using found)
          simp only [List.set_cons_succ, List.map_cons, List.sum_cons]
          omega

namespace Ctx

def threadsLeft (c : Ctx) : Nat := (c.initThreads.map (fun t => t.pc.left)).sum

/-- The steps that the threads of the context have left at most when the stop flag is set. -/
def left (c : Ctx) : Nat := c.sched.left + c.threadsLeft + c.exec.left

variable {c c' : Ctx}

theorem threadsLeft_setInit {k : Nat} {t : InitThread} (found : c.initThreads[k]? = some t)
    (pc : InitPc)
    : (c.setInit k t pc).threadsLeft + t.pc.left = c.threadsLeft + pc.left :=
  sum_map_set (fun t => t.pc.left) found _

/-- Cancellations and joins are marks on a thread. -/
theorem threadsLeft_modify (k : Nat) (mark : InitThread → InitThread)
    (same : ∀ t, (mark t).pc = t.pc)
    : ((c.initThreads.modify k mark).map (fun t => t.pc.left)).sum = c.threadsLeft := by
  have entries : (c.initThreads.modify k mark).map InitThread.pc
      = c.initThreads.map InitThread.pc := by
    refine List.ext_getElem? (fun i => ?_)
    rw [List.getElem?_map, List.getElem?_map, List.getElem?_modify]
    cases c.initThreads[i]? with
    | none => rfl
    | some t => by_cases here : k = i <;> simp [here, same]
  have sums := congrArg (fun pcs : List InitPc => (pcs.map InitPc.left).sum) entries
  simpa only [threadsLeft, List.map_map, Function.comp_def] using sums

theorem dispose_left (e : Event) : (dispose e).left ≤ 12 := by
  unfold dispose
  split <;> simp [SchedPc.left]

/-- The scheduler walks towards its exit. -/
theorem SilentMove.left {next : SchedPc} (move : SilentMove c next) (stopped : c.stop = true)
    : next.left < c.sched.left := by
  cases move with
  | loop pc go | goOn pc go => cases go.symm.trans stopped
  | exitTop pc | seesFree pc | seesBusy pc | nonemptyAwake pc | fifoEmpty pc | fifoFilled pc
  | fifoAwake pc | exitCheck pc | guardHard pc | guardSoft pc | free pri pc | busy pri pc
  | peekFree pc | nothing pc | takeFifo f pc | takeHeap f h pc | readType pc | spawnFree pc
  | nothingNew pri pc | peekBusy pri f pc | stageInit pri f pc | stageOther pri f pc
  | preempt pri f pc | noPreempt pri f pc | readPrev pc =>
      rw [pc]
      simp [SchedPc.left]

/-- Every move of a scheduler that has begun costs a step. A created thread was paid for. -/
theorem SchedMove.left {ok : Bool} (move : SchedMove c ok c') (stopped : c.stop = true)
    (begun : c.sched ≠ .start)
    : c'.left < c.left := by
  cases move with
  | start pc => exact absurd pc begun
  | silent next move =>
      have less := move.left stopped
      simp only [Ctx.left, threadsLeft] at less ⊢
      omega
  | sleepNonempty pc sleeps => simp [Queue.nonemptySleeps, stopped] at sleeps
  | sleepForFifo pc sleeps => simp [Queue.fifoSleeps, stopped] at sleeps
  | popReady e rest pc head =>
      have next := dispose_left e
      have here : c.sched.left = 13 := by rcases pc with pc | pc <;> rw [pc] <;> rfl
      simp only [Ctx.left, threadsLeft, here]
      omega
  | popWait e heap pc popped =>
      have next := dispose_left e
      have here : c.sched.left = 13 := by rw [pc]; rfl
      simp only [Ctx.left, threadsLeft, here]
      omega
  | install e pc =>
      have next : (if e.dir = .master then SchedPc.spawnCheck else .loopTop).left
          ≤ 11 := by
        split <;> simp [SchedPc.left]
      have here : c.sched.left = 12 := by rw [pc]; rfl
      simp only [Ctx.left, threadsLeft, here]
      omega
  | spawnKill k pc | kill k pc =>
      have same := c.threadsLeft_modify k (fun t => { t with cancelled := true }) (fun _ => rfl)
      simp only [Ctx.left, pc, SchedPc.left, requestCancel, threadsLeft] at same ⊢
      omega
  | spawnJoined k pc | killJoined k pc =>
      have same := c.threadsLeft_modify k (fun t => { t with joined := true }) (fun _ => rfl)
      simp only [Ctx.left, pc, SchedPc.left, join, threadsLeft] at same ⊢
      omega
  | spawned pc created =>
      simp only [Ctx.left, pc, SchedPc.left, threadsLeft, newThread, List.map_append,
        List.map_cons, List.map_nil, List.sum_append, List.sum_singleton, InitPc.left]
      omega
  | claim e pc | actStage pc | actBlock pc | actSignal t id pc | spawnFailed pc | killNone pc
  | clear prev pc | storePrev prev heap pc | losePrev prev pc | popBlocked f rest pc
  | drop f rest pc | park f heap pc | loseBlocked f pc =>
      simp only [Ctx.left, pc, SchedPc.left, threadsLeft, Exec.signal, Exec.left]
      omega

/-- A master-init thread walks towards its end. -/
theorem InitMove.left {k : Nat} {t : InitThread} (found : c.initThreads[k]? = some t)
    (move : InitMove c k t c') (stopped : c.stop = true)
    : c'.left < c.left := by
  have lowered
      : ∃ pc, pc.left < t.pc.left ∧ c'.initThreads = (c.setInit k t pc).initThreads
          ∧ c'.sched = c.sched ∧ c'.exec.left = c.exec.left := by
    cases move with
    | walk old new pc walk =>
        refine ⟨new, ?_, rfl, rfl, rfl⟩
        rw [pc]
        cases walk with
        | tick elapsed go => cases go.symm.trans stopped
        | snapshot | stopped | acknowledged | readType => simp [InitPc.left]
    | stage pc | block pc | signal type id pc | clear pc =>
        exact ⟨_, by rw [pc]; simp [InitPc.left], rfl, rfl, rfl⟩
  obtain ⟨pc, less, threads, sched, exec⟩ := lowered
  have moved := threadsLeft_setInit found pc
  simp only [threadsLeft, ← threads] at moved
  simp only [Ctx.left, sched, exec, threadsLeft]
  omega

/-- Every step of a thread costs one of those that are left. -/
theorem step_left {action : Action} (step : c.step action = some c')
    (stopped : c.stop = true) (begun : c.sched ≠ .start)
    : if action.byThread then c'.left < c.left else c'.left = c.left := by
  cases action with
  | inject type dir payload mallocOk | requestStop =>
      obtain rfl := Option.some.inj step
      rfl
  | sched ok => exact (schedStep_move step).left stopped begun
  | schedReturn =>
      rcases schedReturn_cases step with ⟨pc, rfl⟩ | ⟨pc, rfl⟩ <;>
        simp [Ctx.left, pc, SchedPc.left, threadsLeft, Action.byThread]
  | init k =>
      obtain ⟨t, found, move⟩ := initStep_move step
      exact move.left found stopped
  | cancel k =>
      obtain ⟨t, found, -, alive, rfl⟩ := cancelEffect_cases step
      have moved : (c.setInit k t .killed).threadsLeft + t.pc.left = c.threadsLeft + 0 :=
        threadsLeft_setInit found .killed
      have some_left : 0 < t.pc.left := by
        rw [dead_iff found] at alive
        cases pc : t.pc <;> simp [pc, InitPc.ended, InitPc.left] at alive ⊢
      simp only [Action.byThread, if_true, Ctx.left, setInit_sched, setInit_exec]
      omega
  | dispatcher =>
      obtain ⟨x, inner, rfl⟩ := Option.map_eq_some_iff.mp step
      rw [stopped] at inner
      have less := Exec.dispatcherStep_left inner
      simp only [Action.byThread, if_true]
      split <;> simp only [Ctx.left, threadsLeft] <;> omega
  | dispatcherReturn =>
      obtain ⟨x, inner, rfl⟩ := Option.map_eq_some_iff.mp step
      have less := Exec.dispatcherReturn_left inner
      simp only [Action.byThread, if_true, Ctx.left, threadsLeft]
      omega
  | worker i =>
      obtain ⟨x, inner, rfl⟩ := Option.map_eq_some_iff.mp step
      rw [stopped] at inner
      have less := Exec.workerStep_left inner
      simp only [Action.byThread, if_true, Ctx.left, threadsLeft]
      omega
  | workerReturn i =>
      obtain ⟨x, inner, rfl⟩ := Option.map_eq_some_iff.mp step
      have less := Exec.workerReturn_left inner
      simp only [Action.byThread, if_true, Ctx.left, threadsLeft]
      omega

end Ctx

namespace Program

/-- The steps that all threads have left at most when the stop flag is set. -/
def left (p : Program) : Nat :=
  p.main.left + p.timer.left
    + ((p.poller .injector).left + (p.poller .zigbee).left + (p.poller .clock).left
      + (p.poller .storage).left)
    + p.ctx.left

variable {p p' : Program}

/-- The places behind the two loops over the workers continue those of the loops. -/
theorem nextWorker_left (i : Fin 6)
    : ((nextWorker i).elim MainPc.joinDispatcher .wakeWorker).left = 14 - i
      ∧ ((nextWorker i).elim MainPc.killCurrent .joinWorker).left = 7 - i := by
  revert i
  decide

/-- The main thread walks through its stop sequence. -/
theorem mainStep_left {ok : Bool} (step : p.mainStep ok = some p')
    (stopped : p.ctx.stop = true)
    : p'.left < p.left := by
  unfold mainStep at step
  cases pc : p.main with
  | createTimer =>
      simp only [pc, Option.some.injEq] at step
      subst step
      have timer : (if 0 < p.cfg.runSeconds ∧ ok = true then TimerPc.sleeping 0
          else .absent).left ≤ 2 := by split <;> decide
      simp only [left, pc, MainPc.left]
      omega
  | polling =>
      simp only [pc, stopped, if_true, Option.some.injEq] at step
      subst step
      simp only [left, pc, MainPc.left]
      omega
  | setStop | wake | stopInjector | execStop =>
      simp only [pc, Option.some.injEq] at step
      subst step
      simp only [left, pc, MainPc.left, Ctx.left, Ctx.threadsLeft, Exec.left]
      omega
  | joinScheduler | joinDispatcher =>
      simp only [pc] at step
      split at step
      · obtain rfl := Option.some.inj step
        simp only [left, pc, MainPc.left]
        omega
      · cases step
  | joinPoller x =>
      have next : (afterPoller x).left < (MainPc.joinPoller x).left := by cases x <;> decide
      simp only [pc] at step
      split at step <;> cases step <;> simp only [left, pc] <;> omega
  | wakeWorker i =>
      have next := (nextWorker_left i).1
      simp only [pc, Option.some.injEq] at step
      subst step
      simp only [left, pc, next, Ctx.left, Ctx.threadsLeft, Exec.left]
      simp only [MainPc.left]
      omega
  | joinWorker i =>
      have next := (nextWorker_left i).2
      simp only [pc] at step
      split at step
      · obtain rfl := Option.some.inj step
        simp only [left, pc, next]
        simp only [MainPc.left]
        omega
      · cases step
  | killCurrent =>
      simp only [pc] at step
      split at step <;> obtain rfl := Option.some.inj step
      case h_1 k _ =>
        have same := p.ctx.threadsLeft_modify k (fun t => { t with cancelled := true })
          (fun _ => rfl)
        simp only [left, pc, MainPc.left, Ctx.left, Ctx.requestCancel, Ctx.threadsLeft]
          at same ⊢
        omega
      case h_2 =>
        simp only [left, pc, MainPc.left, Ctx.left, Ctx.threadsLeft]
        omega
  | killJoin k =>
      have same :=
        p.ctx.threadsLeft_modify k (fun t => { t with joined := true }) (fun _ => rfl)
      simp only [pc] at step
      split at step
      · obtain rfl := Option.some.inj step
        simp only [left, pc, MainPc.left, Ctx.left, Ctx.join, Ctx.threadsLeft] at same ⊢
        omega
      · cases step
  | returned => simp [pc] at step

theorem timerStep_left (step : p.timerStep = some p') (stopped : p.ctx.stop = true)
    : p'.left < p.left := by
  unfold timerStep at step
  cases pc : p.timer with
  | sleeping i | setStop =>
      simp only [pc, stopped, Bool.true_eq_false, and_false, if_false, Option.some.injEq]
        at step
      subst step
      simp only [left, pc, TimerPc.left, Ctx.left, Ctx.threadsLeft]
      omega
  | absent | exited => simp [pc] at step

/-- A polling thread begins or sees the flag. -/
theorem pollerStep_left {x : Poller} (step : p.pollerStep x = some p')
    (stopped : p.ctx.stop = true)
    : p'.left < p.left := by
  unfold pollerStep at step
  cases pc : p.poller x with
  | starting | polling =>
      simp only [pc, stopped, true_or, if_true, Option.some.injEq] at step
      subst step
      cases x <;> simp [left, pc, setPoller, PollerPc.left]
  | absent | exited => simp [pc] at step

end Program

/-- The step is one of a thread, and neither an injection nor a request for the stop. -/
def ProgramAction.byThread : ProgramAction → Prop
  | .ctx action => action.byThread = true
  | _ => True

/-- Every step of a thread costs one of those that are left. -/
theorem Program.step_left {p p' : Program} {action : ProgramAction}
    (step : p.step action = some p') (stopped : p.ctx.stop = true)
    (begun : p.ctx.sched ≠ .start)
    : (action.byThread → p'.left < p.left) ∧ (¬ action.byThread → p'.left = p.left) := by
  cases action with
  | ctx action =>
      obtain ⟨c, inner, rfl⟩ := Option.map_eq_some_iff.mp step
      have moved := Ctx.step_left inner stopped begun
      cases thread : action.byThread with
      | true =>
          rw [thread, if_pos rfl] at moved
          refine ⟨fun _ => ?_, fun free => absurd thread free⟩
          simp only [left]
          omega
      | false =>
          rw [thread, if_neg Bool.false_ne_true] at moved
          refine ⟨fun paid => absurd (thread.symm.trans paid) Bool.false_ne_true, fun _ => ?_⟩
          simp only [left, moved]
  | main ok => exact ⟨fun _ => mainStep_left step stopped, fun free => absurd trivial free⟩
  | timer => exact ⟨fun _ => timerStep_left step stopped, fun free => absurd trivial free⟩
  | poller x => exact ⟨fun _ => pollerStep_left step stopped, fun free => absurd trivial free⟩

end QKeySys.Core
