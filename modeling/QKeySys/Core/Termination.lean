import QKeySys.Core.Sleep
import QKeySys.Core.StepsLeft

/-! What the stop sequence waits for: every thread that it joins was woken and finds what it
needs, so that with its critical sections as single steps the program does not come to rest
before the main thread has returned.
-/

namespace QKeySys.Core

open QKeySys.Library

-----------------------------------------------------------------------------------------
-- What the scheduler finds
-----------------------------------------------------------------------------------------

/-- Program points between a peek that found a FIFO head and its pop. -/
def SchedPc.needsFifo : SchedPc → Bool
  | .freePeekWait (some _) | .freePopReady | .readStage _ _ | .readDir _ _ | .killCurrent
  | .killJoin _ | .readPrev | .clearSlot _ | .pushPrev _ | .popPreempting | .popBlocked => true
  | _ => false

def SchedPc.asleep : SchedPc → Bool
  | .asleepNonempty | .asleepForFifo => true
  | _ => false

@[simp]
theorem dispose_needsFifo (e : Event) : (Ctx.dispose e).needsFifo = false := by
  cases dir : e.dir <;> simp [Ctx.dispose, dir, SchedPc.needsFifo]

@[simp]
theorem dispose_asleep (e : Event) : (Ctx.dispose e).asleep = false := by
  cases dir : e.dir <;> simp [Ctx.dispose, dir, SchedPc.asleep]

@[simp]
theorem dispose_ne_freePopWait (e : Event) : Ctx.dispose e ≠ .freePopWait := by
  cases dir : e.dir <;> simp [Ctx.dispose, dir]

namespace Ctx

variable {c c' : Ctx}

/-- What the scheduler peeked is still there, and the thread that it holds or waits for was
created.
-/
structure Stocked (c : Ctx) : Prop where
  fifo : c.sched.needsFifo = true → c.q.fifo ≠ []
  heap : c.sched = .freePopWait → c.q.waitHeap.events ≠ []
  handle : ∀ k, c.thInitMaster = some k → k < c.initThreads.length
  joins : ∀ k, c.sched = .spawnJoin k ∨ c.sched = .killJoin k → k < c.initThreads.length

/-- A silent move into the part that needs the FIFO has just seen its head. -/
theorem Stocked.silent (now : c.Stocked) {next : SchedPc} (move : SilentMove c next)
    : Stocked { c with sched := next } where
  fifo := by
    cases move with
    | peekFree pc =>
        intro needed
        cases head : c.q.fifo with
        | nil => simp [head, SchedPc.needsFifo] at needed
        | cons => exact List.cons_ne_nil _ _
    | takeFifo f pc => exact fun _ => now.fifo (by rw [pc]; rfl)
    | peekBusy pri f pc head =>
        rintro _ (empty : c.q.fifo = [])
        simp [empty] at head
    | stageInit pri f pc | stageOther pri f pc | preempt pri f pc | noPreempt pri f pc
    | readPrev pc => exact fun _ => now.fifo (by rw [pc]; rfl)
    | _ => simp [SchedPc.needsFifo]
  heap := by
    cases move with
    | takeHeap f h pc top =>
        rintro _ (empty : c.q.waitHeap.events = [])
        simp [Queue.peekWait, WaitHeap.heapPeek_eq_none.mpr empty] at top
    | _ => simp
  handle := now.handle
  joins := by cases move <;> simp

/-- Between a peek and its pop only the scheduler takes events out, by cases on its move. -/
theorem Stocked.sched (now : c.Stocked) {ok : Bool} (move : SchedMove c ok c')
    : c'.Stocked := by
  cases move with
  | silent next move => exact now.silent move
  | clear prev pc | storePrev prev heap pc stored | losePrev prev pc failed =>
      exact ⟨fun _ => now.fifo (by rw [pc]; rfl), by simp, now.handle, by simp⟩
  | kill k pc handle =>
      have created := now.handle k handle
      refine ⟨fun _ => now.fifo (by rw [pc]; rfl), by simp, fun k' held => ?_, ?_⟩
      · simpa [requestCancel] using now.handle k' held
      · simpa [requestCancel] using created
  | killNone pc handle =>
      exact ⟨fun _ => now.fifo (by rw [pc]; rfl), by simp, now.handle, by simp⟩
  | killJoined k pc ended =>
      exact ⟨fun _ => now.fifo (by rw [pc]; rfl), by simp, by simp [join], by simp⟩
  | spawnKill k pc busy handle =>
      have created := now.handle k handle
      refine ⟨by simp [SchedPc.needsFifo], by simp, fun k' held => ?_, ?_⟩
      · simpa [requestCancel] using now.handle k' held
      · simpa [requestCancel] using created
  | spawnJoined k pc ended =>
      exact ⟨by simp [SchedPc.needsFifo], by simp, by simp [join], by simp⟩
  | spawned pc created =>
      refine ⟨by simp [SchedPc.needsFifo], by simp, fun k held => ?_, by simp⟩
      obtain rfl := Option.some.inj held
      simp
  | install e pc =>
      refine ⟨?_, ?_, now.handle, ?_⟩
      · split <;> simp [SchedPc.needsFifo]
      · split <;> simp
      · split <;> simp
  | popReady e rest pc head | popWait e heap pc popped =>
      exact ⟨by simp, by simp, now.handle, by simp⟩
  | _ => exact ⟨by simp [SchedPc.needsFifo], by simp, now.handle, by simp⟩

/-- The other threads only add to the FIFO and leave the scheduler where it is, but for the
return from a condition wait.
-/
structure Beside (c c' : Ctx) : Prop where
  sched : c'.sched = c.sched ∨ c'.sched = .waitNonempty ∨ c'.sched = .waitForFifo
  fifo : c.q.fifo <+: c'.q.fifo
  heap : c'.q.waitHeap = c.q.waitHeap
  handle : ∀ k, c'.thInitMaster = some k → c.thInitMaster = some k
  threads : c'.initThreads.length = c.initThreads.length
  notified : c.q.cv.notified = true → c'.q.cv.notified = true

/-- Every step but one of the scheduler is beside it, by cases on the action. -/
theorem step_beside {action : Action} (step : c.step action = some c')
    (other : ∀ ok, action ≠ .sched ok)
    : Beside c c' := by
  cases action with
  | inject type dir payload mallocOk =>
      obtain rfl := Option.some.inj step
      cases mallocOk with
      | true => exact ⟨.inl rfl, List.prefix_append _ _, rfl, fun _ => id, rfl, fun _ => rfl⟩
      | false => exact ⟨.inl rfl, List.prefix_rfl, rfl, fun _ => id, rfl, id⟩
  | sched ok => exact absurd rfl (other ok)
  | schedReturn =>
      rcases schedReturn_cases step with ⟨_, rfl⟩ | ⟨_, rfl⟩
      · exact ⟨.inr (.inl rfl), List.prefix_rfl, rfl, fun _ => id, rfl, id⟩
      · exact ⟨.inr (.inr rfl), List.prefix_rfl, rfl, fun _ => id, rfl, id⟩
  | init k =>
      obtain ⟨t, _, move⟩ := initStep_move step
      cases move with
      | walk | signal | clear =>
          exact ⟨.inl rfl, List.prefix_rfl, rfl, fun _ => id, by simp, id⟩
      | stage pc =>
          refine ⟨.inl rfl, by simp, by simp, fun _ => id, by simp, fun notified => ?_⟩
          simp only [Queue.updateStage]
          split <;> exact notified
      | block pc => exact ⟨.inl rfl, List.prefix_rfl, rfl, fun _ => id, by simp, id⟩
  | cancel k =>
      obtain ⟨t, _, _, _, rfl⟩ := cancelEffect_cases step
      exact ⟨.inl rfl, List.prefix_rfl, rfl, fun _ => id, by simp, id⟩
  | dispatcher =>
      obtain ⟨x, _, rfl⟩ := Option.map_eq_some_iff.mp step
      split
      · exact ⟨.inl rfl, List.prefix_rfl, rfl, fun _ => id, rfl, id⟩
      · exact ⟨.inl rfl, List.prefix_rfl, rfl, fun _ => id, rfl, fun _ => rfl⟩
      · exact ⟨.inl rfl, List.prefix_rfl, rfl, fun _ => id, rfl, id⟩
  | dispatcherReturn | worker i | workerReturn i =>
      obtain ⟨x, _, rfl⟩ := Option.map_eq_some_iff.mp step
      exact ⟨.inl rfl, List.prefix_rfl, rfl, fun _ => id, rfl, id⟩
  | requestStop =>
      obtain rfl := Option.some.inj step
      exact ⟨.inl rfl, List.prefix_rfl, rfl, fun _ => id, rfl, id⟩

theorem Stocked.beside (now : c.Stocked) (beside : Beside c c') : c'.Stocked where
  fifo needed := by
    obtain ⟨added, extended⟩ := beside.fifo
    have before : c.sched.needsFifo = true := by
      rcases beside.sched with same | moved | moved
      · exact same ▸ needed
      · simp [moved, SchedPc.needsFifo] at needed
      · simp [moved, SchedPc.needsFifo] at needed
    rw [← extended]
    exact fun empty => now.fifo before (List.append_eq_nil_iff.mp empty).1
  heap needed := by
    rw [beside.heap]
    rcases beside.sched with same | moved | moved
    · exact now.heap (same.symm.trans needed)
    · cases moved.symm.trans needed
    · cases moved.symm.trans needed
  handle k held := by
    rw [beside.threads]
    exact now.handle k (beside.handle k held)
  joins k waiting := by
    rw [beside.threads]
    rcases beside.sched with same | moved | moved
    · exact now.joins k (same ▸ waiting)
    · simp [moved] at waiting
    · simp [moved] at waiting

/-- With the stop flag set, the scheduler does not go to sleep. -/
theorem SchedMove.awake {ok : Bool} (move : SchedMove c ok c') (stopped : c.stop = true)
    : c'.sched.asleep = false := by
  cases move with
  | silent next move => cases move <;> rfl
  | sleepNonempty pc sleeps => simp [Queue.nonemptySleeps, stopped] at sleeps
  | sleepForFifo pc sleeps => simp [Queue.fifoSleeps, stopped] at sleeps
  | popReady e | popWait e => exact dispose_asleep e
  | install e => cases e.dir <;> rfl
  | _ => rfl

/-- Threads are only ever created. -/
theorem step_threads {action : Action} (step : c.step action = some c')
    : c.initThreads.length ≤ c'.initThreads.length := by
  by_cases own : ∃ ok, action = .sched ok
  · obtain ⟨ok, rfl⟩ := own
    cases schedStep_move step with
    | spawned => simp
    | spawnKill | spawnJoined | kill | killJoined => simp [requestCancel, join]
    | _ => exact le_rfl
  · exact (step_beside step (fun ok same => own ⟨ok, same⟩)).threads.ge

/-- With the stop flag set, a sleeping scheduler stays notified. -/
theorem step_notified {action : Action} (step : c.step action = some c')
    (stopped : c.stop = true) (now : c.sched.asleep = true → c.q.cv.notified = true)
    (asleep : c'.sched.asleep = true)
    : c'.q.cv.notified = true := by
  by_cases own : ∃ ok, action = .sched ok
  · obtain ⟨ok, rfl⟩ := own
    have awake := (schedStep_move step).awake stopped
    cases awake.symm.trans asleep
  · have beside := step_beside step (fun ok same => own ⟨ok, same⟩)
    rcases beside.sched with same | moved | moved
    · exact beside.notified (now (same ▸ asleep))
    · simp [moved, SchedPc.asleep] at asleep
    · simp [moved, SchedPc.asleep] at asleep

theorem Stocked.step (now : c.Stocked) {action : Action} (step : c.step action = some c')
    : c'.Stocked := by
  by_cases own : ∃ ok, action = .sched ok
  · obtain ⟨ok, rfl⟩ := own
    exact now.sched (schedStep_move step)
  · exact now.beside (step_beside step (fun ok same => own ⟨ok, same⟩))

end Ctx

-----------------------------------------------------------------------------------------
-- Who was woken
-----------------------------------------------------------------------------------------

namespace Exec

/-- A sleeping dispatcher was notified. -/
structure DispatcherCalled (x : Exec) : Prop where
  wait : x.dispatcher = .asleep → x.cv.notified = true
  done : ∀ t ids, x.dispatcher = .asleepDone t ids → x.cvDone.notified = true

/-- A sleeping worker was notified. -/
def WorkerCalled (x : Exec) (i : Fin 6) : Prop :=
  x.worker i = .asleep → (x.workerSig i).cv.notified = true

variable {x y : Exec}

/-- With the stop flag set, nobody goes back to sleep on a fresh condition, by cases on the
step.
-/
theorem DispatcherCalled.step (now : x.DispatcherCalled) {action : HandshakeAction}
    (step : x.stepUnder true action = some y)
    : y.DispatcherCalled := by
  cases action with
  | signal t r id =>
      obtain rfl := Option.some.inj step
      exact ⟨fun _ => rfl, now.done⟩
  | dispatcher =>
      have moved : x.dispatcherStep true = some y := step
      unfold dispatcherStep at moved
      cases pc : x.dispatcher with
      | wait | wakeWorker t r ids | waitDone t ids | notifyClear t ids | notifyWake =>
          simp only [pc, Bool.not_true, Bool.and_false, Bool.false_eq_true, if_false, if_true,
            Option.some.injEq] at moved
          subst moved
          exact ⟨by simp, by simp⟩
      | asleep | asleepDone t ids | exited => simp [pc] at moved
  | dispatcherReturn =>
      rcases dispatcherReturn_cases step with ⟨_, rfl⟩ | ⟨t, ids, _, rfl⟩
      · exact ⟨by simp, by simp⟩
      · exact ⟨by simp, by simp⟩
  | worker i =>
      have moved : x.workerStep true i = some y := step
      unfold workerStep at moved
      cases pc : x.worker i with
      | wait | running =>
          simp only [pc, Bool.not_true, Bool.and_false, Bool.false_eq_true, if_false, if_true,
            Option.some.injEq] at moved
          subst moved
          exact ⟨now.wait, fun t ids asleep => by simp [Cond.signal, now.done t ids asleep]⟩
      | asleep | exited => simp [pc] at moved
  | workerReturn i =>
      obtain ⟨_, rfl⟩ := workerReturn_cases step
      exact ⟨now.wait, now.done⟩

theorem WorkerCalled.step {i : Fin 6} (now : x.WorkerCalled i) {action : HandshakeAction}
    (step : x.stepUnder true action = some y)
    : y.WorkerCalled i := by
  cases action with
  | signal t r id =>
      obtain rfl := Option.some.inj step
      exact now
  | dispatcher =>
      have moved : x.dispatcherStep true = some y := step
      unfold dispatcherStep at moved
      cases pc : x.dispatcher with
      | wait | waitDone t ids | notifyClear t ids | notifyWake =>
          simp only [pc, Bool.not_true, Bool.and_false, Bool.false_eq_true, if_false, if_true,
            Option.some.injEq] at moved
          subst moved
          exact now
      | wakeWorker t r ids =>
          simp only [pc, Option.some.injEq] at moved
          subst moved
          intro asleep
          by_cases own : i = workerIndex t r
          · subst own
            simp [Cond.signal]
          · simpa [Function.update_of_ne own] using now asleep
      | asleep | asleepDone t ids | exited => simp [pc] at moved
  | dispatcherReturn =>
      rcases dispatcherReturn_cases step with ⟨_, rfl⟩ | ⟨t, ids, _, rfl⟩ <;> exact now
  | worker j =>
      have moved : x.workerStep true j = some y := step
      unfold workerStep at moved
      cases pc : x.worker j with
      | wait | running =>
          simp only [pc, Bool.not_true, Bool.and_false, Bool.false_eq_true, if_false, if_true,
            Option.some.injEq] at moved
          subst moved
          intro asleep
          by_cases own : i = j
          · subst own
            simp at asleep
          · exact now (by simpa [Function.update_of_ne own] using asleep)
      | asleep | exited => simp [pc] at moved
  | workerReturn j =>
      obtain ⟨_, rfl⟩ := workerReturn_cases step
      intro asleep
      by_cases own : i = j
      · subst own
        simp at asleep
      · exact now (by simpa [Function.update_of_ne own] using asleep)

end Exec

/-- The main thread has woken the scheduler for the stop. -/
def MainPc.wokeScheduler : MainPc → Bool
  | .createTimer | .polling | .setStop | .wake => false
  | _ => true

/-- The main thread has woken the dispatcher for the stop. -/
def MainPc.wokeDispatcher : MainPc → Bool
  | .wakeWorker _ | .joinDispatcher | .joinWorker _ | .killCurrent | .killJoin _
  | .returned => true
  | _ => false

/-- The main thread has woken worker `i` for the stop. -/
def MainPc.wokeWorker (i : Fin 6) : MainPc → Bool
  | .wakeWorker j => i < j
  | pc => pc.wokeDispatcher

/-- What the main thread woke for the stop is awake or was notified, and the threads that are
waited for were created.
-/
structure Program.Attended (p : Program) : Prop where
  stocked : p.ctx.Stocked
  joins : ∀ k, p.main = .killJoin k → k < p.ctx.initThreads.length
  scheduler
    : p.main.wokeScheduler = true → p.ctx.sched.asleep = true → p.ctx.q.cv.notified = true
  dispatcher : p.main.wokeDispatcher = true → p.ctx.exec.DispatcherCalled
  worker : ∀ i, p.main.wokeWorker i = true → p.ctx.exec.WorkerCalled i

namespace Program

variable {p p' : Program}

/-- The main thread does nothing to the queue but wake the scheduler. -/
theorem mainStep_beside {ok : Bool} (step : p.mainStep ok = some p')
    : Ctx.Beside p.ctx p'.ctx := by
  unfold mainStep at step
  cases pc : p.main with
  | createTimer | polling | setStop | stopInjector | execStop | wakeWorker i =>
      simp only [pc, Option.some.injEq] at step
      subst step
      exact ⟨.inl rfl, List.prefix_rfl, rfl, fun _ => id, rfl, id⟩
  | wake =>
      simp only [pc, Option.some.injEq] at step
      subst step
      exact ⟨.inl rfl, List.prefix_rfl, rfl, fun _ => id, rfl, fun _ => rfl⟩
  | joinScheduler | joinDispatcher | joinWorker i =>
      simp only [pc] at step
      split at step
      · obtain rfl := Option.some.inj step
        exact ⟨.inl rfl, List.prefix_rfl, rfl, fun _ => id, rfl, id⟩
      · cases step
  | joinPoller x =>
      simp only [pc] at step
      split at step <;> cases step <;>
        exact ⟨.inl rfl, List.prefix_rfl, rfl, fun _ => id, rfl, id⟩
  | killCurrent =>
      simp only [pc] at step
      split at step <;> obtain rfl := Option.some.inj step
      · exact ⟨.inl rfl, List.prefix_rfl, rfl, fun _ => id, by simp [Ctx.requestCancel], id⟩
      · exact ⟨.inl rfl, List.prefix_rfl, rfl, fun _ => id, rfl, id⟩
  | killJoin k =>
      simp only [pc] at step
      split at step
      · obtain rfl := Option.some.inj step
        exact ⟨.inl rfl, List.prefix_rfl, rfl, fun _ held => by simp [Ctx.join] at held,
          by simp [Ctx.join], id⟩
      · cases step
  | returned => simp [pc] at step

/-- The scheduler is woken before it is joined, and stays notified. -/
theorem mainStep_scheduler {ok : Bool} (step : p.mainStep ok = some p')
    (now : p.main.wokeScheduler = true → p.ctx.sched.asleep = true →
      p.ctx.q.cv.notified = true)
    (woke : p'.main.wokeScheduler = true) (asleep : p'.ctx.sched.asleep = true)
    : p'.ctx.q.cv.notified = true := by
  have beside := mainStep_beside step
  have before : p.ctx.sched.asleep = true := by
    rcases beside.sched with same | moved | moved
    · exact same ▸ asleep
    · simp [moved, SchedPc.asleep] at asleep
    · simp [moved, SchedPc.asleep] at asleep
  cases pc : p.main with
  | createTimer | polling | setStop =>
      simp only [mainStep, pc, Option.some.injEq] at step
      subst step
      first
        | cases woke
        | cases stop : p.ctx.stop <;> simp [stop, MainPc.wokeScheduler] at woke
  | wake =>
      simp only [mainStep, pc, Option.some.injEq] at step
      subst step
      rfl
  | _ => exact beside.notified (now (by rw [pc]; rfl) before)

/-- The dispatcher is woken before it is joined, and stays notified. -/
theorem mainStep_dispatcher {ok : Bool} (step : p.mainStep ok = some p')
    (now : p.main.wokeDispatcher = true → p.ctx.exec.DispatcherCalled)
    (woke : p'.main.wokeDispatcher = true)
    : p'.ctx.exec.DispatcherCalled := by
  unfold mainStep at step
  cases pc : p.main with
  | createTimer | polling | setStop | wake | stopInjector =>
      simp only [pc, Option.some.injEq] at step
      subst step
      first
        | cases woke
        | cases stop : p.ctx.stop <;> simp [stop, MainPc.wokeDispatcher] at woke
  | execStop =>
      simp only [pc, Option.some.injEq] at step
      subst step
      exact ⟨fun _ => rfl, fun _ _ _ => rfl⟩
  | wakeWorker i =>
      simp only [pc, Option.some.injEq] at step
      subst step
      have called := now (by rw [pc]; rfl)
      exact ⟨called.wait, called.done⟩
  | joinScheduler =>
      simp only [pc] at step
      split at step <;> cases step
      cases woke
  | joinPoller x =>
      simp only [pc] at step
      split at step <;> cases step <;> cases x <;> cases woke
  | joinDispatcher | joinWorker i | killJoin k =>
      simp only [pc] at step
      split at step <;> cases step
      exact now (by rw [pc]; rfl)
  | killCurrent =>
      simp only [pc] at step
      split at step <;> cases step <;> exact now (by rw [pc]; rfl)
  | returned => simp [pc] at step

/-- The workers are woken in their order. -/
theorem wokeWorker_next {i j : Fin 6}
    (woke
      : ((nextWorker j).elim MainPc.joinDispatcher .wakeWorker).wokeWorker i = true)
    : i = j ∨ (MainPc.wakeWorker j).wokeWorker i = true := by
  revert i j
  decide

/-- Each worker is woken before it is joined, and stays notified. -/
theorem mainStep_worker {ok : Bool} {i : Fin 6} (step : p.mainStep ok = some p')
    (now : p.main.wokeWorker i = true → p.ctx.exec.WorkerCalled i)
    (woke : p'.main.wokeWorker i = true)
    : p'.ctx.exec.WorkerCalled i := by
  unfold mainStep at step
  cases pc : p.main with
  | createTimer | polling | setStop | wake | stopInjector =>
      simp only [pc, Option.some.injEq] at step
      subst step
      first
        | cases woke
        | cases stop : p.ctx.stop <;>
            simp [stop, MainPc.wokeWorker, MainPc.wokeDispatcher] at woke
  | execStop =>
      simp only [pc, Option.some.injEq] at step
      subst step
      simp [MainPc.wokeWorker] at woke
  | wakeWorker j =>
      simp only [pc, Option.some.injEq] at step
      subst step
      intro asleep
      by_cases own : i = j
      · subst own
        simp [Cond.broadcast]
      · have called := now (by rw [pc]; exact (wokeWorker_next woke).resolve_left own)
        simpa [Function.update_of_ne own] using called asleep
  | joinScheduler =>
      simp only [pc] at step
      split at step <;> cases step
      cases woke
  | joinPoller x =>
      simp only [pc] at step
      split at step <;> cases step <;> cases x <;> cases woke
  | joinDispatcher | joinWorker j | killJoin k =>
      simp only [pc] at step
      split at step <;> cases step
      exact now (by rw [pc]; rfl)
  | killCurrent =>
      simp only [pc] at step
      split at step <;> cases step <;> exact now (by rw [pc]; rfl)
  | returned => simp [pc] at step

/-- The thread that the main thread waits for at last was created. -/
theorem mainStep_joins {ok : Bool} (stocked : p.ctx.Stocked)
    (step : p.mainStep ok = some p') {k : Nat} (joining : p'.main = .killJoin k)
    : k < p'.ctx.initThreads.length := by
  rw [(mainStep_beside step).threads]
  unfold mainStep at step
  cases pc : p.main with
  | killCurrent =>
      simp only [pc] at step
      split at step
      case h_1 k' handle =>
        obtain rfl := Option.some.inj step
        obtain rfl : k' = k := by simpa using joining
        exact stocked.handle k' handle
      case h_2 =>
        obtain rfl := Option.some.inj step
        cases joining
  | polling =>
      simp only [pc, Option.some.injEq] at step
      subst step
      cases stop : p.ctx.stop <;> simp [stop] at joining
  | createTimer | setStop | wake | stopInjector | execStop =>
      simp only [pc, Option.some.injEq] at step
      subst step
      cases joining
  | wakeWorker i =>
      simp only [pc, Option.some.injEq] at step
      subst step
      cases next : nextWorker i <;> simp [next] at joining
  | joinWorker i =>
      simp only [pc] at step
      split at step <;> cases step
      cases next : nextWorker i <;> simp [next] at joining
  | joinScheduler | joinDispatcher | killJoin k' =>
      simp only [pc] at step
      split at step <;> cases step
      cases joining
  | joinPoller x =>
      simp only [pc] at step
      split at step <;> cases step <;> cases x <;> cases joining
  | returned => simp [pc] at step

/-- The timer touches nothing of the context but the flag. -/
theorem timerStep_ctx (step : p.timerStep = some p')
    : p'.main = p.main ∧ ∃ stop, p'.ctx = { p.ctx with stop := stop } := by
  unfold timerStep at step
  cases pc : p.timer with
  | sleeping i | setStop =>
      simp only [pc, Option.some.injEq] at step
      subst step
      exact ⟨rfl, _, rfl⟩
  | absent | exited => simp [pc] at step

theorem wokeScheduler_requested {pc : MainPc} (woke : pc.wokeScheduler = true)
    : pc.requested = true := by
  cases pc <;> first | rfl | cases woke

theorem wokeDispatcher_requested {pc : MainPc} (woke : pc.wokeDispatcher = true)
    : pc.requested = true := by
  cases pc <;> first | rfl | cases woke

theorem wokeWorker_requested {pc : MainPc} {i : Fin 6} (woke : pc.wokeWorker i = true)
    : pc.requested = true := by
  cases pc <;> first | rfl | cases woke

/-- By cases on the thread that steps; behind the request nobody goes to sleep any more. -/
theorem Attended.step (now : p.Attended)
    (set : p.main.requested = true → p.ctx.stop = true) {action : ProgramAction}
    (step : p.step action = some p')
    : p'.Attended := by
  cases action with
  | ctx action =>
      obtain ⟨c, inner, rfl⟩ := Option.map_eq_some_iff.mp step
      exact {
        stocked := now.stocked.step inner
        joins k joining := (now.joins k joining).trans_le (Ctx.step_threads inner)
        scheduler woke :=
          Ctx.step_notified inner (set (wokeScheduler_requested woke)) (now.scheduler woke)
        dispatcher woke := by
          have stopped := set (wokeDispatcher_requested woke)
          rcases Ctx.step_exec inner with same | ⟨a, moved⟩
          · exact same ▸ now.dispatcher woke
          · exact (now.dispatcher woke).step (stopped ▸ moved)
        worker i woke := by
          have stopped := set (wokeWorker_requested woke)
          rcases Ctx.step_exec inner with same | ⟨a, moved⟩
          · exact same ▸ now.worker i woke
          · exact (now.worker i woke).step (stopped ▸ moved)
      }
  | main ok =>
      exact {
        stocked := now.stocked.beside (mainStep_beside step)
        joins k joining := mainStep_joins now.stocked step joining
        scheduler woke asleep := mainStep_scheduler step now.scheduler woke asleep
        dispatcher woke := mainStep_dispatcher step now.dispatcher woke
        worker i woke := mainStep_worker step (now.worker i) woke
      }
  | timer =>
      obtain ⟨main, stop, ctx⟩ := timerStep_ctx step
      constructor <;> simp only [main, ctx]
      · exact ⟨now.stocked.fifo, now.stocked.heap, now.stocked.handle, now.stocked.joins⟩
      · exact now.joins
      · exact now.scheduler
      · exact now.dispatcher
      · exact now.worker
  | poller x =>
      rw [pollerStep_aside step]
      exact ⟨now.stocked, now.joins, now.scheduler, now.dispatcher, now.worker⟩

end Program

-----------------------------------------------------------------------------------------
-- Nobody waits for ever
-----------------------------------------------------------------------------------------

namespace Ctx

variable {c : Ctx}

/-- A thread that was created and has not ended has a next step. -/
theorem dead_of_quiet {k : Nat} (created : k < c.initThreads.length)
    (quiet : ∀ k, c.initStep k = none)
    : c.dead k = true := by
  have found := List.getElem?_eq_getElem created
  rw [dead_iff found]
  exact initThreads_ended_iff.mpr quiet _ (List.getElem_mem created)

/-- A scheduler that finds what it needs stops only at its exit, in its sleep, or behind a
thread that runs.
-/
theorem schedStep_quiet (now : c.Stocked) (quiet : c.schedStep true = none)
    (threads : ∀ k, c.initStep k = none)
    : c.sched = .exited ∨ c.sched.asleep = true := by
  cases pc : c.sched with
  | exited => exact .inl rfl
  | asleepNonempty | asleepForFifo => exact .inr rfl
  | freePopReady | popPreempting | popBlocked =>
      have filled := now.fifo (by rw [pc]; rfl)
      obtain ⟨e, rest, head⟩ := List.exists_cons_of_ne_nil filled
      simp [schedStep, pc, Queue.popReady, head] at quiet
  | freePopWait =>
      have filled := now.heap pc
      simp only [schedStep, pc, Queue.popWait, Option.map_eq_none_iff] at quiet
      have peeked := c.q.waitHeap.heapPop_fst
      rw [quiet] at peeked
      exact absurd (WaitHeap.heapPeek_eq_none.mp peeked.symm) filled
  | spawnJoin k =>
      have dead := dead_of_quiet (now.joins k (.inl pc)) threads
      simp [schedStep, pc, dead] at quiet
  | killJoin k =>
      have dead := dead_of_quiet (now.joins k (.inr pc)) threads
      simp [schedStep, pc, dead] at quiet
  | waitNonempty | waitForFifo | peekForWait | spawnCheck | killCurrent | busyPeekFifo pri =>
      simp only [schedStep, pc] at quiet
      split at quiet <;> cases quiet
  | freePeekWait f =>
      simp only [schedStep, pc] at quiet
      split at quiet <;> cases quiet
  | _ => simp [schedStep, pc] at quiet

end Ctx

namespace Exec

variable {x : Exec}

theorem dispatcher_quiet (quiet : x.dispatcherStep true = none)
    (waits : x.dispatcherReturn = none)
    : x.dispatcher = .exited := by
  cases pc : x.dispatcher with
  | exited => rfl
  | asleep | asleepDone t ids => simp [dispatcherReturn, pc] at waits
  | _ => simp [dispatcherStep, pc] at quiet

theorem worker_quiet {i : Fin 6} (quiet : x.workerStep true i = none)
    (waits : x.worker i ≠ .asleep)
    : x.worker i = .exited := by
  cases pc : x.worker i with
  | exited => rfl
  | asleep => exact absurd pc waits
  | _ => simp [workerStep, pc] at quiet

end Exec

/-- A condition wait returns because it was notified. -/
def Ctx.prompted (c : Ctx) : Action → Prop
  | .schedReturn => c.q.cv.notified = true
  | .dispatcherReturn => c.exec.DispatcherCalled
  | .workerReturn i => c.exec.WorkerCalled i
  | _ => True

namespace Program

/-- A condition wait of the context returns because it was notified. -/
def prompted (p : Program) : ProgramAction → Prop
  | .ctx action => p.ctx.prompted action
  | _ => True

/-- No thread has a next step, with condition waits that return only when notified. -/
def Idle (p : Program) : Prop :=
  ∀ action, action.byThread → p.prompted action → p.step action = none

variable {p : Program}

/-- The steps of the context that an idle program does not take. -/
theorem Idle.ctx (idle : p.Idle) (action : Action) (thread : action.byThread = true)
    (prompted : p.ctx.prompted action)
    : p.ctx.step action = none :=
  Option.map_eq_none_iff.mp (idle (.ctx action) thread prompted)

/-- When the stop sequence is under way, an idle program is one whose main thread has
returned, by cases on where the main thread is.
-/
theorem Idle.returned (idle : p.Idle) (now : p.Attended) (stopped : p.ctx.stop = true)
    : p.main = .returned := by
  have main : p.mainStep true = none := idle (.main true) trivial trivial
  have threads : ∀ k, p.ctx.initStep k = none := fun k => idle.ctx (.init k) rfl trivial
  unfold mainStep at main
  cases pc : p.main with
  | joinScheduler =>
      have step : p.ctx.schedStep true = none := idle.ctx (.sched true) rfl trivial
      rcases Ctx.schedStep_quiet now.stocked step threads with exited | asleep
      · simp [pc, exited] at main
      · have notified := now.scheduler (by rw [pc]; rfl) asleep
        have waits : p.ctx.schedReturn = none :=
          idle.ctx .schedReturn rfl notified
        cases place : p.ctx.sched <;>
          simp [place, SchedPc.asleep, Ctx.schedReturn] at asleep waits
  | joinPoller x =>
      have step : p.pollerStep x = none := idle (.poller x) trivial trivial
      cases place : p.poller x with
      | absent | exited => simp [pc, place] at main
      | starting | polling => simp [pollerStep, place, stopped] at step
  | joinDispatcher =>
      have called := now.dispatcher (by rw [pc]; rfl)
      have step := idle.ctx .dispatcher rfl trivial
      have waits := idle.ctx .dispatcherReturn rfl called
      have exited : p.ctx.exec.dispatcher = .exited := by
        refine Exec.dispatcher_quiet ?_ (Option.map_eq_none_iff.mp waits)
        exact stopped ▸ Option.map_eq_none_iff.mp step
      simp [pc, exited] at main
  | joinWorker i =>
      have called := now.worker i (by rw [pc]; rfl)
      have step := idle.ctx (.worker i) rfl trivial
      have waits := idle.ctx (.workerReturn i) rfl called
      have exited : p.ctx.exec.worker i = .exited := by
        refine Exec.worker_quiet (stopped ▸ Option.map_eq_none_iff.mp step) (fun asleep => ?_)
        simp [Ctx.step, Exec.workerReturn, asleep] at waits
      simp [pc, exited] at main
  | killCurrent =>
      simp only [pc] at main
      split at main <;> cases main
  | killJoin k =>
      have dead := Ctx.dead_of_quiet (now.joins k pc) threads
      simp [pc, dead] at main
  | returned => rfl
  | _ => simp [pc] at main

end Program

section Runs

variable {cfg : Config} {p : Program}

/-- The program waits for nothing that it did not wake, by induction on the run. -/
theorem attended (reached : (onTimeRuns cfg).Reachable p) : p.Attended := by
  refine Lts.Reachable.induct Program.Attended ?_ ?_ reached
  · rintro _ rfl
    constructor
    · constructor <;> simp [Program.init, Ctx.init, SchedPc.needsFifo]
    all_goals simp [Program.init, MainPc.wokeScheduler, MainPc.wokeWorker,
      MainPc.wokeDispatcher]
  · rintro p action p' reached now ⟨_, step⟩
    exact now.step (requested_stop reached) step

/-- A stop is requested and the scheduler thread has begun, so that the request stays. -/
structure Program.Ending (cfg : Config) (p : Program) : Prop where
  reached : (onTimeRuns cfg).Reachable p
  stopped : p.ctx.stop = true
  begun : p.ctx.sched ≠ .start

/-- The scheduler thread begins once. -/
theorem Ctx.step_begun {c c' : Ctx} {action : Action} (step : c.step action = some c')
    (begun : c.sched ≠ .start)
    : c'.sched ≠ .start := by
  by_cases own : ∃ ok, action = .sched ok
  · obtain ⟨ok, rfl⟩ := own
    cases schedStep_move step with
    | silent next move => cases move <;> simp
    | popReady e | popWait e => cases dir : e.dir <;> simp [dispose, dir]
    | install e => cases dir : e.dir <;> simp
    | start pc => exact absurd pc begun
    | _ => simp
  · rcases (step_beside step (fun ok same => own ⟨ok, same⟩)).sched with same | moved | moved
    · exact same ▸ begun
    · simp [moved]
    · simp [moved]

theorem Program.Ending.step {p' : Program} {action : ProgramAction} (now : p.Ending cfg)
    (step : p.step action = some p')
    : p'.Ending cfg := by
  have onTime : p.OnTime action := fun restarts => absurd restarts.1 now.begun
  refine ⟨now.reached.next ⟨onTime, step⟩, (step_stop_iff step now.stopped).mpr onTime, ?_⟩
  cases action with
  | ctx action =>
      obtain ⟨c, inner, rfl⟩ := Option.map_eq_some_iff.mp step
      exact Ctx.step_begun inner now.begun
  | main ok =>
      rcases (mainStep_beside step).sched with same | moved | moved
      · exact same ▸ now.begun
      · simp [moved]
      · simp [moved]
  | timer =>
      obtain ⟨-, stop, ctx⟩ := timerStep_ctx step
      rw [ctx]
      exact now.begun
  | poller x =>
      rw [pollerStep_aside step]
      exact now.begun

end Runs

end QKeySys.Core
