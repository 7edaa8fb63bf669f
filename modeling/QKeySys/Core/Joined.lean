import QKeySys.Core.StepsLeft

/-! The joins of the stop sequence: the main thread returns only when every thread that uses the
context has ended, for the context lives on the stack of `main`.
-/

namespace QKeySys.Core

open QKeySys.Library

/-- The threads that the stop sequence joins, but for the master-init threads. -/
inductive Joinable where
  | scheduler
  | poller (x : Poller)
  | dispatcher
  | worker (i : Fin 6)

/-- Where the main thread joins it. -/
def Joinable.pc : Joinable → MainPc
  | .scheduler => .joinScheduler
  | .poller x => .joinPoller x
  | .dispatcher => .joinDispatcher
  | .worker i => .joinWorker i

/-- The join of the thread is behind the main thread. -/
def MainPc.joined (pc : MainPc) (thread : Joinable) : Prop := pc.left < thread.pc.left

namespace Program

/-- The thread has ended, or was never created. -/
def ended (p : Program) : Joinable → Prop
  | .scheduler => p.ctx.sched = .exited
  | .poller x => p.poller x = .absent ∨ p.poller x = .exited
  | .dispatcher => p.ctx.exec.dispatcher = .exited
  | .worker i => p.ctx.exec.worker i = .exited

end Program

-----------------------------------------------------------------------------------------
-- Threads that have ended
-----------------------------------------------------------------------------------------

namespace Exec

variable {x y : Exec}

/-- The dispatcher does not come back. -/
theorem stepUnder_dispatcher {stop : Bool} {action : HandshakeAction}
    (step : x.stepUnder stop action = some y) (exited : x.dispatcher = .exited)
    : y.dispatcher = .exited := by
  cases action with
  | signal t r id =>
      obtain rfl := Option.some.inj step
      exact exited
  | dispatcher => simp [stepUnder, dispatcherStep, exited] at step
  | dispatcherReturn => simp [stepUnder, dispatcherReturn, exited] at step
  | worker i =>
      have moved : x.workerStep stop i = some y := step
      unfold workerStep at moved
      cases pc : x.worker i with
      | wait =>
          simp only [pc] at moved
          split_ifs at moved <;> obtain rfl := Option.some.inj moved <;> exact exited
      | running =>
          simp only [pc] at moved
          obtain rfl := Option.some.inj moved
          exact exited
      | asleep | exited => simp [pc] at moved
  | workerReturn i =>
      obtain ⟨_, rfl⟩ := workerReturn_cases step
      exact exited

/-- A worker does not come back. -/
theorem stepUnder_worker {stop : Bool} {action : HandshakeAction} {i : Fin 6}
    (step : x.stepUnder stop action = some y) (exited : x.worker i = .exited)
    : y.worker i = .exited := by
  cases action with
  | signal t r id =>
      obtain rfl := Option.some.inj step
      exact exited
  | dispatcher =>
      have moved : x.dispatcherStep stop = some y := step
      unfold dispatcherStep at moved
      cases pc : x.dispatcher with
      | wait =>
          simp only [pc] at moved
          split_ifs at moved <;> obtain rfl := Option.some.inj moved <;> exact exited
      | waitDone t ids =>
          simp only [pc] at moved
          split_ifs at moved <;> obtain rfl := Option.some.inj moved <;> exact exited
      | wakeWorker t r ids | notifyClear t ids | notifyWake =>
          simp only [pc] at moved
          obtain rfl := Option.some.inj moved
          exact exited
      | asleep | asleepDone t ids | exited => simp [pc] at moved
  | dispatcherReturn =>
      rcases dispatcherReturn_cases step with ⟨_, rfl⟩ | ⟨t, ids, _, rfl⟩ <;> exact exited
  | worker j =>
      have other (pc : WorkerPc) (running : x.worker j ≠ .exited)
          : Function.update x.worker j pc i = .exited := by
        have apart : i ≠ j := by
          rintro rfl
          exact running exited
        exact (Function.update_of_ne apart _ _).trans exited
      have moved : x.workerStep stop j = some y := step
      unfold workerStep at moved
      cases pc : x.worker j with
      | wait =>
          simp only [pc] at moved
          split_ifs at moved <;> obtain rfl := Option.some.inj moved <;>
            exact other _ (by simp [pc])
      | running =>
          simp only [pc] at moved
          obtain rfl := Option.some.inj moved
          exact other _ (by simp [pc])
      | asleep | exited => simp [pc] at moved
  | workerReturn j =>
      obtain ⟨pc, rfl⟩ := workerReturn_cases step
      have other : i ≠ j := by
        rintro rfl
        cases exited.symm.trans pc
      exact (Function.update_of_ne other _ _).trans exited

end Exec

namespace Ctx

/-- The scheduler does not come back. -/
theorem step_exited {c c' : Ctx} {action : Action} (step : c.step action = some c')
    (exited : c.sched = .exited)
    : c'.sched = .exited := by
  cases action with
  | sched ok => simp [Ctx.step, schedStep, exited] at step
  | schedReturn => simp [Ctx.step, schedReturn, exited] at step
  | inject type dir payload mallocOk | requestStop =>
      obtain rfl := Option.some.inj step
      exact exited
  | init k =>
      obtain ⟨t, _, move⟩ := initStep_move step
      cases move <;> exact exited
  | cancel k =>
      obtain ⟨t, _, _, _, rfl⟩ := cancelEffect_cases step
      exact exited
  | dispatcher =>
      obtain ⟨x, _, rfl⟩ := Option.map_eq_some_iff.mp step
      split <;> exact exited
  | dispatcherReturn | worker i | workerReturn i =>
      obtain ⟨x, _, rfl⟩ := Option.map_eq_some_iff.mp step
      exact exited

end Ctx

namespace Program

variable {p p' : Program}

/-- The main thread moves none of the other threads. -/
theorem mainStep_others {ok : Bool} (step : p.mainStep ok = some p')
    : p'.ctx.sched = p.ctx.sched ∧ p'.poller = p.poller
      ∧ p'.ctx.exec.dispatcher = p.ctx.exec.dispatcher
      ∧ p'.ctx.exec.worker = p.ctx.exec.worker := by
  unfold mainStep at step
  cases pc : p.main with
  | createTimer | polling | setStop | wake | stopInjector | execStop | wakeWorker i =>
      simp only [pc, Option.some.injEq] at step
      subst step
      exact ⟨rfl, rfl, rfl, rfl⟩
  | joinScheduler | joinDispatcher | joinWorker i | killJoin k =>
      simp only [pc] at step
      split at step <;> cases step
      exact ⟨rfl, rfl, rfl, rfl⟩
  | joinPoller x | killCurrent =>
      simp only [pc] at step
      split at step <;> cases step <;> exact ⟨rfl, rfl, rfl, rfl⟩
  | returned => simp [pc] at step

/-- No thread comes back, by cases on the thread that steps. -/
theorem ended_step {action : ProgramAction} (step : p.step action = some p')
    {thread : Joinable} (now : p.ended thread)
    : p'.ended thread := by
  cases action with
  | ctx action =>
      obtain ⟨c, inner, rfl⟩ := Option.map_eq_some_iff.mp step
      cases thread with
      | scheduler => exact Ctx.step_exited inner now
      | poller x => exact now
      | dispatcher =>
          rcases Ctx.step_exec inner with same | ⟨a, moved⟩
          · exact (congrArg Exec.dispatcher same).trans now
          · exact Exec.stepUnder_dispatcher moved now
      | worker i =>
          rcases Ctx.step_exec inner with same | ⟨a, moved⟩
          · exact (congrFun (congrArg Exec.worker same) i).trans now
          · exact Exec.stepUnder_worker moved now
  | main ok =>
      obtain ⟨sched, pollers, dispatcher, workers⟩ := mainStep_others step
      cases thread with
      | scheduler => exact sched.trans now
      | poller x => simpa only [ended, pollers] using now
      | dispatcher => exact dispatcher.trans now
      | worker i => exact (congrFun workers i).trans now
  | timer =>
      have moved : p.timerStep = some p' := step
      unfold timerStep at moved
      split at moved <;> cases moved <;> cases thread <;> exact now
  | poller x =>
      cases thread with
      | poller y =>
          have moved : p.pollerStep x = some p' := step
          unfold pollerStep at moved
          by_cases own : y = x
          · subst own
            rcases now with absent | exited
            · simp [absent] at moved
            · simp [exited] at moved
          · split at moved
            · cases moved
            · cases moved
              simpa [ended, setPoller, own] using now
            · split at moved <;> cases moved
              · simpa [ended, setPoller, own] using now
              · exact now
            · cases moved
      | scheduler | dispatcher | worker i =>
          rw [pollerStep_aside step]
          exact now

end Program

-----------------------------------------------------------------------------------------
-- The order of the joins
-----------------------------------------------------------------------------------------

namespace Joinable

/-- The joins have their places between the wakes and the end of the sequence. -/
theorem left_cases (thread : Joinable)
    : 3 ≤ thread.pc.left ∧ thread.pc.left ≤ 9
      ∨ 17 ≤ thread.pc.left ∧ thread.pc.left ≤ 20
      ∨ thread.pc.left = 22 := by
  cases thread with
  | poller x => cases x <;> decide
  | worker i => simp only [pc, MainPc.left]; omega
  | scheduler | dispatcher => decide

/-- No two threads are joined at one place. -/
theorem of_left {thread other : Joinable} (same : thread.pc.left = other.pc.left)
    : thread = other := by
  cases thread with
  | scheduler | dispatcher =>
      cases other with
      | poller x => cases x <;> cases same
      | worker i => simp only [pc, MainPc.left] at same; omega
      | scheduler | dispatcher => first | rfl | cases same
  | poller x =>
      cases other with
      | poller y => cases x <;> cases y <;> first | rfl | cases same
      | worker i => cases x <;> simp only [pc, MainPc.left] at same <;> omega
      | scheduler | dispatcher => cases x <;> cases same
  | worker i =>
      cases other with
      | poller x => cases x <;> simp only [pc, MainPc.left] at same <;> omega
      | worker j =>
          simp only [pc, MainPc.left] at same
          rw [show i = j by omega]
      | scheduler | dispatcher => simp only [pc, MainPc.left] at same; omega

end Joinable

namespace Program

variable {p p' : Program}

/-- The main thread gets past a join only when the thread has ended, by cases on where it is. -/
theorem mainStep_joined {ok : Bool} (step : p.mainStep ok = some p') {thread : Joinable}
    (joined : p'.main.joined thread)
    : p.main.joined thread ∨ p.ended thread := by
  have places := thread.left_cases
  -- The join that a single step of the sequence leaves behind is the one it was at.
  have here (other : Joinable) (place : p.main = other.pc)
      (next : other.pc.left = p'.main.left + 1) (ends : p.ended other)
      : p.main.joined thread ∨ p.ended thread := by
    by_cases earlier : p.main.joined thread
    · exact .inl earlier
    · refine .inr ?_
      have same : thread = other := by
        apply Joinable.of_left
        simp only [MainPc.joined, place] at joined earlier
        omega
      exact same ▸ ends
  unfold mainStep at step
  cases pc : p.main with
  | createTimer =>
      simp only [pc, Option.some.injEq] at step
      subst step
      have behind : 25 < thread.pc.left := joined
      omega
  | polling =>
      simp only [pc, Option.some.injEq] at step
      subst step
      have behind : 24 ≤ thread.pc.left := by
        cases stop : p.ctx.stop <;> simp only [MainPc.joined, stop] at joined <;>
          exact Nat.le_of_lt (Nat.lt_of_le_of_lt (by decide) joined)
      omega
  | setStop =>
      simp only [pc, Option.some.injEq] at step
      subst step
      have behind : 23 < thread.pc.left := joined
      omega
  | wake =>
      simp only [pc, Option.some.injEq] at step
      subst step
      have behind : 22 < thread.pc.left := joined
      omega
  | joinScheduler =>
      simp only [pc] at step
      split at step
      case isFalse => cases step
      case isTrue exited =>
        cases step
        exact pc ▸ here .scheduler pc rfl exited
  | joinPoller x =>
      simp only [pc] at step
      split at step
      case h_1 absent =>
        cases step
        exact pc ▸ here (.poller x) pc (by cases x <;> rfl) (.inl absent)
      case h_2 exited =>
        cases step
        exact pc ▸ here (.poller x) pc (by cases x <;> rfl) (.inr exited)
      case h_3 | h_4 => cases step
  | joinDispatcher =>
      simp only [pc] at step
      split at step
      case isFalse => cases step
      case isTrue exited =>
        cases step
        exact pc ▸ here .dispatcher pc rfl exited
  | joinWorker i =>
      simp only [pc] at step
      split at step
      case isFalse => cases step
      case isTrue exited =>
        cases step
        refine pc ▸ here (.worker i) pc ?_ exited
        rw [(nextWorker_left i).2]
        simp only [Joinable.pc, MainPc.left]
        omega
  | stopInjector =>
      simp only [pc, Option.some.injEq] at step
      subst step
      have behind : 20 < thread.pc.left := joined
      have earlier : 21 < thread.pc.left := by omega
      exact .inl earlier
  | execStop =>
      simp only [pc, Option.some.injEq] at step
      subst step
      have behind : 15 < thread.pc.left := joined
      have earlier : 16 < thread.pc.left := by omega
      exact .inl earlier
  | wakeWorker i =>
      simp only [pc, Option.some.injEq] at step
      subst step
      have behind : 14 - i.val < thread.pc.left := (nextWorker_left i).1 ▸ joined
      have earlier : 15 - i.val < thread.pc.left := by omega
      exact .inl earlier
  | killCurrent =>
      have earlier : 2 < thread.pc.left := by omega
      exact .inl earlier
  | killJoin k =>
      have earlier : 1 < thread.pc.left := by omega
      exact .inl earlier
  | returned => simp [pc] at step

end Program

-----------------------------------------------------------------------------------------
-- The last master-init thread
-----------------------------------------------------------------------------------------

namespace Ctx

variable {c c' : Ctx}

/-- Every master-init thread has ended. -/
def Spent (c : Ctx) : Prop :=
  ∀ (k : Nat) (t : InitThread), c.initThreads[k]? = some t → t.pc.ended

/-- Behind the exit of the scheduler the handle stays, and no thread starts or comes back. -/
theorem step_spent {action : Action} (step : c.step action = some c')
    (exited : c.sched = .exited)
    : c'.thInitMaster = c.thInitMaster ∧ (c.Spent → c'.Spent) := by
  cases action with
  | sched ok => simp [Ctx.step, schedStep, exited] at step
  | schedReturn => simp [Ctx.step, schedReturn, exited] at step
  | inject type dir payload mallocOk | requestStop =>
      obtain rfl := Option.some.inj step
      exact ⟨rfl, id⟩
  | init k =>
      obtain ⟨t, found, move⟩ := initStep_move step
      obtain ⟨pc, -, -, handle, -⟩ := move.threads
      exact ⟨handle, fun spent => absurd (spent k t found) (by simp [move.alive])⟩
  | cancel k =>
      obtain ⟨t, found, -, alive, rfl⟩ := cancelEffect_cases step
      rw [dead_iff found] at alive
      exact ⟨rfl, fun spent => absurd (spent k t found) (by simp [alive])⟩
  | dispatcher =>
      obtain ⟨x, _, rfl⟩ := Option.map_eq_some_iff.mp step
      split <;> exact ⟨rfl, id⟩
  | dispatcherReturn | worker i | workerReturn i =>
      obtain ⟨x, _, rfl⟩ := Option.map_eq_some_iff.mp step
      exact ⟨rfl, id⟩

/-- A pending cancellation does not move the threads. -/
theorem OneThread.requestCancel (now : c.OneThread) (k : Nat)
    : (c.requestCancel k).OneThread := by
  refine ⟨fun k' t' found alive => ?_, now.joining, fun after k' t' found => ?_⟩
  · obtain ⟨t, found, same, -⟩ := requestCancel_found found
    exact now.handle k' t found (same ▸ alive)
  · obtain ⟨t, found, same, -⟩ := requestCancel_found found
    exact same ▸ now.alone after k' t found

/-- Without a handle no thread is running. -/
theorem OneThread.spent (now : c.OneThread) (free : c.thInitMaster = none) : c.Spent := by
  intro k t found
  cases alive : t.pc.ended with
  | true => rfl
  | false => cases free.symm.trans (now.handle k t found alive).1

end Ctx

namespace Program

variable {p p' : Program}

/-- The main thread is past the joins of threads that have ended. Behind the scheduler it finds
the last master-init thread by the handle.
-/
structure InOrder (p : Program) : Prop where
  joined : ∀ thread, p.main.joined thread → p.ended thread
  oneThread : p.ctx.OneThread
  joining : ∀ k, p.main = .killJoin k → p.ctx.thInitMaster = some k
  last : p.main = .returned → p.ctx.Spent

theorem InOrder.exited (now : p.InOrder) (behind : p.main.left < 22) : p.ctx.sched = .exited :=
  now.joined .scheduler behind

/-- The master-init threads on the way through the stop sequence. -/
structure Kept (p p' : Program) : Prop where
  oneThread : p'.ctx.OneThread
  joining : ∀ k, p'.main = .killJoin k → p'.ctx.thInitMaster = some k
  last : p'.main = .returned → p'.ctx.Spent

/-- Up to the last thread the main thread leaves the master-init threads alone; then it kills
the one behind the handle and waits for its end.
-/
theorem InOrder.mainStep (now : p.InOrder) {ok : Bool} (step : p.mainStep ok = some p')
    : p.Kept p' := by
  obtain ⟨-, oneThread, joining, -⟩ := id now
  have same (c : Ctx) (threads : c.initThreads = p.ctx.initThreads)
      (sched : c.sched = p.ctx.sched)
      (handle : c.thInitMaster = p.ctx.thInitMaster)
      (running : c.initMasterRunning = p.ctx.initMasterRunning)
      : c.OneThread := by
    constructor <;> simp only [threads, sched, handle, running]
    · exact oneThread.handle
    · exact oneThread.joining
    · exact oneThread.alone
  unfold Program.mainStep at step
  cases pc : p.main with
  | createTimer | setStop | wake | stopInjector | execStop =>
      simp only [pc, Option.some.injEq] at step
      subst step
      exact ⟨same _ rfl rfl rfl rfl, by simp, by simp⟩
  | polling =>
      simp only [pc, Option.some.injEq] at step
      subst step
      refine ⟨oneThread, ?_, ?_⟩ <;> cases p.ctx.stop <;> simp
  | joinScheduler | joinDispatcher =>
      simp only [pc] at step
      split at step <;> cases step
      exact ⟨oneThread, by simp, by simp⟩
  | joinPoller x =>
      simp only [pc] at step
      split at step <;> cases step <;> cases x <;>
        exact ⟨oneThread, by simp [afterPoller], by simp [afterPoller]⟩
  | wakeWorker i =>
      simp only [pc, Option.some.injEq] at step
      subst step
      refine ⟨same _ rfl rfl rfl rfl, ?_, ?_⟩ <;> cases nextWorker i <;> simp
  | joinWorker i =>
      simp only [pc] at step
      split at step <;> cases step
      refine ⟨oneThread, ?_, ?_⟩ <;> cases nextWorker i <;> simp
  | killCurrent =>
      simp only [pc] at step
      split at step
      case h_1 k handle =>
        cases step
        refine ⟨oneThread.requestCancel k, fun k' waits => ?_, by simp⟩
        obtain rfl : k = k' := by simpa using waits
        exact handle
      case h_2 free =>
        cases step
        have spent := oneThread.spent free
        exact ⟨⟨fun k t found alive => absurd (spent k t found) (by simp [alive]),
          oneThread.joining, fun _ => spent⟩, by simp, fun _ => spent⟩
  | killJoin k =>
      simp only [pc] at step
      split at step
      case isFalse => cases step
      case isTrue dead =>
        cases step
        have exited := now.exited (by simp [pc, MainPc.left])
        have spent : (p.ctx.join k).Spent := by
          intro k' t' found
          obtain ⟨t, found, same, -⟩ := Ctx.join_found found
          exact same ▸ oneThread.ended_of_dead (joining k pc) dead found
        refine ⟨⟨fun k' t found alive => absurd (spent k' t found) (by simp [alive]), ?_,
          fun _ => spent⟩, by simp, fun _ => spent⟩
        simp [Ctx.join, exited]
  | returned => simp [pc] at step

/-- Every step keeps the order, by cases on the thread that steps. -/
theorem InOrder.step (now : p.InOrder) {action : ProgramAction}
    (step : p.step action = some p')
    : p'.InOrder := by
  have joined (thread : Joinable) (behind : p.main.joined thread) : p'.ended thread :=
    ended_step step (now.joined thread behind)
  cases action with
  | ctx action =>
      obtain ⟨c, inner, rfl⟩ := Option.map_eq_some_iff.mp step
      refine ⟨joined, now.oneThread.anyMove (Ctx.step_anyMove inner), fun k waits => ?_,
        fun returned => ?_⟩
      · have exited := now.exited (by simp [show p.main = _ from waits, MainPc.left])
        exact (Ctx.step_spent inner exited).1.trans (now.joining k waits)
      · have exited := now.exited (by simp [show p.main = _ from returned, MainPc.left])
        exact (Ctx.step_spent inner exited).2 (now.last returned)
  | main ok =>
      obtain ⟨oneThread, joining, last⟩ := now.mainStep step
      refine ⟨fun thread behind => ?_, oneThread, joining, last⟩
      rcases mainStep_joined step behind with earlier | ends
      · exact joined thread earlier
      · exact ended_step step ends
  | timer =>
      have moved : p.timerStep = some p' := step
      have main := step_main step (by simp)
      have others := now.oneThread
      refine ⟨fun thread behind => joined thread (main ▸ behind), ?_, fun k waits => ?_,
        fun returned => ?_⟩
      all_goals unfold timerStep at moved
      all_goals split at moved <;> cases moved
      all_goals first
        | exact ⟨others.handle, others.joining, others.alone⟩
        | exact now.joining k waits
        | exact now.last returned
  | poller x =>
      have main := step_main step (by simp)
      refine ⟨fun thread behind => joined thread (main ▸ behind), ?_, ?_, ?_⟩
      all_goals rw [pollerStep_aside step]
      · exact now.oneThread
      · exact fun k waits => now.joining k (main ▸ waits)
      · exact fun returned => now.last (main ▸ returned)

end Program

section Runs

variable {cfg : Config} {p : Program}

/-- The stop sequence keeps its order in every run, by induction on the run. -/
theorem program_inOrder (reached : (program cfg).Reachable p) : p.InOrder := by
  refine Lts.Reachable.induct Program.InOrder ?_ ?_ reached
  · rintro _ rfl
    refine ⟨fun thread behind => ?_, Ctx.OneThread.init cfg.role, nofun, nofun⟩
    have places := thread.left_cases
    have behind : 28 < thread.pc.left := behind
    omega
  · rintro p action p' - now step
    exact now.step step

/-- Nothing but the timer and the actions from outside is left. -/
structure Program.Alone (p : Program) : Prop where
  ended : ∀ thread, p.ended thread
  threads : ∀ t ∈ p.ctx.initThreads, t.pc.ended = true
  steps : ∀ action p', action.byThread → p.step action = some p' → action = .timer

/-- When the main thread has returned, all other threads have ended, in every interleaving with
any stop requests.
-/
theorem returned_alone (reached : (program cfg).Reachable p) (returned : p.main = .returned)
    : p.Alone := by
  have now := program_inOrder reached
  have ended (thread : Joinable) : p.ended thread := by
    refine now.joined thread ?_
    have places := thread.left_cases
    have last : p.main.left = 0 := by rw [returned]; rfl
    rw [MainPc.joined]
    omega
  have spent := now.last returned
  refine ⟨ended, fun t member => ?_, fun action p' thread step => ?_⟩
  · obtain ⟨k, found⟩ := List.mem_iff_getElem?.mp member
    exact spent k t found
  · have sched : p.ctx.sched = .exited := ended .scheduler
    have dispatcher : p.ctx.exec.dispatcher = .exited := ended .dispatcher
    have worker (i : Fin 6) : p.ctx.exec.worker i = .exited := ended (.worker i)
    cases action with
    | timer => rfl
    | main ok => simp [Program.step, Program.mainStep, returned] at step
    | poller x =>
        rcases ended (.poller x) with absent | exited
        · simp [Program.step, Program.pollerStep, absent] at step
        · simp [Program.step, Program.pollerStep, exited] at step
    | ctx action =>
        obtain ⟨c, inner, -⟩ := Option.map_eq_some_iff.mp step
        cases action with
        | inject type dir payload mallocOk | requestStop => cases thread
        | sched ok => simp [Ctx.step, Ctx.schedStep, sched] at inner
        | schedReturn => simp [Ctx.step, Ctx.schedReturn, sched] at inner
        | init k =>
            obtain ⟨t, found, move⟩ := Ctx.initStep_move inner
            exact absurd (spent k t found) (by simp [move.alive])
        | cancel k =>
            obtain ⟨t, found, -, alive, -⟩ := Ctx.cancelEffect_cases inner
            rw [Ctx.dead_iff found] at alive
            exact absurd (spent k t found) (by simp [alive])
        | dispatcher =>
            simp [Ctx.step, Ctx.dispatcherStep, Exec.dispatcherStep, dispatcher] at inner
        | dispatcherReturn => simp [Ctx.step, Exec.dispatcherReturn, dispatcher] at inner
        | worker i => simp [Ctx.step, Exec.workerStep, worker] at inner
        | workerReturn i => simp [Ctx.step, Exec.workerReturn, worker] at inner

/-- The labels of a run whose stop finds a master-init thread at its acknowledgement. -/
def killedRun : List ProgramAction :=
  [.ctx (.inject .keyRefill .master 0 true)]
    ++ List.replicate 13 (.ctx (.sched true))
    ++ [.ctx (.init 0), .ctx .requestStop]
    ++ List.replicate 4 (.main true)
    ++ [.ctx (.sched true), .poller .zigbee, .poller .zigbee, .poller .clock, .poller .clock]
    ++ List.replicate 13 (.main true)
    ++ .ctx .dispatcher :: (List.finRange 6).map (fun i => .ctx (.worker i))
    ++ List.replicate 8 (.main true)
    ++ [.ctx (.cancel 0), .main true]

/-- Witness: the thread is killed and joined, and nobody is left. -/
theorem returned_alone_killed
    : ∃ p : Program, p.ctx.initThreads = [⟨.killed, true, true, 1⟩] ∧ p.Alone := by
  have ran
      : (Lts.execute Program.step (Program.init ⟨.a, false, .mixed, 0⟩) killedRun).isSome := by
    decide
  have reached : (program ⟨.a, false, .mixed, 0⟩).Reachable (Option.get _ ran) :=
    ⟨_, rfl, Lts.execute_steps (fun _ _ _ taken => taken) (Option.some_get ran).symm⟩
  exact ⟨Option.get _ ran, rfl, returned_alone reached rfl⟩

end Runs

end QKeySys.Core
