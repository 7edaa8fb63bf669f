import QKeySys.Core.Handshake
import QKeySys.Core.Threads

/-! The runs in which a stop may be requested at any time, and what every step of them does
to the slot, to the signal and to the threads.
-/

namespace QKeySys.Core

open QKeySys.Library

namespace Exec

/-- A signal is pending, or the dispatcher has taken one and not cleared the slot yet. -/
def busy (x : Exec) : Bool := x.wake || x.dispatcher.working

/-- The dispatcher does not work while a signal is pending. -/
def Exclusive (x : Exec) : Prop := x.wake = true → x.dispatcher.working = false

/-- The steps of the execution layer with the stop flag as it is. -/
def stepUnder (x : Exec) (stop : Bool) : HandshakeAction → Option Exec
  | .signal t r id => some (x.signal t r id)
  | .dispatcher => x.dispatcherStep stop
  | .dispatcherReturn => x.dispatcherReturn
  | .worker i => x.workerStep stop i
  | .workerReturn i => x.workerReturn i

/-- From `x` to `y` a signal was at most handed on to the dispatcher. -/
structure HandsOn (x y : Exec) : Prop where
  busy : y.busy = x.busy
  exclusive : x.Exclusive → y.Exclusive

theorem SameSignals.handsOn {x y : Exec} (same : SameSignals x y) : HandsOn x y where
  busy := by rw [Exec.busy, Exec.busy, same.wake, same.working]
  exclusive now := by rwa [Exclusive, same.wake, same.working]

/-- Up to the notification the dispatcher only hands a signal on, also when a stop is
requested.
-/
theorem dispatcherStep_handsOn {x y : Exec} {stop : Bool}
    (step : x.dispatcherStep stop = some y)
    (other : ∀ t ids, x.dispatcher ≠ .notifyClear t ids)
    : HandsOn x y := by
  unfold dispatcherStep at step
  cases pc : x.dispatcher with
  | wait =>
      simp only [pc] at step
      split_ifs at step with quiet requested <;> obtain rfl := Option.some.inj step
      · constructor <;> simp [busy, Exclusive, pc, DispatcherPc.working]
      · constructor <;> simp [busy, Exclusive, pc, DispatcherPc.working]
      · have awake : x.wake = true := by simpa [requested] using quiet
        constructor <;> simp [busy, Exclusive, awake, DispatcherPc.working]
  | wakeWorker t r ids =>
      simp only [pc] at step
      obtain rfl := Option.some.inj step
      constructor <;> simp [busy, Exclusive, pc, DispatcherPc.working]
  | waitDone t ids =>
      simp only [pc] at step
      split at step <;> obtain rfl := Option.some.inj step <;>
        constructor <;> simp [busy, Exclusive, pc, DispatcherPc.working]
  | notifyClear t ids => exact absurd pc (other t ids)
  | notifyWake =>
      simp only [pc] at step
      obtain rfl := Option.some.inj step
      constructor <;> simp [busy, Exclusive, pc, DispatcherPc.working]
  | asleep => simp [pc] at step
  | asleepDone t ids => simp [pc] at step
  | exited => simp [pc] at step

/-- The steps of a worker leave the signals alone, also when a stop is requested. -/
theorem workerStep_sameSignals {x y : Exec} {stop : Bool} {i : Fin 6}
    (step : x.workerStep stop i = some y)
    : SameSignals x y := by
  unfold workerStep at step
  cases pc : x.worker i with
  | wait =>
      simp only [pc] at step
      split_ifs at step
      all_goals
        obtain rfl := Option.some.inj step
        exact ⟨rfl, rfl, rfl, rfl, rfl⟩
  | running =>
      simp only [pc] at step
      obtain rfl := Option.some.inj step
      exact ⟨rfl, rfl, rfl, rfl, rfl⟩
  | asleep => simp [pc] at step
  | exited => simp [pc] at step

end Exec

namespace Ctx

/-- The execution slot with its guards. -/
structure SameSlot (q q' : Queue) : Prop where
  hasExec : q'.hasExec = q.hasExec
  execEvent : q'.execEvent = q.execEvent
  hardBlocking : q'.hardBlocking = q.hardBlocking
  guardPriority : q'.guardPriority = q.guardPriority

/-- The moves of all threads with a stop requested or not. Those of the scheduler and of the
init threads are the same; everything else is `aside`, but for the notification.
-/
inductive AnyMove (c : Ctx) : Action → Ctx → Prop where
  | sched (ok : Bool) (c' : Ctx) (move : SchedMove c ok c') : AnyMove c (.sched ok) c'
  | wakeNonempty (pc : c.sched = .asleepNonempty)
      : AnyMove c .schedReturn { c with sched := .waitNonempty }
  | wakeForFifo (pc : c.sched = .asleepForFifo)
      : AnyMove c .schedReturn { c with sched := .waitForFifo }
  | init (k : Nat) (t : InitThread) (found : c.initThreads[k]? = some t) (c' : Ctx)
      (move : InitMove c k t c')
      : AnyMove c (.init k) c'
  | cancel (k : Nat) (t : InitThread) (found : c.initThreads[k]? = some t)
      (pending : t.cancelled = true) (alive : c.dead k = false)
      : AnyMove c (.cancel k) (c.setInit k t .killed)
  | clear (t : EventType) (ids : List Nat) (pc : c.exec.dispatcher = .notifyClear t ids)
      (x : Exec) (log : CtxLog) (wake : x.wake = c.exec.wake)
      (done : x.dispatcher = .notifyWake)
      : AnyMove c .dispatcher { c with exec := x, q := c.q.clearExecSlot, log := log }
  | aside (action : Action) (q : Queue) (stop : Bool) (x : Exec) (log : CtxLog)
      (slot : SameSlot c.q q) (handsOn : Exec.HandsOn c.exec x)
      : AnyMove c action { c with q := q, stop := stop, exec := x, log := log }

/-- Every step is one of the moves, by cases on the action. -/
theorem step_anyMove {c c' : Ctx} {action : Action} (step : c.step action = some c')
    : AnyMove c action c' := by
  have handsOn : Exec.HandsOn c.exec c.exec := ⟨rfl, id⟩
  cases action with
  | inject type dir payload mallocOk =>
      obtain rfl := Option.some.inj step
      cases mallocOk <;> exact .aside _ _ c.stop c.exec _ ⟨rfl, rfl, rfl, rfl⟩ handsOn
  | sched ok => exact .sched ok c' (schedStep_move step)
  | schedReturn =>
      rcases schedReturn_cases step with ⟨pc, rfl⟩ | ⟨pc, rfl⟩
      · exact .wakeNonempty pc
      · exact .wakeForFifo pc
  | init k =>
      obtain ⟨t, found, move⟩ := initStep_move step
      exact .init k t found c' move
  | cancel k =>
      obtain ⟨t, found, pending, alive, rfl⟩ := cancelEffect_cases step
      exact .cancel k t found pending alive
  | dispatcher =>
      obtain ⟨x, inner, rfl⟩ := Option.map_eq_some_iff.mp step
      split
      case h_1 t ids pc =>
        rw [Exec.dispatcherStep, pc] at inner
        obtain rfl := Option.some.inj inner
        exact .clear t ids pc _ _ rfl rfl
      case h_2 pc =>
        exact .aside _ _ c.stop x c.log ⟨rfl, rfl, rfl, rfl⟩
          (Exec.dispatcherStep_handsOn inner (by simp [pc]))
      case h_3 other _ =>
        exact .aside _ c.q c.stop x c.log ⟨rfl, rfl, rfl, rfl⟩
          (Exec.dispatcherStep_handsOn inner other)
  | dispatcherReturn =>
      obtain ⟨x, inner, rfl⟩ := Option.map_eq_some_iff.mp step
      exact .aside _ c.q c.stop x c.log ⟨rfl, rfl, rfl, rfl⟩
        (Exec.dispatcherReturn_sameSignals inner).handsOn
  | worker i =>
      obtain ⟨x, inner, rfl⟩ := Option.map_eq_some_iff.mp step
      exact .aside _ c.q c.stop x c.log ⟨rfl, rfl, rfl, rfl⟩
        (Exec.workerStep_sameSignals inner).handsOn
  | workerReturn i =>
      obtain ⟨x, inner, rfl⟩ := Option.map_eq_some_iff.mp step
      exact .aside _ c.q c.stop x c.log ⟨rfl, rfl, rfl, rfl⟩
        (Exec.workerReturn_sameSignals inner).handsOn
  | requestStop =>
      obtain rfl := Option.some.inj step
      exact .aside _ c.q true c.exec c.log ⟨rfl, rfl, rfl, rfl⟩ handsOn

/-- What a step does to the execution layer is one step of that layer or nothing, by cases on
the action.
-/
theorem step_exec {c c' : Ctx} {action : Action} (step : c.step action = some c')
    : c'.exec = c.exec ∨ ∃ inner, c.exec.stepUnder c.stop inner = some c'.exec := by
  cases action with
  | inject type dir payload mallocOk | requestStop =>
      obtain rfl := Option.some.inj step
      exact .inl rfl
  | sched ok =>
      cases schedStep_move step with
      | actSignal t id pc => exact .inr ⟨.signal t c.role id, rfl⟩
      | _ => exact .inl rfl
  | schedReturn => rcases schedReturn_cases step with ⟨_, rfl⟩ | ⟨_, rfl⟩ <;> exact .inl rfl
  | init k =>
      obtain ⟨t, found, move⟩ := initStep_move step
      cases move with
      | signal type id pc => exact .inr ⟨.signal type c.role id, rfl⟩
      | _ => exact .inl rfl
  | cancel k =>
      obtain ⟨t, _, _, _, rfl⟩ := cancelEffect_cases step
      exact .inl rfl
  | dispatcher =>
      obtain ⟨x, inner, rfl⟩ := Option.map_eq_some_iff.mp step
      split <;> exact .inr ⟨.dispatcher, inner⟩
  | dispatcherReturn =>
      obtain ⟨x, inner, rfl⟩ := Option.map_eq_some_iff.mp step
      exact .inr ⟨.dispatcherReturn, inner⟩
  | worker i =>
      obtain ⟨x, inner, rfl⟩ := Option.map_eq_some_iff.mp step
      exact .inr ⟨.worker i, inner⟩
  | workerReturn i =>
      obtain ⟨x, inner, rfl⟩ := Option.map_eq_some_iff.mp step
      exact .inr ⟨.workerReturn i, inner⟩

/-- The thread behind the handle is the only one that may be running, whatever is stopped, by
cases on the move.
-/
theorem OneThread.anyMove {c c' : Ctx} (now : c.OneThread) {action : Action}
    (move : AnyMove c action c')
    : c'.OneThread := by
  cases move with
  | sched ok c' move => exact now.sched move
  | wakeNonempty pc => exact ⟨now.handle, by simp, by simp [SchedPc.afterJoin]⟩
  | wakeForFifo pc => exact ⟨now.handle, by simp, by simp [SchedPc.afterJoin]⟩
  | init k t found c' move => exact now.initMove found move
  | cancel k t found pending alive => exact now.cancel found
  | clear t ids pc x log wake done => exact ⟨now.handle, now.joining, now.alone⟩
  | aside action q stop x log slot handsOn => exact ⟨now.handle, now.joining, now.alone⟩

end Ctx

/-- All interleavings of all threads, with stop requests at any time, whose steps all meet a
condition on the state before the step.
-/
def allRuns (role : Role) (cond : Ctx → Action → Prop) : Lts Ctx Action :=
  (Lts.ofFunction (Ctx.init role) Ctx.step).restrict cond

section Runs

variable {role : Role} {cond : Ctx → Action → Prop}

/-- Induction over the reachable states, with one case for each move. -/
theorem allRuns_induct (holds : Ctx → Prop) (init : holds (Ctx.init role))
    (step : ∀ c action c', (allRuns role cond).Reachable c → holds c → cond c action →
      Ctx.AnyMove c action c' → holds c')
    {c : Ctx} (reached : (allRuns role cond).Reachable c)
    : holds c := by
  refine Lts.Reachable.induct holds ?_ ?_ reached
  · rintro _ rfl
    exact init
  · rintro c action c' reached now ⟨met, taken⟩
    exact step c action c' reached now met (Ctx.step_anyMove taken)

theorem allRuns_oneThread {c : Ctx} (reached : (allRuns role cond).Reachable c)
    : c.OneThread :=
  allRuns_induct Ctx.OneThread (.init role) (fun _ _ _ _ now _ move => now.anyMove move) reached

end Runs

end QKeySys.Core
