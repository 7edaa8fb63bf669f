import QKeySys.Core.AtomicAct
import QKeySys.Core.Handover
import QKeySys.Core.Linked
import QKeySys.Core.Termination

/-! Rest: when no thread of a running system has a next step, no event is left in the FIFO, in
the wait heap or in the slot.
-/

namespace QKeySys.Core

open QKeySys.Library

-----------------------------------------------------------------------------------------
-- Sleep without a notification
-----------------------------------------------------------------------------------------

namespace Exec

variable {x y : Exec}

/-- Whoever sleeps without being notified has nothing to do yet. -/
structure Attentive (x : Exec) : Prop where
  wait : x.dispatcher = .asleep → x.cv.notified = false → x.wake = false
  done
    : ∀ t ids, x.dispatcher = .asleepDone t ids → x.cvDone.notified = false →
        x.workerDone = false
  worker
    : ∀ i, x.worker i = .asleep → (x.workerSig i).cv.notified = false →
        (x.workerSig i).wake = false

theorem init_attentive : Exec.init.Attentive := by
  constructor <;> simp [init]

/-- Flags are set together with a notification and tested before a sleep, by cases on the
step.
-/
theorem Attentive.step (now : x.Attentive) {action : HandshakeAction}
    (step : x.handshakeStep action = some y)
    : y.Attentive := by
  cases action with
  | signal t r id =>
      obtain rfl := Option.some.inj step
      exact ⟨fun _ quiet => (by cases quiet), now.done, now.worker⟩
  | dispatcher =>
      cases dispatcherStep_rule step with
      | sleep pc quiet => exact ⟨fun _ _ => quiet, by simp, now.worker⟩
      | sleepDone t ids pc undone => exact ⟨by simp, fun _ _ _ _ => undone, now.worker⟩
      | wakeWorker t r ids pc =>
          refine ⟨by simp, by simp, fun i asleep quiet => ?_⟩
          by_cases own : i = workerIndex t r
          · subst own
            simp [Cond.signal] at quiet
          · simp only [Function.update_of_ne own] at quiet ⊢
            exact now.worker i asleep quiet
      | take | collect | notifyClear | notifyWake => exact ⟨by simp, by simp, now.worker⟩
  | dispatcherReturn =>
      rcases dispatcherReturn_cases step with ⟨_, rfl⟩ | ⟨t, ids, _, rfl⟩
      · exact ⟨by simp, by simp, now.worker⟩
      · exact ⟨by simp, by simp, now.worker⟩
  | worker i =>
      have others {pc : WorkerPc} {sig : WorkerSig} (j : Fin 6) (other : j ≠ i)
          (asleep : Function.update x.worker i pc j = .asleep)
          (quiet : (Function.update x.workerSig i sig j).cv.notified = false)
          : (Function.update x.workerSig i sig j).wake = false := by
        simp only [Function.update_of_ne other] at asleep quiet ⊢
        exact now.worker j asleep quiet
      cases workerStep_rule step with
      | sleep pc quiet =>
          refine ⟨now.wait, now.done, fun j asleep unnotified => ?_⟩
          by_cases own : j = i
          · subst own
            simpa using quiet
          · exact others j own asleep unnotified
      | start pc awake =>
          refine ⟨now.wait, now.done, fun j asleep unnotified => ?_⟩
          by_cases own : j = i
          · subst own
            simp at asleep
          · exact others j own asleep unnotified
      | finish pc =>
          refine ⟨now.wait, fun _ _ _ quiet => (by cases quiet), fun j asleep quiet => ?_⟩
          by_cases own : j = i
          · subst own
            simp at asleep
          · exact now.worker j (by simpa [Function.update_of_ne own] using asleep) quiet
  | workerReturn i =>
      obtain ⟨_, rfl⟩ := workerReturn_cases step
      refine ⟨now.wait, now.done, fun j asleep quiet => ?_⟩
      by_cases own : j = i
      · subst own
        simp at asleep
      · exact now.worker j (by simpa [Function.update_of_ne own] using asleep) quiet

end Exec

namespace Ctx

variable {c c' : Ctx}

/-- A scheduler that sleeps without being notified has nothing to choose from yet. -/
structure Attentive (c : Ctx) : Prop where
  nonempty
    : c.sched = .asleepNonempty → c.q.cv.notified = false →
        c.q.fifo = [] ∧ c.q.waitHeap.events = []
  forFifo : c.sched = .asleepForFifo → c.q.cv.notified = false → c.q.fifo = []

/-- The scheduler tests before it sleeps. -/
theorem Attentive.sched {ok : Bool} (move : SchedMove c ok c') : c'.Attentive := by
  cases move with
  | silent next move => cases move <;> exact ⟨by simp, by simp⟩
  | sleepNonempty pc sleeps =>
      simp only [Queue.nonemptySleeps, WaitHeap.size_eq, Bool.and_eq_true, beq_iff_eq,
        List.isEmpty_iff, List.length_eq_zero_iff] at sleeps
      exact ⟨fun _ _ => ⟨sleeps.1.2, sleeps.2⟩, by simp⟩
  | sleepForFifo pc sleeps =>
      simp only [Queue.fifoSleeps, Bool.and_eq_true, List.isEmpty_iff] at sleeps
      exact ⟨by simp, fun _ _ => sleeps.2⟩
  | popReady e | popWait e =>
      exact ⟨by cases dir : e.dir <;> simp [dispose, dir], by
        cases dir : e.dir <;> simp [dispose, dir]⟩
  | install e => exact ⟨by split <;> simp, by split <;> simp⟩
  | _ => exact ⟨by simp, by simp⟩

/-- The others notify when they fill the FIFO, by cases on the move. -/
theorem Attentive.move (now : c.Attentive) {action : Action} (move : Move c action c')
    : c'.Attentive := by
  cases move with
  | arrive => exact ⟨fun _ quiet => (by cases quiet), fun _ quiet => (by cases quiet)⟩
  | sched ok c' move => exact .sched move
  | wakeNonempty pc | wakeForFifo pc => exact ⟨by simp, by simp⟩
  | init k t found c' move =>
      cases move with
      | stage pc =>
          have notified : (c.q.updateStage .exec).cv = c.q.cv := by
            unfold Queue.updateStage
            split <;> rfl
          refine ⟨fun asleep quiet => ?_, fun asleep quiet => ?_⟩
          · simpa using now.nonempty asleep (notified ▸ quiet)
          · simpa using now.forFifo asleep (notified ▸ quiet)
      | _ => exact ⟨now.nonempty, now.forFifo⟩
  | dispatch c' move =>
      cases move with
      | wake => exact ⟨fun _ quiet => (by cases quiet), fun _ quiet => (by cases quiet)⟩
      | _ => exact ⟨now.nonempty, now.forFifo⟩
  | _ => exact ⟨now.nonempty, now.forFifo⟩

-----------------------------------------------------------------------------------------
-- Rest
-----------------------------------------------------------------------------------------

/-- No thread has a next step, with condition waits that return only when notified. -/
def Idle (c : Ctx) : Prop :=
  ∀ action, action.byThread = true → c.prompted action → c.step action = none

/-- The conditions under which the events get through: the init threads act in time, events are
of enumerated types, completions reach the scheduler, and what the system is asked for
succeeds.
-/
def undisturbed (c : Ctx) (action : Action) : Prop :=
  c.actsKnown action ∧ c.completionSeen action ∧ action.succeeds = true

/-- Nothing is left: every injected event was completed or dropped. -/
structure Drained (c : Ctx) : Prop where
  fifo : c.q.fifo = []
  heap : c.q.waitHeap.events = []
  slot : c.q.hasExec = false
  settled
    : ((c.log.completed ++ c.log.dropped).map Event.record).Perm
        (c.log.injected.map Event.record)

/-- An idle execution layer is asleep on conditions that are false. -/
theorem Idle.allAsleep (idle : c.Idle) (attentive : c.exec.Attentive)
    (alive : c.exec.dispatcher ≠ .exited ∧ ∀ i, c.exec.worker i ≠ .exited)
    : c.exec.AllAsleep := by
  refine ⟨?_, fun i => ?_⟩
  · have step : c.exec.dispatcherStep c.stop = none :=
      Option.map_eq_none_iff.mp (idle .dispatcher rfl trivial)
    have waits (called : c.exec.DispatcherCalled) : c.exec.dispatcherReturn = none :=
      Option.map_eq_none_iff.mp (idle .dispatcherReturn rfl called)
    cases pc : c.exec.dispatcher with
    | asleep =>
        refine .inl ⟨rfl, attentive.wait pc ?_⟩
        cases notified : c.exec.cv.notified with
        | false => rfl
        | true =>
            have returns := waits ⟨fun _ => notified, by simp [pc]⟩
            simp [Exec.dispatcherReturn, pc] at returns
    | asleepDone t ids =>
        refine .inr ⟨t, ids, rfl, attentive.done t ids pc ?_⟩
        cases notified : c.exec.cvDone.notified with
        | false => rfl
        | true =>
            have returns := waits ⟨by simp [pc], fun _ _ _ => notified⟩
            simp [Exec.dispatcherReturn, pc] at returns
    | exited => exact absurd pc alive.1
    | wait | waitDone t ids =>
        simp only [Exec.dispatcherStep, pc] at step
        split at step
        · cases step
        · first
            | cases step
            | split at step <;> cases step
    | wakeWorker t r ids | notifyClear t ids | notifyWake =>
        simp [Exec.dispatcherStep, pc] at step
  · have step : c.exec.workerStep c.stop i = none :=
      Option.map_eq_none_iff.mp (idle (.worker i) rfl trivial)
    have waits (called : c.exec.WorkerCalled i) : c.exec.workerReturn i = none :=
      Option.map_eq_none_iff.mp (idle (.workerReturn i) rfl called)
    cases pc : c.exec.worker i with
    | asleep =>
        refine ⟨rfl, attentive.worker i pc ?_⟩
        cases notified : (c.exec.workerSig i).cv.notified with
        | false => rfl
        | true =>
            have returns := waits (fun _ => notified)
            simp [Exec.workerReturn, pc] at returns
    | exited => exact absurd pc (alive.2 i)
    | wait =>
        simp only [Exec.workerStep, pc] at step
        split at step
        · cases step
        · split at step <;> cases step
    | running => simp [Exec.workerStep, pc] at step

/-- An idle scheduler is asleep, and nobody has notified it. -/
theorem Idle.asleep (idle : c.Idle) (stocked : c.Stocked) (running : c.sched ≠ .exited)
    : c.sched.asleep = true ∧ c.q.cv.notified = false := by
  have threads : ∀ k, c.initStep k = none := fun k => idle (.init k) rfl trivial
  have step : c.schedStep true = none := idle (.sched true) rfl trivial
  have asleep := (schedStep_quiet stocked step threads).resolve_left running
  refine ⟨asleep, ?_⟩
  cases notified : c.q.cv.notified with
  | false => rfl
  | true =>
      have waits : c.schedReturn = none := idle .schedReturn rfl notified
      cases pc : c.sched <;> simp [pc, SchedPc.asleep, schedReturn] at asleep waits

/-- With nothing in flight and no thread left, nobody works on a slot: it is free. -/
theorem HandedOn.free (now : c.HandedOn) (asleep : c.sched.asleep = true)
    (threads : ∀ k, c.initStep k = none) (quiet : c.exec.inFlight = [])
    : c.q.hasExec = false := by
  cases occupied : c.q.hasExec with
  | false => rfl
  | true =>
      have worked : c.WorkedOn := by
        refine now.worked occupied ?_ ?_ ?_ <;>
          cases pc : c.sched <;> simp [pc, SchedPc.asleep, SchedPc.spawning, SchedPc.accepting,
            SchedPc.removing] at asleep ⊢
      cases worked with
      | initThread k t found before =>
          have ended := initThreads_ended_iff.mpr threads t (List.mem_of_getElem? found)
          cases pc : t.pc <;>
            simp [pc, InitPc.ended, InitPc.early, InitPc.acting] at ended before
      | executing stage signalled =>
          have nothing := List.append_eq_nil_iff.mp quiet
          rcases signalled with ⟨-, pending⟩ | working
          · simp [nothing.2] at pending
          · simp [nothing.1] at working

/-- With nothing outstanding in the handshake, nothing is in flight. -/
theorem Linked.quiet {role : Role} (now : c.Linked role)
    (none : ¬ c.exec.log.notified.length < c.exec.log.signals.length)
    : c.exec.inFlight = [] := by
  rw [now.notified, now.signals] at none
  cases flight : c.exec.inFlight with
  | nil => rfl
  | cons id rest => simp [flight] at none

end Ctx

section Runs

variable {role : Role} {cond : Ctx → Action → Prop} {c : Ctx}

theorem runsWhen_stocked (reached : (runsWhen role cond).Reachable c) : c.Stocked := by
  refine Lts.Reachable.induct Ctx.Stocked ?_ ?_ reached
  · rintro _ rfl
    constructor <;> simp [Ctx.init, SchedPc.needsFifo]
  · rintro c action c' _ now ⟨_, step⟩
    exact now.step step

theorem runsWhen_attentive (reached : (runsWhen role cond).Reachable c) : c.Attentive :=
  runsWhen_induct Ctx.Attentive ⟨by simp [Ctx.init], by simp [Ctx.init]⟩
    (fun _ _ _ _ now _ move => now.move move) reached

theorem runsWhen_execAttentive (reached : (runsWhen role cond).Reachable c)
    : c.exec.Attentive := by
  refine Lts.Reachable.induct (fun c => c.exec.Attentive) ?_ ?_ reached
  · rintro _ rfl
    exact Exec.init_attentive
  · rintro c action c' reached now ⟨_, step⟩
    rcases Ctx.step_exec step with same | ⟨inner, moved⟩
    · exact same ▸ now
    · rw [runsWhen_go reached] at moved
      exact now.step moved

/-- Without a stop request the scheduler keeps running. -/
theorem runsWhen_running (reached : (runsWhen role cond).Reachable c)
    : c.sched ≠ .exited := by
  refine Lts.Reachable.induct (fun c => c.sched ≠ .exited) ?_ ?_ reached
  · rintro _ rfl
    simp [Ctx.init]
  · rintro c action c' reached now ⟨_, step⟩ exits
    rcases Ctx.step_exits step exits with exited | stop
    · exact now exited
    · cases (runsWhen_go reached).symm.trans stop

end Runs

/-- With its critical sections as single steps, an undisturbed system comes to rest only when
every injected event was completed or dropped: the execution layer is asleep with nothing
outstanding, so that the slot is free, and the scheduler sleeps beside a free slot only when
FIFO and heap are empty.
-/
theorem runsWhen_drained {role : Role} {c : Ctx}
    (reached : (runsWhen role Ctx.undisturbed).Reachable c) (idle : c.Idle)
    : c.Drained := by
  have inTime (c : Ctx) (action : Action) (met : c.undisturbed action) := met.1.1
  have linked := runsWhen_linked inTime (fun _ _ met => met.1.2) reached
  have handedOn : c.HandedOn := by
    refine runsWhen_handedOn (reached.of_meets (fun _ action _ _ _ step => ⟨step.1.1, ?_⟩))
    cases action with
    | sched ok => exact fun _ => step.1.2.2.2
    | _ => trivial
  have waits : c.WaitsRightly := by
    refine runsWhen_induct Ctx.WaitsRightly ?_ ?_ reached
    · simp [Ctx.WaitsRightly, Ctx.init, SchedPc.fifoWaiting]
    · intro c action c' _ now met move
      exact now.move met.2.1 move
  obtain ⟨asleep, unnotified⟩ :=
    idle.asleep (runsWhen_stocked reached) (runsWhen_running reached)
  obtain ⟨phase, served, t, r, phased⟩ := handshake_orderly.reachable linked.reached
  have alive : c.exec.dispatcher ≠ .exited := by
    intro exited
    have point := phased.dispatcher
    cases phase <;> simp [exited] at point
  have resting := idle.allAsleep (runsWhen_execAttentive reached) ⟨alive, phased.alive⟩
  have inStep := phased.inStep (handshake_known.reachable linked.reached)
  have quiet := linked.quiet (fun outstanding => inStep.outstanding outstanding resting)
  have free := handedOn.free asleep (fun k => idle (.init k) rfl trivial) quiet
  have attentive := runsWhen_attentive reached
  have empty : c.q.fifo = [] ∧ c.q.waitHeap.events = [] := by
    cases pc : c.sched <;> simp only [pc, SchedPc.asleep, Bool.false_eq_true] at asleep
    case asleepNonempty => exact attentive.nonempty pc unnotified
    case asleepForFifo =>
      have fifo := attentive.forFifo pc unnotified
      exact ⟨fifo, (waits (by rw [pc]; rfl) free).resolve_left (fun filled => filled fifo)⟩
  have lost : c.log.lost = [] :=
    runsWhen_induct (fun c => c.log.lost = []) rfl
      (fun _ _ _ _ now met move => Ctx.nothing_lost now met.2.2 move) reached
  have hand : c.sched.inHand = [] := by
    cases pc : c.sched <;> simp [pc, SchedPc.asleep, SchedPc.inHand] at asleep ⊢
  refine ⟨empty.1, empty.2, free, ?_⟩
  have balance := (runsWhen_balanced inTime reached).balance
  simpa [Ctx.places, empty.1, empty.2, hand, Queue.inSlot, free, lost] using balance

end QKeySys.Core
