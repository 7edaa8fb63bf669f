import QKeySys.Core.Ranking

/-! Runs in which `qks_init_master_send_act` is one step outside the scheduler iterations and
everything asked of the environment succeeds. They are runs of the threads, so that every
invariant carries over; between iterations no event is lost or duplicated.
-/

namespace QKeySys.Core

open QKeySys.Library

/-- The init thread is inside `qks_init_master_send_act`. -/
def InitPc.inAct : InitPc → Bool
  | .updateStage | .setBlocking | .readType | .signal _ _ => true
  | _ => false

/-- Allocations and thread creations succeed. -/
def Action.succeeds : Action → Bool
  | .inject _ _ _ mallocOk => mallocOk
  | .sched ok => ok
  | _ => true

/-- A single step of a thread, or the whole of `qks_init_master_send_act`. -/
inductive AtomicAction where
  | single (action : Action)
  | sendAct (k : Nat)
  deriving DecidableEq, Repr

namespace Ctx

variable {c c' : Ctx}

/-- `qks_init_master_send_act` by the init thread `k`: stage, hard block, the unlocked read of
the type, and the signal.
-/
def sendAct (c : Ctx) (k : Nat) : Option Ctx :=
  if c.initThreads[k]?.map InitThread.pc = some .updateStage then
    (c.initStep k).bind fun staged =>
    (staged.initStep k).bind fun blocked =>
    (blocked.initStep k).bind fun read =>
    read.initStep k
  else
    none

def atomicStep (c : Ctx) : AtomicAction → Option Ctx
  | .single action => c.step action
  | .sendAct k => c.sendAct k

/-- The step is part of `qks_init_master_send_act`. -/
def splitsAct (c : Ctx) : Action → Bool
  | .init k => (c.initThreads[k]?.map (fun t => t.pc.inAct)).getD false
  | _ => false

/-- Nobody requests a stop, nothing fails, and `qks_init_master_send_act` is one step outside
the scheduler iterations.
-/
def actsAtomically (c : Ctx) : AtomicAction → Prop
  | .single action =>
      action ≠ .requestStop ∧ action.succeeds = true ∧ c.splitsAct action = false
  | .sendAct _ => c.sched.betweenIterations = true

instance (c : Ctx) : (action : AtomicAction) → Decidable (c.actsAtomically action)
  | .single _ => inferInstanceAs (Decidable (_ ∧ _ ∧ _))
  | .sendAct _ => inferInstanceAs (Decidable (_ = _))

/-- The init threads act in time and nothing fails. -/
def actsInOrder (c : Ctx) (action : Action) : Prop :=
  c.actsInTime action ∧ action.succeeds = true

end Ctx

/-- All runs in which `qks_init_master_send_act` is one step outside the iterations. -/
def atomicRuns (role : Role) : Lts Ctx AtomicAction :=
  (Lts.ofFunction (Ctx.init role) Ctx.atomicStep).restrict Ctx.actsAtomically

theorem SchedPc.not_preempting_of_between {pc : SchedPc} (between : pc.betweenIterations = true)
    : pc.preempting = false := by
  cases pc <;> simp [betweenIterations, preempting] at between ⊢

namespace Ctx

variable {c c' : Ctx}

/-- An init thread leaves the scheduler where it is. -/
theorem initStep_sched {k : Nat} (step : c.initStep k = some c')
    : c'.sched = c.sched := by
  obtain ⟨t, -, move⟩ := initStep_move step
  obtain ⟨pc, -, sched, -⟩ := move.threads
  exact sched

/-- Outside the iterations a step of an init thread is in time. -/
theorem initStep_inOrder {role : Role} {k : Nat} (between : c.sched.betweenIterations = true)
    (step : c.initStep k = some c')
    : (runsWhen role actsInOrder).Step c c'
      ∧ c'.sched.betweenIterations = true := by
  refine ⟨⟨.init k, ⟨by simp, ?_, rfl⟩, step⟩, ?_⟩
  · intro late
    rw [SchedPc.not_preempting_of_between between] at late
    cases late
  · rw [initStep_sched step]
    exact between

/-- Every step of an atomic run is a path of the threads, by cases on the action. -/
theorem atomicRuns_refines {role : Role} {action : AtomicAction}
    (step : (atomicRuns role).next c action c')
    : (runsWhen role actsInOrder).Steps c c' := by
  cases action with
  | single action =>
      obtain ⟨⟨running, succeeds, whole⟩, taken⟩ := step
      refine .single ⟨action, ⟨running, ?_, succeeds⟩, taken⟩
      cases action with
      | init k =>
          intro _ t found pc
          simp [splitsAct, found, pc, InitPc.inAct] at whole
      | _ => trivial
  | sendAct k =>
      obtain ⟨between, taken⟩ := step
      change c.sendAct k = some c' at taken
      unfold sendAct at taken
      split at taken
      case isFalse => cases taken
      case isTrue =>
        obtain ⟨staged, first, taken⟩ := Option.bind_eq_some_iff.mp taken
        obtain ⟨blocked, second, taken⟩ := Option.bind_eq_some_iff.mp taken
        obtain ⟨read, third, fourth⟩ := Option.bind_eq_some_iff.mp taken
        obtain ⟨first, between⟩ := initStep_inOrder between first
        obtain ⟨second, between⟩ := initStep_inOrder between second
        obtain ⟨third, between⟩ := initStep_inOrder between third
        obtain ⟨fourth, -⟩ := initStep_inOrder between fourth
        exact .head first (.head second (.head third (.single fourth)))

/-- What `qks_init_master_send_act` does in one go. -/
theorem sendAct_eq {k : Nat} (taken : c.sendAct k = some c')
    : ∃ t, c.initThreads[k]? = some t ∧ t.pc = .updateStage
        ∧ c' = {
            c.setInit k t .clearRunning with
            q := (c.q.updateStage .exec).setBlocking true
            exec := c.exec.signal c.q.execEvent.type c.role c.q.execEvent.id
          } := by
  unfold sendAct at taken
  split at taken
  case isFalse => cases taken
  case isTrue pc =>
    obtain ⟨t, found, pc⟩ := Option.map_eq_some_iff.mp pc
    refine ⟨t, found, pc, ?_⟩
    obtain ⟨staged, first, taken⟩ := Option.bind_eq_some_iff.mp taken
    obtain ⟨blocked, second, taken⟩ := Option.bind_eq_some_iff.mp taken
    obtain ⟨read, third, fourth⟩ := Option.bind_eq_some_iff.mp taken
    have threads {threads : List InitThread} {old new : InitThread}
        (member : threads[k]? = some old) : (threads.set k new)[k]? = some new :=
      List.getElem?_set_self (List.getElem?_eq_some_iff.mp member).1
    simp only [initStep, found, pc, Option.some.injEq] at first
    subst first
    simp only [initStep, threads found, Option.some.injEq] at second
    subst second
    simp only [initStep, threads (threads found), Option.some.injEq] at third
    subst third
    simp only [initStep, threads (threads (threads found)), Option.some.injEq] at fourth
    subst fourth
    simp [setInit]

end Ctx

/-- The states of atomic runs are reached by the threads in order. -/
theorem atomicRuns_reachable {role : Role} {c : Ctx}
    (reached : (atomicRuns role).Reachable c)
    : (runsWhen role Ctx.actsInOrder).Reachable c := by
  refine Lts.Reachable.of_refines ?_ ?_ reached
  · exact fun _ initial => initial
  · exact fun _ _ _ step => Ctx.atomicRuns_refines step

/-- The moves of atomic runs: a move of a thread, or the whole of
`qks_init_master_send_act` by the init thread `k`, which is `t` before.
-/
inductive Ctx.AtomicMove (c : Ctx) : Ctx → Prop where
  | single (action : Action) (succeeds : action.succeeds = true)
      (whole : c.splitsAct action = false) (c' : Ctx) (move : Ctx.Move c action c')
      : AtomicMove c c'
  | act (k : Nat) (t : InitThread) (between : c.sched.betweenIterations = true)
      (found : c.initThreads[k]? = some t) (pc : t.pc = .updateStage)
      : AtomicMove c {
          c.setInit k t .clearRunning with
          q := (c.q.updateStage .exec).setBlocking true
          exec := c.exec.signal c.q.execEvent.type c.role c.q.execEvent.id
        }

/-- Every step of an atomic run is one of its moves, by cases on the action. -/
theorem atomicRuns_move {role : Role} {c c' : Ctx} {action : AtomicAction}
    (reached : (atomicRuns role).Reachable c) (step : (atomicRuns role).next c action c')
    : c.AtomicMove c' := by
  cases action with
  | single action =>
      obtain ⟨⟨running, succeeds, whole⟩, taken⟩ := step
      have go := runsWhen_go (atomicRuns_reachable reached)
      exact .single action succeeds whole c' (Ctx.step_move go running taken)
  | sendAct k =>
      obtain ⟨between, taken⟩ := step
      obtain ⟨t, found, pc, rfl⟩ := Ctx.sendAct_eq taken
      exact .act k t between found pc

/-- Induction over the states of atomic runs, with one case for each move. -/
theorem atomicRuns_induct {role : Role} (holds : Ctx → Prop)
    (init : holds (Ctx.init role))
    (step : ∀ c c', (atomicRuns role).Reachable c → holds c → Ctx.AtomicMove c c' → holds c')
    {c : Ctx} (reached : (atomicRuns role).Reachable c)
    : holds c := by
  refine Lts.Reachable.induct holds ?_ ?_ reached
  · rintro _ rfl
    exact init
  · intro c action c' reached now taken
    exact step c c' reached now (atomicRuns_move reached taken)

namespace Ctx

variable {c c' : Ctx}

/-- The places of an event between two iterations. -/
def settled (c : Ctx) : List Event :=
  c.q.fifo ++ c.q.waitHeap.events ++ c.q.inSlot ++ c.log.completed ++ c.log.dropped

/-- Every injected event is in exactly one place, with its type, payload and priority, and a
MASTER with its number; the wait heap holds only MASTER events, only SLAVE events were
dropped.
-/
structure Conserved (c : Ctx) : Prop where
  placed : (c.settled.map Event.record).Perm (c.log.injected.map Event.record)
  once : (c.settled.map Event.id).Nodup
  heap : ∀ e ∈ c.q.waitHeap.events, e.dir = .master
  dropped : ∀ e ∈ c.log.dropped, e.dir = .slave

/-- Nothing is lost when the wait heap can grow, by cases on the move. -/
theorem nothing_lost (now : c.log.lost = []) {action : Action}
    (succeeds : action.succeeds = true) (move : Move c action c')
    : c'.log.lost = [] := by
  cases move with
  | sched ok c' move =>
      cases move with
      | losePrev prev pc failed => simp [failed, Action.succeeds] at succeeds
      | loseBlocked f pc failed => simp [failed, Action.succeeds] at succeeds
      | _ => exact now
  | init k t found c' move => cases move <;> exact now
  | dispatch c' move => cases move <;> exact now
  | _ => exact now

theorem inHand_of_between (between : c.sched.betweenIterations = true)
    : c.sched.inHand = [] := by
  cases pc : c.sched <;> simp [pc, SchedPc.betweenIterations, SchedPc.inHand] at between ⊢

/-- Between two iterations the balance leaves five places for an event. -/
theorem Balanced.conserved (now : c.Balanced) (arrivals : c.Arrivals)
    (between : c.sched.betweenIterations = true) (lost : c.log.lost = [])
    : c.Conserved := by
  have settled : c.settled = c.places := by
    simp [Ctx.settled, places, inHand_of_between between, lost]
  refine ⟨?_, ?_, now.heap, now.dropped⟩
  · rw [settled]
    exact now.balance
  · rw [settled]
    exact now.nodup arrivals

end Ctx

theorem runsWhen_nothing_lost {role : Role} {c : Ctx}
    (reached : (runsWhen role Ctx.actsInOrder).Reachable c)
    : c.log.lost = [] :=
  runsWhen_induct (fun c => c.log.lost = []) rfl
    (fun _ _ _ _ now met move => Ctx.nothing_lost now met.2 move) reached

/-- Between two iterations all events are conserved. -/
def EventsConserved (system : Lts Ctx AtomicAction) : Prop :=
  ∀ c, system.Reachable c → c.sched.betweenIterations = true → c.Conserved

/-- No event is lost or duplicated when `qks_init_master_send_act` is one step outside the
iterations.
-/
theorem atomicRuns_eventsConserved (role : Role) : EventsConserved (atomicRuns role) := by
  intro c reached between
  have reached := atomicRuns_reachable reached
  exact (runsWhen_balanced (fun _ _ met => met.1) reached).conserved
    (runsWhen_arrivals reached) between (runsWhen_nothing_lost reached)

/-- A MASTER is installed, and a more urgent one preempts it. -/
def displacingRun : List AtomicAction :=
  [.single (.inject .keyRefill .master 0 true)]
    ++ List.replicate 13 (.single (.sched true))
    ++ [.single (.inject .deviceAuth .master 0 true)]
    ++ List.replicate 10 (.single (.sched true)) ++ [.single (.cancel 0)]
    ++ List.replicate 8 (.single (.sched true))

/-- A third MASTER is parked, the second is completed, and the first is installed again; its
init thread is about to act.
-/
def reinstallingRun : List AtomicAction :=
  [.single (.inject .keyRefill .master 0 true)]
    ++ List.replicate 11 (.single (.sched true))
    ++ List.replicate 11 (.single (.init 1)) ++ [.sendAct 1]
    ++ List.replicate 2 (.single .dispatcher)
    ++ List.replicate 2 (.single (.worker (workerIndex .deviceAuth .a)))
    ++ List.replicate 3 (.single .dispatcher) ++ [.single (.init 1)]
    ++ List.replicate 12 (.single (.sched true)) ++ List.replicate 11 (.single (.init 2))

/-- The first MASTER is completed, too. -/
def completingRun : List AtomicAction :=
  [.sendAct 2] ++ List.replicate 2 (.single .dispatcher)
    ++ List.replicate 2 (.single (.worker (workerIndex .keyRefill .a)))
    ++ List.replicate 3 (.single .dispatcher)

/-- The step of atomic runs as a function. -/
def atomicRunStep : Ctx → AtomicAction → Option Ctx :=
  Lts.guardedStep Ctx.atomicStep Ctx.actsAtomically

theorem atomicRuns_executed {role : Role} {c c' : Ctx} {actions : List AtomicAction}
    (reached : (atomicRuns role).Reachable c)
    (ran : Lts.execute atomicRunStep c actions = some c')
    : (atomicRuns role).Reachable c' :=
  reached.steps (Lts.execute_steps Lts.guardedStep_sound ran)

def displacedState : Ctx :=
  Option.get (Lts.execute atomicRunStep (Ctx.init .a) displacingRun) (by decide +kernel)

def reinstalledState : Ctx :=
  Option.get (Lts.execute atomicRunStep displacedState reinstallingRun) (by decide +kernel)

def completedState : Ctx :=
  Option.get (Lts.execute atomicRunStep reinstalledState completingRun) (by decide +kernel)

theorem displacedState_reachable : (atomicRuns .a).Reachable displacedState :=
  Lts.execute_reachable displacingRun _

theorem reinstalledState_reachable : (atomicRuns .a).Reachable reinstalledState :=
  atomicRuns_executed displacedState_reachable (Option.some_get _).symm

theorem completedState_reachable : (atomicRuns .a).Reachable completedState :=
  atomicRuns_executed reinstalledState_reachable (Option.some_get _).symm

/-- Witness: the first MASTER waits in the heap while the second is in the slot, and is
completed behind it while the third waits.
-/
theorem completedState_conserved
    : displacedState.q.waitHeap.events.map Event.id = [1]
      ∧ displacedState.q.execEvent.id = 2
      ∧ displacedState.Conserved
      ∧ completedState.log.completed.map Event.id = [2, 1]
      ∧ completedState.q.waitHeap.events.map Event.id = [3]
      ∧ completedState.Conserved :=
  ⟨by decide +kernel, by decide +kernel,
    atomicRuns_eventsConserved .a _ displacedState_reachable (by decide +kernel),
    by decide +kernel, by decide +kernel,
    atomicRuns_eventsConserved .a _ completedState_reachable (by decide +kernel)⟩

end QKeySys.Core
