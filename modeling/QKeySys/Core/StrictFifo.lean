import Mathlib.Data.List.Nodup
import QKeySys.Core.AtomicAct

/-! Events of one priority are executed in order of arrival, however they are mixed, parked
and preempted on the way.
-/

namespace QKeySys.Core

open QKeySys.Library

namespace Ctx

variable {c c' : Ctx}

/-- The events that wait: in the FIFO, in the wait heap, or in the slot in stage INIT. -/
def pending (c : Ctx) : List Event :=
  c.q.fifo ++ c.q.waitHeap.events
    ++ if c.q.hasExec ∧ c.q.execEvent.stage = .init then [c.q.execEvent] else []

/-- An event that is executing after a move was in the slot before, by cases on the move. -/
theorem Executes.before {id : Nat} {action : Action} (now : c'.Executes id)
    (move : Move c action c')
    : c.q.hasExec = true ∧ c.q.execEvent.id = id := by
  obtain ⟨occupied, stage, same⟩ := now
  cases move with
  | sched ok c' move =>
      cases move with
      | claim e pc => simp at stage
      | install e pc => simp at stage
      | clear prev pc => simp at occupied
      | actStage pc => exact ⟨by simpa using occupied, by simpa using same⟩
      | _ => exact ⟨occupied, same⟩
  | init k t found c' move =>
      cases move with
      | stage pc => exact ⟨by simpa using occupied, by simpa using same⟩
      | _ => exact ⟨occupied, same⟩
  | dispatch c' move =>
      cases move with
      | clear t ids pc => simp at occupied
      | _ => exact ⟨occupied, same⟩
  | _ => exact ⟨occupied, same⟩

/-- The same for the moves of atomic runs. -/
theorem Executes.before_atomic {id : Nat} (now : c'.Executes id) (move : c.AtomicMove c')
    : c.q.hasExec = true ∧ c.q.execEvent.id = id := by
  cases move with
  | single action succeeds whole c' move => exact now.before move
  | act k t between found pc =>
      obtain ⟨occupied, -, same⟩ := now
      exact ⟨by simpa using occupied, by simpa using same⟩

/-- Injected events with the same number are the same. -/
theorem Arrivals.unique (arrivals : c.Arrivals) {x y : Event} (member : x ∈ c.log.injected)
    (member' : y ∈ c.log.injected) (same : x.id = y.id)
    : x = y := by
  have distinct : (c.log.injected.map Event.id).Nodup := by
    rw [List.nodup_iff_pairwise_ne, List.pairwise_map]
    exact arrivals.increasing.imp (fun less => Nat.ne_of_lt less)
  exact List.inj_on_of_nodup_map distinct member member' same

/-- Everything that waits beside a waiting slot event of the same priority came later. -/
theorem Ranked.first (ranked : c.Ranked) (line : c.Line) (balanced : c.Balanced)
    (arrivals : c.Arrivals) (bound : c.log.attempts < UInt64.size) (waiting : c.Waiting)
    {x y : Event} (member : x ∈ c.log.injected) (inSlot : c.q.execEvent.id = x.id)
    (pending : y ∈ c.pending) (other : y.id ≠ x.id) (same : y.priority = x.priority)
    : x.seq < y.seq := by
  have slot : c.q.execEvent ∈ c.q.inSlot := by simp [Queue.inSlot, waiting.1]
  have priority : c.q.execEvent.priority = x.priority := by
    obtain ⟨z, origin, record⟩ := balanced.origin (e := c.q.execEvent) (by simp [places, slot])
    have id : z.id = c.q.execEvent.id := congrArg Record.id record
    obtain rfl := arrivals.unique origin member (id.trans inSlot)
    exact (congrArg Record.priority record).symm
  -- Numbers below the bound are compared as the counter was, by their arrival.
  have later (numbered : y.seq = UInt64.ofNat y.id) (placed : y ∈ c.places)
      (order : x.id < y.id) : x.seq < y.seq :=
    (Event.seq_lt_iff bound (arrivals.numbered x member) numbered (arrivals.bounded x member)
      (balanced.bounded arrivals placed)).mpr order
  simp only [Ctx.pending, List.mem_append] at pending
  rcases pending with (inFifo | inHeap) | inWindow
  · refine later (line.numbered y inFifo) (by simp [places, inFifo]) ?_
    exact inSlot ▸ line.behind _ (by simp [taken, slot]) y inFifo
  · refine later (balanced.numbered arrivals (by simp [places, inHeap])
      (balanced.heap y inHeap)) (by simp [places, inHeap]) ?_
    rcases ranked.slot waiting y inHeap with less | ⟨-, order⟩
    · exact absurd (priority.trans same.symm) less.ne
    · exact inSlot ▸ order bound
  · split at inWindow
    case isTrue => exact absurd (List.mem_singleton.mp inWindow ▸ inSlot) other
    case isFalse => cases inWindow

end Ctx

/-- Whenever an event enters stage EXEC with fewer than 2^64 events offered so far, all other
pending events of its priority were injected later.
-/
def StrictFifo (system : Lts Ctx AtomicAction) : Prop :=
  ∀ (c c' : Ctx) (action : AtomicAction) (x : Event), system.Reachable c →
    system.next c action c' → c.log.attempts < UInt64.size → x ∈ c.log.injected →
    ¬ c.Executes x.id → c'.Executes x.id →
    ∀ y ∈ c.pending, y.id ≠ x.id → y.priority = x.priority → x.seq < y.seq

/-- Events of one priority are executed strictly in order of arrival. -/
theorem atomicRuns_strictFifo (role : Role) : StrictFifo (atomicRuns role) := by
  intro c c' action x reached step bound member notYet executes y pending other same
  obtain ⟨occupied, inSlot⟩ := executes.before_atomic (atomicRuns_move reached step)
  have waiting : c.Waiting := ⟨occupied, fun stage => notYet ⟨occupied, stage, inSlot⟩⟩
  have reached := atomicRuns_reachable reached
  have inTime : ∀ c action, Ctx.actsInOrder c action → c.actsInTime action :=
    fun _ _ met => met.1
  exact (runsWhen_ranked inTime reached).first (runsWhen_line inTime reached)
    (runsWhen_balanced inTime reached) (runsWhen_arrivals reached) bound waiting member
    inSlot pending other same

/-- Witness: the preempted MASTER enters stage EXEC while another one of its priority waits in
the heap, and that one was injected later.
-/
theorem reinstalledState_strictFifo
    : ∃ c' x y, reinstalledState.atomicStep (.sendAct 2) = some c' ∧ c'.Executes x.id
        ∧ x ∈ reinstalledState.log.injected ∧ y ∈ reinstalledState.pending
        ∧ x.id = 1 ∧ y.id = 3 ∧ x.priority = y.priority ∧ x.seq < y.seq := by
  let c' := Option.get (reinstalledState.atomicStep (.sendAct 2)) (by decide +kernel)
  let x := Option.get reinstalledState.log.injected.head? (by decide +kernel)
  let y := Option.get reinstalledState.q.waitHeap.events.head? (by decide +kernel)
  have step : (atomicRuns .a).next reinstalledState (.sendAct 2) c' :=
    ⟨by decide +kernel, (Option.some_get _).symm⟩
  have injected : x ∈ reinstalledState.log.injected := by decide +kernel
  have executes : c'.Executes x.id := by decide +kernel
  have pending : y ∈ reinstalledState.pending := by decide +kernel
  refine ⟨c', x, y, step.2, executes, injected, pending, by decide +kernel, by decide +kernel,
    by decide +kernel, ?_⟩
  exact atomicRuns_strictFifo .a reinstalledState c' (.sendAct 2) x reinstalledState_reachable
    step (by decide +kernel) injected (by decide +kernel) executes y pending (by decide +kernel)
    (by decide +kernel)

end QKeySys.Core
