import QKeySys.Core.Handshake
import QKeySys.Core.Moves

/-! Waiting for events: a completion reaches the scheduler in one of two waits, and only one
of them looks at the wait heap.
-/

namespace QKeySys.Core

open QKeySys.Library

/-- The scheduler saw an occupied slot and is on its way into `qks_queue_wait_for_fifo` or
inside it.
-/
def SchedPc.fifoWaiting : SchedPc → Bool
  | .peekForWait | .waitForFifo | .asleepForFifo => true
  | _ => false

@[simp]
theorem dispose_fifoWaiting (e : Event) : (Ctx.dispose e).fifoWaiting = false := by
  cases dir : e.dir <;> simp [Ctx.dispose, dir, SchedPc.fifoWaiting]

namespace Ctx

/-- The slot is free and an event is pending, yet the scheduler sleeps on a condition that
tells it to sleep and no other thread has anything left to do.
-/
structure LeftAsleep (c : Ctx) : Prop where
  free : c.q.hasExec = false
  pending : c.q.fifo ≠ [] ∨ c.q.waitHeap.events ≠ []
  initThreads : ∀ t ∈ c.initThreads, t.pc.ended = true
  others : c.exec.AllAsleep
  asleep
    : (c.sched = .asleepNonempty ∧ c.q.nonemptySleeps c.stop = true)
      ∨ (c.sched = .asleepForFifo ∧ c.q.fifoSleeps c.stop = true)

/-- The threads that have ended are exactly those without a next step. -/
theorem initThreads_ended_iff {c : Ctx}
    : (∀ t ∈ c.initThreads, t.pc.ended = true) ↔ ∀ k, c.initStep k = none := by
  constructor
  · intro ended k
    unfold initStep
    cases found : c.initThreads[k]? with
    | none => rfl
    | some t =>
        have last := ended t (List.mem_of_getElem? found)
        cases pc : t.pc <;> simp [pc, InitPc.ended] at last ⊢
  · intro quiet t member
    obtain ⟨k, found⟩ := List.mem_iff_getElem?.mp member
    have last := quiet k
    unfold initStep at last
    cases pc : t.pc with
    | finished => rfl
    | killed => rfl
    | ackWait elapsed =>
        simp only [found, pc] at last
        split at last
        · split at last <;> cases last
        · cases last
    | _ => simp [found, pc] at last

/-- A completion that clears the slot while the scheduler waits for the FIFO finds the FIFO
filled or the wait heap empty.
-/
def completionSeen (c : Ctx) : Action → Prop
  | .dispatcher =>
      (∃ t ids, c.exec.dispatcher = .notifyClear t ids) → c.sched.fifoWaiting = true →
        c.q.fifo ≠ [] ∨ c.q.waitHeap.events = []
  | _ => True

/-- While the scheduler waits for the FIFO beside a free slot, no event is only in the wait
heap.
-/
def WaitsRightly (c : Ctx) : Prop :=
  c.sched.fifoWaiting = true → c.q.hasExec = false →
    c.q.fifo ≠ [] ∨ c.q.waitHeap.events = []

/-- The scheduler's own moves keep the wait right, since it starts waiting only beside an
occupied slot.
-/
theorem WaitsRightly.sched {c c' : Ctx} {ok : Bool} (now : c.WaitsRightly)
    (move : SchedMove c ok c')
    : c'.WaitsRightly := by
  cases move with
  | silent next move =>
      cases move with
      | seesBusy pc busy => simp [WaitsRightly, busy]
      | fifoEmpty pc empty => exact fun _ => now (by simp [pc, SchedPc.fifoWaiting])
      | _ => simp [WaitsRightly, SchedPc.fifoWaiting]
  | sleepForFifo pc sleeps => exact fun _ => now (by simp [pc, SchedPc.fifoWaiting])
  | popReady e rest pc head => simp [WaitsRightly]
  | popWait e heap pc popped => simp [WaitsRightly]
  | install e pc =>
      intro waiting
      cases dir : e.dir <;> simp [dir, SchedPc.fifoWaiting] at waiting
  | _ => simp [WaitsRightly, SchedPc.fifoWaiting]

/-- Every move that meets the condition keeps the wait right, by cases on the move. -/
theorem WaitsRightly.move {c c' : Ctx} {action : Action} (now : c.WaitsRightly)
    (seen : c.completionSeen action) (move : Move c action c')
    : c'.WaitsRightly := by
  cases move with
  | arrive => simp [WaitsRightly]
  | sched ok c' move => exact now.sched move
  | wakeNonempty pc => simp [WaitsRightly, SchedPc.fifoWaiting]
  | wakeForFifo pc => exact fun _ => now (by simp [pc, SchedPc.fifoWaiting])
  | init k t found c' move =>
      cases move <;> simpa [WaitsRightly] using now
  | dispatch c' move =>
      cases move with
      | inside => exact now
      | clear t ids pc => exact fun waiting _ => seen ⟨t, ids, pc⟩ waiting
      | wake pc => exact now
  | _ => exact now

/-- A scheduler that waits rightly is not left asleep. -/
theorem WaitsRightly.not_leftAsleep {c : Ctx} (now : c.WaitsRightly) : ¬ c.LeftAsleep := by
  rintro ⟨free, pending, -, -, asleep⟩
  rcases asleep with ⟨pc, sleeps⟩ | ⟨pc, sleeps⟩
  · simp only [Queue.nonemptySleeps, WaitHeap.size_eq, Bool.and_eq_true, beq_iff_eq,
      List.isEmpty_iff, List.length_eq_zero_iff] at sleeps
    exact pending.elim (· sleeps.1.2) (· sleeps.2)
  · simp only [Queue.fifoSleeps, Bool.and_eq_true, List.isEmpty_iff] at sleeps
    have heap := (now (by simp [pc, SchedPc.fifoWaiting]) free).resolve_left (· sleeps.2)
    exact pending.elim (· sleeps.2) (· heap)

end Ctx

/-- No reachable state leaves a pending event asleep. -/
def NoneLeftAsleep (system : Lts Ctx Action) : Prop :=
  ∀ c, system.Reachable c → ¬ c.LeftAsleep

/-- When every completion reaches the scheduler, no pending event is left asleep. -/
theorem completionSeen_noneLeftAsleep (role : Role)
    : NoneLeftAsleep (runsWhen role Ctx.completionSeen) := by
  intro c reached
  refine Ctx.WaitsRightly.not_leftAsleep
    (runsWhen_induct Ctx.WaitsRightly ?_ ?_ reached)
  · simp [Ctx.WaitsRightly, Ctx.init, SchedPc.fifoWaiting]
  · intro c action c' _ now seen move
    exact now.move seen move

/-- The labels of a run on which a second MASTER is parked behind the first one, which
completes after the scheduler went to wait for the FIFO.
-/
def parkedRun : List Action :=
  [.inject .keyRefill .master 0 true, .inject .keyRefill .master 0 true]
    ++ List.replicate 28 (.sched true)
    ++ List.replicate 16 (.init 0)
    ++ [.dispatcher, .dispatcher]
    ++ List.replicate 2 (.worker (workerIndex .keyRefill .a))
    ++ List.replicate 4 .dispatcher
    ++ (List.finRange 6).map .worker
    ++ [.schedReturn, .sched true]

/-- A completion can leave a parked MASTER asleep, on the run `parkedRun`. -/
theorem parked_leftAsleep : ¬ ∀ role, NoneLeftAsleep (runs role) := by
  intro always
  have reached := runs_reachable .a parkedRun (by decide +kernel)
  refine always .a _ reached ⟨?_, ?_, ?_, ⟨.inl ⟨?_, ?_⟩, ?_⟩, .inr ⟨?_, ?_⟩⟩ <;>
    decide +kernel

end QKeySys.Core
