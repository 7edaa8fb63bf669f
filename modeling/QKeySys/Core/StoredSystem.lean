import QKeySys.Core.AllRuns
import QKeySys.Core.StoredQueue

/-! The whole system on the queue with its memory: every step of a thread makes at most one call
on the queue, so that no interleaving runs into a fault of it or leaves a block behind.
-/

namespace QKeySys.Core

open QKeySys.Library

/-- The calls that a step of the scheduler makes. The conditions of its waits and its looks at
the slot read fields only.
-/
def SchedPc.queueCalls (ok : Bool) : SchedPc → List QueueCall
  | .peekForWait | .freePeekFifo | .busyPeekFifo _ => [.peekFifo]
  | .getGuard => [.getGuard]
  | .freePeekWait _ => [.peekWait]
  | .freePopReady | .popPreempting | .popBlocked => [.popReady]
  | .freePopWait => [.popWait]
  | .acceptAndClaim e => [.setExecSlot (Ctx.claimed e) .iwait true]
  | .onActStage => [.updateStage .exec]
  | .onActBlock => [.setBlocking true]
  | .handleEvent e => [.setExecSlot e .init false]
  | .clearSlot _ => [.clearExecSlot]
  | .pushPrev e | .parkBlocked e => [.pushWait e ok]
  | _ => []

/-- The calls that a step of a master-init thread makes. -/
def InitPc.queueCalls : InitPc → List QueueCall
  | .updateStage => [.updateStage .exec]
  | .setBlocking => [.setBlocking true]
  | _ => []

/-- The calls that a step of the dispatcher makes. -/
def DispatcherPc.queueCalls : DispatcherPc → List QueueCall
  | .notifyClear _ _ => [.clearExecSlot]
  | _ => []

namespace Ctx

/-- The event that `qks_inject_event` builds. -/
def arriving (c : Ctx) (type : EventType) (dir : EventDir) (payload : Nat) : Event where
  type := type
  dir := dir
  priority := priorityOf type
  stage := .pending
  payload := payload
  seq := 0
  id := c.log.attempts + 1

def queueCalls (c : Ctx) : Action → List QueueCall
  | .inject type dir payload mallocOk => [.pushReady (c.arriving type dir payload) mallocOk]
  | .sched ok => c.sched.queueCalls ok
  | .init k => (c.initThreads[k]?).elim [] (fun t => t.pc.queueCalls)
  | .dispatcher => c.exec.dispatcher.queueCalls
  | _ => []

end Ctx

/-- The queues differ in their condition variable at most. -/
structure Queue.Alike (q q' : Queue) : Prop where
  fifo : q'.fifo = q.fifo
  waitHeap : q'.waitHeap = q.waitHeap
  slot : q'.slot = q.slot
  seqCounter : q'.seqCounter = q.seqCounter

theorem Queue.Alike.refl (q : Queue) : q.Alike q := ⟨rfl, rfl, rfl, rfl⟩

theorem StoredQueue.Implements.congr {s : StoredQueue} {q q' : Queue} (same : s.Implements q)
    (alike : q.Alike q')
    : s.Implements q' where
  fifo := same.fifo.congr alike.fifo alike.seqCounter
  waitHeap := alike.waitHeap ▸ same.waitHeap
  slot := same.slot.trans alike.slot.symm

namespace Ctx

variable {c c' : Ctx}

theorem popReady_alike {e : Event} {q q' : Queue} (popped : q.popReady = some (e, q'))
    : (q.calls [.popReady]).2.Alike q' := by
  simp only [Queue.calls, Queue.call, popped]
  exact .refl q'

/-- The calls of a step of the scheduler lead to its queue, by cases on its program point. -/
theorem schedStep_queue {ok : Bool} (step : c.schedStep ok = some c')
    : (c.q.calls (c.sched.queueCalls ok)).2.Alike c'.q := by
  unfold schedStep at step
  cases pc : c.sched with
  | freePopReady | popPreempting =>
      simp only [pc] at step
      obtain ⟨⟨e, q⟩, popped, rfl⟩ := Option.map_eq_some_iff.mp step
      exact popReady_alike popped
  | popBlocked =>
      simp only [pc] at step
      obtain ⟨⟨e, q⟩, popped, rfl⟩ := Option.map_eq_some_iff.mp step
      cases e.dir <;> exact popReady_alike popped
  | freePopWait =>
      simp only [pc] at step
      obtain ⟨⟨e, q⟩, popped, rfl⟩ := Option.map_eq_some_iff.mp step
      simp only [SchedPc.queueCalls, Queue.calls, Queue.call, popped]
      exact .refl q
  | asleepNonempty | asleepForFifo | exited => simp [pc] at step
  | spawnJoin | killJoin =>
      simp only [pc] at step
      split at step
      case isTrue =>
        cases step
        exact ⟨rfl, rfl, rfl, rfl⟩
      case isFalse => cases step
  | waitNonempty | waitForFifo | peekForWait | busyPeekFifo | freePeekWait | spawnCheck
  | spawnCreate | killCurrent =>
      simp only [pc] at step
      split at step
      all_goals
        cases step
        exact ⟨rfl, rfl, rfl, rfl⟩
  | _ =>
      simp only [pc] at step
      cases step
      exact ⟨rfl, rfl, rfl, rfl⟩

/-- The calls of every step lead to its queue, by cases on the thread. -/
theorem step_queue {action : Action} (step : c.step action = some c')
    : (c.q.calls (c.queueCalls action)).2.Alike c'.q := by
  cases action with
  | inject type dir payload mallocOk =>
      cases step
      exact ⟨rfl, rfl, rfl, rfl⟩
  | sched ok => exact schedStep_queue step
  | schedReturn =>
      simp only [Ctx.step, schedReturn] at step
      split at step
      case h_3 => cases step
      all_goals
        cases step
        exact .refl c.q
  | init k =>
      simp only [Ctx.step, initStep] at step
      split at step
      case h_1 => cases step
      case h_2 t found =>
        have calls : c.queueCalls (.init k) = t.pc.queueCalls := by
          rw [queueCalls, found, Option.elim_some]
        rw [calls]
        cases pc : t.pc
        all_goals simp only [pc] at step
        case ackWait =>
          split_ifs at step
          all_goals
            cases step
            exact .refl c.q
        case finished | killed => cases step
        all_goals
          cases step
          exact ⟨rfl, rfl, rfl, rfl⟩
  | cancel k =>
      simp only [Ctx.step, cancelEffect] at step
      split at step
      case h_1 => cases step
      case h_2 =>
        split at step
        case isTrue =>
          cases step
          exact .refl c.q
        case isFalse => cases step
  | dispatcher =>
      obtain ⟨x, ran, rfl⟩ := Option.map_eq_some_iff.mp step
      simp only [queueCalls]
      cases pc : c.exec.dispatcher <;> exact ⟨rfl, rfl, rfl, rfl⟩
  | dispatcherReturn | worker i | workerReturn i =>
      obtain ⟨x, ran, rfl⟩ := Option.map_eq_some_iff.mp step
      exact .refl c.q
  | requestStop =>
      cases step
      exact .refl c.q

end Ctx

-----------------------------------------------------------------------------------------
-- Runs
-----------------------------------------------------------------------------------------

/-- All interleavings of all threads with stop requests at any time, on a queue with its memory.
A step makes its calls there, and is not taken where one of them faults.
-/
def storedRuns (role : Role) : Lts (Ctx × StoredQueue) Action where
  init s := s = (Ctx.init role, .init)
  next s action s' :=
    s.1.step action = some s'.1
    ∧ ∃ answers, s.2.calls (s.1.queueCalls action) = .ok (answers, s'.2)

/-- The stored queue has the contents of the queue that the threads see. -/
theorem storedRuns_implements (role : Role)
    : (storedRuns role).Invariant (fun s => s.2.Implements s.1.q) where
  init := by
    rintro _ rfl
    exact StoredQueue.init_implements
  step := by
    rintro ⟨c, s⟩ action ⟨c', s'⟩ same ⟨step, answers, called⟩
    obtain ⟨_, called', same'⟩ := same.calls (c.queueCalls action)
    obtain ⟨-, rfl⟩ := Prod.mk.inj (Except.ok.inj (called.symm.trans called'))
    exact same'.congr (Ctx.step_queue step)

/-- In every reachable state each step that the system can take makes calls that run into no
fault and answer as its queue does, and the slot, which threads also read without a call, is
that of its queue. The live blocks are one for each event of the FIFO and the array of the wait
heap, and destroying the queue would release them all.
-/
def NeverFaults (system : Lts (Ctx × StoredQueue) Action) : Prop :=
  ∀ c s, system.Reachable (c, s) →
    (∀ action c', c.step action = some c' →
      ∃ s', s.calls (c.queueCalls action) = .ok ((c.q.calls (c.queueCalls action)).1, s')
        ∧ system.next (c, s) action (c', s'))
    ∧ s.slot = c.q.slot
    ∧ s.fifo.nodes.mem.liveBlocks = c.q.fifo.length
    ∧ s.waitHeap.mem.liveBlocks = (if c.q.waitHeap.cap = 0 then 0 else 1)
    ∧ ∃ s', s.destroy = .ok s' ∧ s'.fifo.nodes.mem.liveBlocks = 0
        ∧ s'.waitHeap.mem.liveBlocks = 0

/-- No interleaving runs into a fault of the queue, also when init threads act late, when
allocations fail and after a stop.
-/
theorem storedRuns_neverFault (role : Role) : NeverFaults (storedRuns role) := by
  intro c s reached
  have same : s.Implements c.q := (storedRuns_implements role).reachable reached
  refine ⟨fun action c' step => ?_, same.slot, same.fifo_blocks, same.heap_blocks,
    same.destroy⟩
  obtain ⟨s', called, -⟩ := same.calls (c.queueCalls action)
  exact ⟨s', called, step, _, called⟩

end QKeySys.Core
