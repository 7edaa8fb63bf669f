import QKeySys.Core.WaitHeap

/-! The queue: the FIFO of new events, the wait heap, the execution slot and its guard.
Each definition is one critical section on the queue mutex.
-/

namespace QKeySys.Core

/-- The queue without its mutex. The FIFO lists the nodes from `fifo_head` on, and
`execEvent` keeps its value when the slot is cleared.
-/
structure Queue where
  fifo : List Event
  waitHeap : WaitHeap
  hasExec : Bool
  execEvent : Event
  hardBlocking : Bool
  guardPriority : Int
  seqCounter : UInt64
  cv : Cond

namespace Queue

def init : Queue where
  fifo := []
  waitHeap := .empty
  hasExec := false
  execEvent := .zero
  hardBlocking := false
  guardPriority := 0
  seqCounter := 0
  cv := .init

-----------------------------------------------------------------------------------------
-- FIFO
-----------------------------------------------------------------------------------------

/-- The event as it is stored: one without a sequence number takes the next value of the
counter.
-/
def numbered (q : Queue) (e : Event) : Event :=
  if e.seq = 0 then { e with seq := q.seqCounter + 1 } else e

/-- The counter after `numbered`. -/
def counted (q : Queue) (e : Event) : UInt64 :=
  if e.seq = 0 then q.seqCounter + 1 else q.seqCounter

/-- Appends the event and signals the scheduler. The counter has advanced when the node
cannot be allocated.
-/
def pushReady (q : Queue) (e : Event) (mallocOk : Bool) : Int × Queue :=
  if mallocOk then
    (0, {
      q with
      fifo := q.fifo ++ [q.numbered e]
      seqCounter := q.counted e
      cv := q.cv.signal
    })
  else
    (-1, { q with seqCounter := q.counted e })

def peekFifo (q : Queue) : Option Event := q.fifo.head?

def popReady (q : Queue) : Option (Event × Queue) :=
  match q.fifo with
  | [] => none
  | e :: rest => some (e, { q with fifo := rest })

-----------------------------------------------------------------------------------------
-- Wait heap
-----------------------------------------------------------------------------------------

/-- Stores the event with its own priority and number. The result of the heap operation is
dropped: the call reports success when the heap could not grow, too.
-/
def pushWait (q : Queue) (e : Event) (reallocOk : Bool) : Int × Queue :=
  (0, { q with waitHeap := (q.waitHeap.heapPush e reallocOk).2 })

def peekWait (q : Queue) : Option Event := q.waitHeap.heapPeek

def popWait (q : Queue) : Option (Event × Queue) :=
  q.waitHeap.heapPop.map (fun (e, rest) => (e, { q with waitHeap := rest }))

-----------------------------------------------------------------------------------------
-- Execution slot and guard
-----------------------------------------------------------------------------------------

def setExecSlot (q : Queue) (e : Event) (stage : Stage) (hardBlock : Bool) : Queue :=
  { q with
    execEvent := { e with stage := stage }
    hasExec := true
    hardBlocking := hardBlock
    guardPriority := e.priority }

def clearExecSlot (q : Queue) : Queue :=
  { q with hasExec := false, hardBlocking := false, guardPriority := 0 }

def setBlocking (q : Queue) (hardBlock : Bool) : Queue :=
  { q with hardBlocking := hardBlock }

/-- Only an occupied slot changes its stage. -/
def updateStage (q : Queue) (stage : Stage) : Queue :=
  if q.hasExec then { q with execEvent := { q.execEvent with stage := stage } } else q

/-- The hard block and the guard priority, read together. -/
def getGuard (q : Queue) : Bool × Int := (q.hardBlocking, q.guardPriority)

-----------------------------------------------------------------------------------------
-- Waiting
-----------------------------------------------------------------------------------------

/-- The loop condition of `qks_queue_wait_nonempty`. -/
def nonemptySleeps (q : Queue) (stop : Bool) : Bool :=
  !stop && q.fifo.isEmpty && q.waitHeap.size == 0

/-- The loop condition of `qks_queue_wait_for_fifo`, which ignores the heap. -/
def fifoSleeps (q : Queue) (stop : Bool) : Bool := !stop && q.fifo.isEmpty

def sleep (q : Queue) : Queue := { q with cv := q.cv.wait }

def wake (q : Queue) : Queue := { q with cv := q.cv.broadcast }

-----------------------------------------------------------------------------------------
-- What each operation does to the other fields
-----------------------------------------------------------------------------------------

section Fields

variable (q : Queue) (e : Event) (stage : Stage) (flag : Bool)

@[simp]
theorem setExecSlot_fifo : (q.setExecSlot e stage flag).fifo = q.fifo := rfl

@[simp]
theorem setExecSlot_waitHeap : (q.setExecSlot e stage flag).waitHeap = q.waitHeap := rfl

@[simp]
theorem setExecSlot_hasExec : (q.setExecSlot e stage flag).hasExec = true := rfl

@[simp]
theorem setExecSlot_execEvent
    : (q.setExecSlot e stage flag).execEvent = { e with stage := stage } := rfl

@[simp]
theorem setExecSlot_hardBlocking : (q.setExecSlot e stage flag).hardBlocking = flag := rfl

@[simp]
theorem setExecSlot_guardPriority
    : (q.setExecSlot e stage flag).guardPriority = e.priority := rfl

@[simp]
theorem setExecSlot_seqCounter
    : (q.setExecSlot e stage flag).seqCounter = q.seqCounter := rfl

@[simp]
theorem clearExecSlot_fifo : (q.clearExecSlot).fifo = q.fifo := rfl

@[simp]
theorem clearExecSlot_waitHeap : (q.clearExecSlot).waitHeap = q.waitHeap := rfl

@[simp]
theorem clearExecSlot_hasExec : (q.clearExecSlot).hasExec = false := rfl

@[simp]
theorem clearExecSlot_execEvent : (q.clearExecSlot).execEvent = q.execEvent := rfl

@[simp]
theorem clearExecSlot_hardBlocking : (q.clearExecSlot).hardBlocking = false := rfl

@[simp]
theorem clearExecSlot_guardPriority : (q.clearExecSlot).guardPriority = 0 := rfl

@[simp]
theorem clearExecSlot_seqCounter : (q.clearExecSlot).seqCounter = q.seqCounter := rfl

@[simp]
theorem setBlocking_fifo : (q.setBlocking flag).fifo = q.fifo := rfl

@[simp]
theorem setBlocking_waitHeap : (q.setBlocking flag).waitHeap = q.waitHeap := rfl

@[simp]
theorem setBlocking_hasExec : (q.setBlocking flag).hasExec = q.hasExec := rfl

@[simp]
theorem setBlocking_execEvent : (q.setBlocking flag).execEvent = q.execEvent := rfl

@[simp]
theorem setBlocking_hardBlocking : (q.setBlocking flag).hardBlocking = flag := rfl

@[simp]
theorem setBlocking_guardPriority
    : (q.setBlocking flag).guardPriority = q.guardPriority := rfl

@[simp]
theorem setBlocking_seqCounter : (q.setBlocking flag).seqCounter = q.seqCounter := rfl

@[simp]
theorem updateStage_fifo : (q.updateStage stage).fifo = q.fifo := by
  unfold updateStage; split <;> rfl

@[simp]
theorem updateStage_waitHeap : (q.updateStage stage).waitHeap = q.waitHeap := by
  unfold updateStage; split <;> rfl

@[simp]
theorem updateStage_hasExec : (q.updateStage stage).hasExec = q.hasExec := by
  unfold updateStage; split <;> rfl

@[simp]
theorem updateStage_hardBlocking : (q.updateStage stage).hardBlocking = q.hardBlocking := by
  unfold updateStage; split <;> rfl

@[simp]
theorem updateStage_guardPriority : (q.updateStage stage).guardPriority = q.guardPriority := by
  unfold updateStage; split <;> rfl

@[simp]
theorem updateStage_seqCounter : (q.updateStage stage).seqCounter = q.seqCounter := by
  unfold updateStage; split <;> rfl

/-- The event in the slot keeps everything but its stage. -/
theorem updateStage_execEvent
    : (q.updateStage stage).execEvent
      = if q.hasExec then { q.execEvent with stage := stage } else q.execEvent := by
  unfold updateStage; split <;> rfl

@[simp]
theorem updateStage_execEvent_id
    : (q.updateStage stage).execEvent.id = q.execEvent.id := by
  unfold updateStage; split <;> rfl

@[simp]
theorem updateStage_execEvent_dir
    : (q.updateStage stage).execEvent.dir = q.execEvent.dir := by
  unfold updateStage; split <;> rfl

@[simp]
theorem updateStage_execEvent_type
    : (q.updateStage stage).execEvent.type = q.execEvent.type := by
  unfold updateStage; split <;> rfl

@[simp]
theorem updateStage_execEvent_priority
    : (q.updateStage stage).execEvent.priority = q.execEvent.priority := by
  unfold updateStage; split <;> rfl

@[simp]
theorem sleep_seqCounter : (q.sleep).seqCounter = q.seqCounter := rfl

@[simp]
theorem wake_seqCounter : (q.wake).seqCounter = q.seqCounter := rfl

end Fields

end Queue

end QKeySys.Core
