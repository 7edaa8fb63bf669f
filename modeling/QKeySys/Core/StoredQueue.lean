import QKeySys.Core.Fifo
import QKeySys.Library.OwnedList
import QKeySys.Library.StoredHeap

/-! The queue with the memory it is made of: the nodes of the FIFO and the array of the wait
heap. Calls in any order run into no fault and answer as the queue of the other modules does,
and destroying it releases every block.
-/

namespace QKeySys.Core

open QKeySys.Library

-----------------------------------------------------------------------------------------
-- Wait heap
-----------------------------------------------------------------------------------------

/-- `wait_heap`, `wait_size` and `wait_cap` with the array behind the pointer. -/
structure StoredWaitHeap where
  mem : BlockMemory Event
  data : Pointer
  size : Nat
  cap : Nat

namespace StoredWaitHeap

def empty : StoredWaitHeap := ⟨.empty, none, 0, 0⟩

/-- The capacity that a full array grows to. -/
def nextCap (heap : StoredWaitHeap) : Nat := if heap.cap ≠ 0 then heap.cap * 2 else 16

/-- Writes the event behind the last entry and sifts it up; only then the size counts it. -/
def store (heap : StoredWaitHeap) (e : Event) : Except Fault (Int × StoredWaitHeap) :=
  (heap.mem.store heap.data heap.size e).bind (fun mem =>
    (StoredHeap.siftUpAt Event.before mem heap.data heap.size).map (fun mem =>
      (0, { heap with mem := mem, size := heap.size + 1 })))

/-- A full array grows first. -/
def heapPush (heap : StoredWaitHeap) (e : Event) (reallocOk : Bool)
    : Except Fault (Int × StoredWaitHeap) :=
  if heap.size + 1 > heap.cap then
    (heap.mem.realloc heap.data heap.nextCap reallocOk).bind (fun (mem, nh) =>
      match nh with
      | none => .ok (-1, { heap with mem := mem })
      | some _ => ({ heap with mem := mem, data := nh, cap := heap.nextCap }).store e)
  else
    heap.store e

def heapPeek (heap : StoredWaitHeap) : Except Fault (Option Event) :=
  if heap.size ≤ 0 then .ok none else (heap.mem.load heap.data 0).map some

/-- Reads the root, and sinks the last entry from its place if there is another one. -/
def heapPop (heap : StoredWaitHeap) : Except Fault (Option (Event × StoredWaitHeap)) :=
  if heap.size ≤ 0 then .ok none
  else
    (heap.mem.load heap.data 0).bind (fun root =>
      if heap.size - 1 > 0 then
        (heap.mem.load heap.data (heap.size - 1 : Nat)).bind (fun last =>
          (heap.mem.store heap.data 0 last).bind (fun mem =>
            (StoredHeap.siftDownAt Event.before mem heap.data (heap.size - 1) 0).map (fun mem =>
              some (root, { heap with mem := mem, size := heap.size - 1 }))))
      else
        .ok (some (root, { heap with size := heap.size - 1 })))

/-- Frees the array if there is one; size and capacity keep their values. -/
def free (heap : StoredWaitHeap) : Except Fault StoredWaitHeap :=
  match heap.data with
  | none => .ok heap
  | some _ => (heap.mem.free heap.data).map (fun mem => { heap with mem := mem, data := none })

/-- The array has the entries of a wait heap, and is the only block. -/
structure Implements (s : StoredWaitHeap) (heap : WaitHeap) : Prop where
  size : s.size = heap.size
  cap : s.cap = heap.cap
  block : s.data = none ∧ s.cap = 0
    ∨ s.cap ≠ 0 ∧ StoredHeap.Stores s.mem s.data heap.entries s.cap
  owned : s.mem.Owned [s.data]

variable {s : StoredWaitHeap} {heap : WaitHeap}

theorem empty_implements : empty.Implements .empty where
  size := rfl
  cap := rfl
  block := .inl ⟨rfl, rfl⟩
  owned := BlockMemory.empty_owned _

/-- A write behind the last entry and the sift from there, in an array with room. -/
theorem store_implements (size : s.size = heap.size) (room : heap.size + 1 ≤ s.cap)
    (stored : StoredHeap.Stores s.mem s.data heap.entries s.cap) (owned : s.mem.Owned [s.data])
    (e : Event)
    : ∃ s', s.store e = .ok (0, s') ∧ s'.Implements (heap.store e s.cap room) := by
  have count : s.size = heap.entries.size := size
  obtain ⟨mem, written, handed, pushed⟩ := stored.store (i := heap.entries.size) room e
  have longer : StoredHeap.Stores mem s.data (heap.entries.push e) s.cap := by
    apply pushed
    intro k y found
    rw [Array.getElem?_push] at found
    split at found
    case isTrue last =>
      rw [if_pos last]
      exact (Option.some.inj found).symm
    case isFalse other => rwa [if_neg other]
  have grown : (heap.entries.push e).size ≤ s.cap := by
    rw [Array.size_push]
    exact room
  have last : heap.entries.size < (heap.entries.push e).size := by simp
  obtain ⟨mem', sifted, handed', final⟩ := longer.siftUpAt Event.before grown last
  refine ⟨{ s with mem := mem', size := s.size + 1 }, ?_, ?_, rfl, .inr ⟨?_, final⟩,
    (handed.trans handed').owned [] owned⟩
  · rw [store, count, bind_ok written, sifted]
    rfl
  · have length := (heap.store_events e s.cap room).length_eq
    rw [← WaitHeap.size_eq, List.length_cons, ← WaitHeap.size_eq] at length
    exact length ▸ congrArg (· + 1) size
  · exact Nat.ne_of_gt (Nat.lt_of_lt_of_le (Nat.succ_pos _) room)

/-- A granted array is as large as the next capacity and has the same entries. -/
theorem Implements.realloc_granted (same : s.Implements heap)
    : ∃ mem, s.mem.realloc s.data heap.nextCap true = .ok (mem, some s.mem.next)
        ∧ StoredHeap.Stores mem (some s.mem.next) heap.entries heap.nextCap
        ∧ mem.Owned [some s.mem.next] := by
  have positive : heap.nextCap ≠ 0 :=
    Nat.ne_of_gt (Nat.lt_of_lt_of_le (Nat.succ_pos _) heap.nextCap_room)
  have fits : heap.entries.size ≤ s.cap := same.cap ▸ heap.fits
  have grown : ∃ mem, s.mem.realloc s.data heap.nextCap true = .ok (mem, some s.mem.next)
      ∧ StoredHeap.Stores mem (some s.mem.next) heap.entries heap.nextCap := by
    rcases same.block with ⟨null, none_left⟩ | ⟨some_cap, stored⟩
    · have nothing : heap.entries = #[] := by
        rw [none_left] at fits
        exact Array.eq_empty_of_size_eq_zero (Nat.le_zero.mp fits)
      rw [null, nothing]
      exact StoredHeap.stores_alloc s.mem positive
    · refine stored.grow fits positive ?_
      rw [same.cap] at some_cap ⊢
      rw [WaitHeap.nextCap, if_pos some_cap]
      omega
  obtain ⟨mem, moved, stored⟩ := grown
  exact ⟨mem, moved, stored, (BlockMemory.handed_realloc moved).owned [] same.owned⟩

/-- A refused array stays as it is. -/
theorem Implements.realloc_refused (same : s.Implements heap)
    : s.mem.realloc s.data heap.nextCap false = .ok (s.mem, none) := by
  have positive : heap.nextCap ≠ 0 :=
    Nat.ne_of_gt (Nat.lt_of_lt_of_le (Nat.succ_pos _) heap.nextCap_room)
  rcases same.block with ⟨null, -⟩ | ⟨-, a, cells, data, live, -, -⟩
  · rw [null]
    simp [BlockMemory.realloc]
  · rw [data]
    exact BlockMemory.realloc_refused live positive

/-- A push does what it does to the wait heap, by cases on the room and on the allocation. -/
theorem heapPush_implements (same : s.Implements heap) (e : Event) (reallocOk : Bool)
    : ∃ s', s.heapPush e reallocOk = .ok ((heap.heapPush e reallocOk).1, s')
        ∧ s'.Implements (heap.heapPush e reallocOk).2 := by
  have next : s.nextCap = heap.nextCap := by rw [nextCap, same.cap, WaitHeap.nextCap]
  unfold heapPush WaitHeap.heapPush
  split
  case isTrue full =>
    rw [dif_pos (same.cap ▸ same.size ▸ full), next]
    cases reallocOk with
    | false =>
        rw [bind_ok same.realloc_refused]
        exact ⟨s, rfl, same⟩
    | true =>
        obtain ⟨mem, moved, stored, owned⟩ := same.realloc_granted
        rw [bind_ok moved]
        exact @store_implements ⟨mem, some s.mem.next, s.size, heap.nextCap⟩ heap same.size
          heap.nextCap_room stored owned e
  case isFalse room =>
    have enough : heap.size + 1 ≤ s.cap := same.size ▸ Nat.not_lt.mp room
    rw [dif_neg (same.cap ▸ Nat.not_lt.mpr enough)]
    rcases same.block with ⟨-, none_left⟩ | ⟨-, stored⟩
    · omega
    · obtain ⟨s', pushed, same'⟩ := store_implements same.size enough stored same.owned e
      simp only [same.cap] at same'
      exact ⟨s', pushed, same'⟩

/-- A heap with entries has them in its block. -/
theorem Implements.stored (same : s.Implements heap) (some_entry : 0 < heap.entries.size)
    : StoredHeap.Stores s.mem s.data heap.entries s.cap := by
  rcases same.block with ⟨-, none_left⟩ | ⟨-, stored⟩
  · have fits := heap.fits
    rw [← same.cap, none_left] at fits
    omega
  · exact stored

theorem heapPeek_implements (same : s.Implements heap) : s.heapPeek = .ok heap.heapPeek := by
  have count : s.size = heap.entries.size := same.size
  unfold heapPeek WaitHeap.heapPeek
  rw [count]
  split
  case isTrue nothing => rw [Array.getElem?_eq_none nothing]
  case isFalse something =>
    have inside := Nat.not_le.mp something
    have root := Array.getElem?_eq_getElem inside
    have read := (same.stored inside).load root
    rw [root]
    exact congrArg (Except.map some) read

/-- The last of several entries takes the place of the root and sinks. -/
theorem Implements.sink (same : s.Implements heap) (several : 0 < heap.entries.size - 1)
    : ∃ last mem mem', s.mem.load s.data (heap.entries.size - 1 : Nat) = .ok last
        ∧ s.mem.store s.data 0 last = .ok mem
        ∧ StoredHeap.siftDownAt Event.before mem s.data (heap.entries.size - 1) 0 = .ok mem'
        ∧ StoredHeap.Stores mem' s.data heap.withoutRoot s.cap ∧ mem'.Owned [s.data] := by
  have fits : heap.entries.size ≤ s.cap := same.cap ▸ heap.fits
  have stored := same.stored (by omega)
  have inside : heap.entries.size - 1 < heap.entries.size := by omega
  have found : heap.entries.back? = some heap.entries[heap.entries.size - 1] := by
    rw [Array.back?, Array.getElem?_eq_getElem inside]
  have read := stored.load (Array.getElem?_eq_getElem inside)
  obtain ⟨mem, written, handed, kept⟩ :=
    stored.store (i := 0) (by omega) heap.entries[heap.entries.size - 1]
  obtain ⟨rooted, shape⟩ : ∃ rooted,
      rooted = heap.entries.pop.setIfInBounds 0 heap.entries[heap.entries.size - 1] := ⟨_, rfl⟩
  have moved : StoredHeap.Stores mem s.data rooted s.cap := by
    apply kept
    intro k y there
    rw [shape, Array.getElem?_setIfInBounds] at there
    split at there
    case isTrue root =>
      rw [if_pos root.symm]
      split at there
      case isTrue => exact (Option.some.inj there).symm
      case isFalse => cases there
    case isFalse other =>
      rw [if_neg (Ne.symm other)]
      rw [Array.getElem?_pop] at there
      split at there
      case isTrue => exact there
      case isFalse => cases there
  have count : rooted.size = heap.entries.size - 1 := by
    rw [shape, Array.size_setIfInBounds, Array.size_pop]
  have root : 0 < rooted.size := count ▸ several
  obtain ⟨mem', sifted, handed', final⟩ := moved.siftDownAt Event.before (by omega) root
  rw [count] at sifted
  refine ⟨_, mem, mem', read, written, sifted, ?_, (handed.trans handed').owned [] same.owned⟩
  rw [WaitHeap.withoutRoot, found]
  simp only [Array.size_pop, if_pos several, ← shape]
  exact final

/-- What a pop of a wait heap with a root gives. -/
theorem heapPop_root {root : Event} (entry : heap.entries[0]? = some root)
    : ∃ rest, heap.heapPop = some (root, rest)
        ∧ rest.entries = heap.withoutRoot ∧ rest.cap = heap.cap := by
  unfold WaitHeap.heapPop
  split
  case h_1 nothing => cases entry.symm.trans nothing
  case h_2 found =>
    obtain rfl := Option.some.inj (entry.symm.trans found)
    exact ⟨_, rfl, rfl, rfl⟩

/-- A pop gives the same root and leaves the same entries, by cases on their number. -/
theorem heapPop_implements (same : s.Implements heap)
    : (s.heapPop = .ok none ∧ heap.heapPop = none)
      ∨ ∃ root s' rest, s.heapPop = .ok (some (root, s')) ∧ heap.heapPop = some (root, rest)
          ∧ s'.Implements rest := by
  have count : s.size = heap.entries.size := same.size
  cases entry : heap.entries[0]? with
  | none =>
      have nothing := Array.getElem?_eq_none_iff.mp entry
      left
      rw [StoredWaitHeap.heapPop, if_pos (count ▸ nothing), WaitHeap.heapPop]
      refine ⟨rfl, ?_⟩
      split
      case h_1 => rfl
      case h_2 found => cases entry.symm.trans found
  | some root =>
      have inside := (Array.getElem?_eq_some_iff.mp entry).1
      have stored := same.stored inside
      obtain ⟨rest, popped, left, cap⟩ := heapPop_root entry
      have length := (heap.heapPop_events popped).length_eq
      rw [← WaitHeap.size_eq, List.length_cons, ← WaitHeap.size_eq] at length
      have fewer : s.size - 1 = rest.size := by
        rw [same.size, length]
        rfl
      have some_cap : s.cap ≠ 0 :=
        Nat.ne_of_gt (Nat.lt_of_lt_of_le inside (same.cap ▸ heap.fits))
      have top : s.mem.load s.data 0 = .ok root := stored.load entry
      refine .inr ⟨root, ?_⟩
      rw [StoredWaitHeap.heapPop, if_neg (by omega), bind_ok top]
      split
      case isTrue several =>
        rw [count] at several ⊢
        obtain ⟨last, mem, mem', read, written, sifted, final, owned⟩ := same.sink several
        rw [bind_ok read, bind_ok written, sifted]
        exact ⟨_, rest, rfl, popped, count ▸ fewer, same.cap.trans cap.symm,
          .inr ⟨some_cap, left ▸ final⟩, owned⟩
      case isFalse alone =>
        have kept : StoredHeap.Stores s.mem s.data rest.entries s.cap := by
          apply stored.fewer
          intro i x found
          have small := (Array.getElem?_eq_some_iff.mp found).1
          change _ = rest.entries.size at fewer
          omega
        exact ⟨_, rest, rfl, popped, fewer, same.cap.trans cap.symm,
          .inr ⟨some_cap, kept⟩, same.owned⟩

theorem free_implements (same : s.Implements heap)
    : ∃ s', s.free = .ok s' ∧ s'.mem.Owned [] ∧ s'.data = none ∧ s'.size = s.size := by
  unfold StoredWaitHeap.free
  rcases same.block with ⟨null, -⟩ | ⟨-, a, cells, data, live, -, -⟩
  · have owned := same.owned
    rw [null] at owned ⊢
    exact ⟨s, rfl, BlockMemory.owned_none_cons.mp owned, null, rfl⟩
  · have freed : s.mem.free s.data = .ok (s.mem.update a none) := by
      rw [data]
      exact BlockMemory.free_live live
    have owned := (BlockMemory.handed_free freed).owned [] same.owned
    rw [freed, data]
    exact ⟨_, rfl, BlockMemory.owned_none_cons.mp owned, rfl, rfl⟩

end StoredWaitHeap

-----------------------------------------------------------------------------------------
-- FIFO
-----------------------------------------------------------------------------------------

namespace LinkedFifo

/-- The FIFO of a queue, whose nodes are the only blocks. -/
structure Sole (l : LinkedFifo) (q : Queue) : Prop where
  owns : ∃ nodes, l.nodes.Owns nodes ∧ nodes.map Prod.snd = q.fifo
  counter : l.seqCounter = q.seqCounter

variable {l : LinkedFifo} {q : Queue}

/-- The nodes of a queue with the same FIFO and counter. -/
theorem Sole.congr {q' : Queue} (sole : l.Sole q) (fifo : q'.fifo = q.fifo)
    (counter : q'.seqCounter = q.seqCounter)
    : l.Sole q' :=
  ⟨fifo ▸ sole.owns, sole.counter.trans counter.symm⟩

theorem init_sole : init.Sole .init := ⟨⟨[], LinkedList.empty_owns, rfl⟩, rfl⟩

theorem Sole.implements (sole : l.Sole q) : l.Implements q := by
  obtain ⟨nodes, owns, events⟩ := sole.owns
  exact ⟨⟨nodes, owns.toHolds, events⟩, sole.counter⟩

/-- A push adds the block of one node, or none if there is no memory for it. -/
theorem Sole.pushReady (sole : l.Sole q) (e : Event) (mallocOk : Bool)
    : ∃ l', l.pushReady e mallocOk = .ok ((q.pushReady e mallocOk).1, l')
        ∧ l'.Sole (q.pushReady e mallocOk).2 := by
  obtain ⟨nodes, owns, events⟩ := sole.owns
  have counted : l.counted e = q.counted e := by rw [LinkedFifo.counted, sole.counter]; rfl
  cases mallocOk with
  | false => exact ⟨⟨l.nodes, l.counted e⟩, rfl, ⟨nodes, owns, events⟩, counted⟩
  | true =>
      have numbered : l.numbered e = q.numbered e := by
        rw [LinkedFifo.numbered, counted, Queue.numbered, Queue.counted]
        split <;> rfl
      obtain ⟨list, a, pushed, owns'⟩ := owns.pushBack (q.numbered e)
      refine ⟨⟨list, l.counted e⟩, ?_, ⟨_, owns', ?_⟩, counted⟩
      · rw [LinkedFifo.pushReady, numbered, pushed]
        rfl
      · rw [List.map_append, events]
        rfl

/-- The head is null when there is no event. -/
theorem Sole.head_none (sole : l.Sole q) : (l.nodes.head == none) = q.fifo.isEmpty := by
  obtain ⟨nodes, owns, events⟩ := sole.owns
  rw [← events]
  cases nodes with
  | nil =>
      have start : l.nodes.head = none := owns.way
      rw [start]
      rfl
  | cons node nodes =>
      rw [owns.way.1]
      rfl

/-- A pop of a FIFO with events releases the block of the first one. -/
theorem Sole.popReady (sole : l.Sole q)
    : (l.popReady = .ok none ∧ q.popReady = none)
      ∨ ∃ e l' rest, l.popReady = .ok (some (e, l'))
          ∧ q.popReady = some (e, { q with fifo := rest })
          ∧ l'.Sole { q with fifo := rest } := by
  obtain ⟨nodes, owns, events⟩ := sole.owns
  cases nodes with
  | nil =>
      refine .inl ⟨popReady_nil ⟨[], owns.toHolds, rfl⟩, ?_⟩
      rw [Queue.popReady, ← events]
      rfl
  | cons node nodes =>
      obtain ⟨a, e⟩ := node
      obtain ⟨list, popped, owns'⟩ := owns.popFront
      refine .inr ⟨e, { l with nodes := list }, nodes.map Prod.snd, ?_, ?_,
        ⟨⟨nodes, owns', rfl⟩, sole.counter⟩⟩
      · rw [LinkedFifo.popReady, popped]
        rfl
      · rw [Queue.popReady, ← events]
        rfl

end LinkedFifo

-----------------------------------------------------------------------------------------
-- The whole queue
-----------------------------------------------------------------------------------------

/-- The execution slot and the guard, which take no memory of their own. -/
structure ExecSlot where
  hasExec : Bool
  execEvent : Event
  hardBlocking : Bool
  guardPriority : Int

def Queue.slot (q : Queue) : ExecSlot :=
  ⟨q.hasExec, q.execEvent, q.hardBlocking, q.guardPriority⟩

/-- `qks_queue_t` without its mutex and its condition variable. -/
structure StoredQueue where
  fifo : LinkedFifo
  waitHeap : StoredWaitHeap
  slot : ExecSlot

/-- The calls on a queue, with what the allocator grants them. -/
inductive QueueCall where
  | pushReady (e : Event) (mallocOk : Bool)
  | peekFifo
  | popReady
  | pushWait (e : Event) (reallocOk : Bool)
  | peekWait
  | popWait
  | isEmpty
  | setExecSlot (e : Event) (stage : Stage) (hardBlock : Bool)
  | clearExecSlot
  | setBlocking (hardBlock : Bool)
  | updateStage (stage : Stage)
  | getGuard

/-- A result code, an event that was read unless there was none, or the guard. -/
inductive QueueAnswer where
  | code (result : Int)
  | event (e : Option Event)
  | guard (hardBlocking : Bool) (guardPriority : Int)

/-- The FIFO and the wait heap are empty. -/
def Queue.isEmpty (q : Queue) : Bool := q.fifo.isEmpty && q.waitHeap.size == 0

/-- A call on the queue of the other modules. -/
def Queue.call (q : Queue) : QueueCall → QueueAnswer × Queue
  | .pushReady e mallocOk => (q.pushReady e mallocOk).map .code id
  | .peekFifo => (.event q.peekFifo, q)
  | .popReady => q.popReady.elim (.event none, q) (Prod.map (.event ∘ some) id)
  | .pushWait e reallocOk => (q.pushWait e reallocOk).map .code id
  | .peekWait => (.event q.peekWait, q)
  | .popWait => q.popWait.elim (.event none, q) (Prod.map (.event ∘ some) id)
  | .isEmpty => (.code (if q.isEmpty then 1 else 0), q)
  | .setExecSlot e stage hardBlock => (.code 0, q.setExecSlot e stage hardBlock)
  | .clearExecSlot => (.code 0, q.clearExecSlot)
  | .setBlocking hardBlock => (.code 0, q.setBlocking hardBlock)
  | .updateStage stage => (.code 0, q.updateStage stage)
  | .getGuard => (.guard q.getGuard.1 q.getGuard.2, q)

namespace StoredQueue

/-- `qks_queue_init` -/
def init : StoredQueue := ⟨.init, .empty, ⟨false, .zero, false, 0⟩⟩

def pushReady (q : StoredQueue) (e : Event) (mallocOk : Bool)
    : Except Fault (Int × StoredQueue) :=
  (q.fifo.pushReady e mallocOk).map (fun (result, fifo) => (result, { q with fifo := fifo }))

def peekFifo (q : StoredQueue) : Except Fault (Option Event) := q.fifo.peekFifo

def popReady (q : StoredQueue) : Except Fault (Option (Event × StoredQueue)) :=
  q.fifo.popReady.map (fun popped =>
    popped.map (fun (e, fifo) => (e, { q with fifo := fifo })))

/-- The result of the heap operation is dropped. -/
def pushWait (q : StoredQueue) (e : Event) (reallocOk : Bool)
    : Except Fault (Int × StoredQueue) :=
  (q.waitHeap.heapPush e reallocOk).map (fun (_, heap) => (0, { q with waitHeap := heap }))

def peekWait (q : StoredQueue) : Except Fault (Option Event) := q.waitHeap.heapPeek

def popWait (q : StoredQueue) : Except Fault (Option (Event × StoredQueue)) :=
  q.waitHeap.heapPop.map (fun popped =>
    popped.map (fun (e, heap) => (e, { q with waitHeap := heap })))

/-- `fifo_head` is null and `wait_size` zero. -/
def isEmpty (q : StoredQueue) : Bool := q.fifo.nodes.head == none && q.waitHeap.size == 0

def setExecSlot (q : StoredQueue) (e : Event) (stage : Stage) (hardBlock : Bool)
    : StoredQueue :=
  { q with
    slot := {
      hasExec := true
      execEvent := { e with stage := stage }
      hardBlocking := hardBlock
      guardPriority := e.priority
    } }

def clearExecSlot (q : StoredQueue) : StoredQueue :=
  { q with slot := { q.slot with hasExec := false, hardBlocking := false, guardPriority := 0 } }

def setBlocking (q : StoredQueue) (hardBlock : Bool) : StoredQueue :=
  { q with slot := { q.slot with hardBlocking := hardBlock } }

def updateStage (q : StoredQueue) (stage : Stage) : StoredQueue :=
  if q.slot.hasExec then
    { q with slot := { q.slot with execEvent := { q.slot.execEvent with stage := stage } } }
  else
    q

def getGuard (q : StoredQueue) : Bool × Int := (q.slot.hardBlocking, q.slot.guardPriority)

/-- `qks_queue_destroy`: every node, the array, and the slot is free. -/
def destroy (q : StoredQueue) : Except Fault StoredQueue :=
  q.fifo.nodes.freeAll.bind (fun nodes =>
    q.waitHeap.free.map (fun heap => {
      fifo := { q.fifo with nodes := nodes }
      waitHeap := heap
      slot := { q.slot with hasExec := false }
    }))

/-- A call on the queue with its memory. -/
def call (q : StoredQueue) : QueueCall → Except Fault (QueueAnswer × StoredQueue)
  | .pushReady e mallocOk => (q.pushReady e mallocOk).map (Prod.map .code id)
  | .peekFifo => q.peekFifo.map (fun e => (.event e, q))
  | .popReady =>
      q.popReady.map (fun popped => popped.elim (.event none, q) (Prod.map (.event ∘ some) id))
  | .pushWait e reallocOk => (q.pushWait e reallocOk).map (Prod.map .code id)
  | .peekWait => q.peekWait.map (fun e => (.event e, q))
  | .popWait =>
      q.popWait.map (fun popped => popped.elim (.event none, q) (Prod.map (.event ∘ some) id))
  | .isEmpty => .ok (.code (if q.isEmpty then 1 else 0), q)
  | .setExecSlot e stage hardBlock => .ok (.code 0, q.setExecSlot e stage hardBlock)
  | .clearExecSlot => .ok (.code 0, q.clearExecSlot)
  | .setBlocking hardBlock => .ok (.code 0, q.setBlocking hardBlock)
  | .updateStage stage => .ok (.code 0, q.updateStage stage)
  | .getGuard => .ok (.guard q.getGuard.1 q.getGuard.2, q)

/-- The queue has the contents of one of the other modules, and no further block. -/
structure Implements (s : StoredQueue) (q : Queue) : Prop where
  fifo : s.fifo.Sole q
  waitHeap : s.waitHeap.Implements q.waitHeap
  slot : s.slot = q.slot

variable {s : StoredQueue} {q : Queue}

theorem init_implements : init.Implements .init :=
  ⟨LinkedFifo.init_sole, StoredWaitHeap.empty_implements, rfl⟩

/-- Every call succeeds, answers as the queue and leaves the contents of the queue, by cases on
the call.
-/
theorem Implements.call (same : s.Implements q) (call : QueueCall)
    : ∃ s', s.call call = .ok ((q.call call).1, s') ∧ s'.Implements (q.call call).2 := by
  obtain ⟨fifo, heap, slot⟩ := same
  cases call with
  | pushReady e mallocOk =>
      obtain ⟨l', pushed, sole⟩ := fifo.pushReady e mallocOk
      refine ⟨{ s with fifo := l' }, ?_, sole, ?_, ?_⟩
      · rw [StoredQueue.call, StoredQueue.pushReady, pushed]
        rfl
      · cases mallocOk <;> exact heap
      · cases mallocOk <;> exact slot
  | peekFifo =>
      refine ⟨s, ?_, fifo, heap, slot⟩
      rw [StoredQueue.call, StoredQueue.peekFifo,
        LinkedFifo.peekFifo_implements fifo.implements]
      rfl
  | popReady =>
      rcases fifo.popReady with ⟨popped, nothing⟩ | ⟨e, l', rest, popped, taken, sole⟩
      · refine ⟨s, ?_, ?_⟩
        · rw [StoredQueue.call, StoredQueue.popReady, popped, Queue.call, nothing]
          rfl
        · rw [Queue.call, nothing]
          exact ⟨fifo, heap, slot⟩
      · refine ⟨{ s with fifo := l' }, ?_, ?_⟩
        · rw [StoredQueue.call, StoredQueue.popReady, popped, Queue.call, taken]
          rfl
        · rw [Queue.call, taken]
          exact ⟨sole, heap, slot⟩
  | pushWait e reallocOk =>
      obtain ⟨heap', pushed, same'⟩ := StoredWaitHeap.heapPush_implements heap e reallocOk
      refine ⟨{ s with waitHeap := heap' }, ?_, fifo.congr rfl rfl, same', slot⟩
      rw [StoredQueue.call, StoredQueue.pushWait, pushed]
      rfl
  | peekWait =>
      refine ⟨s, ?_, fifo, heap, slot⟩
      rw [StoredQueue.call, StoredQueue.peekWait, StoredWaitHeap.heapPeek_implements heap]
      rfl
  | popWait =>
      rcases StoredWaitHeap.heapPop_implements heap with
        ⟨popped, nothing⟩ | ⟨root, heap', rest, popped, taken, same'⟩
      · refine ⟨s, ?_, ?_⟩
        · rw [StoredQueue.call, StoredQueue.popWait, popped, Queue.call, Queue.popWait, nothing]
          rfl
        · rw [Queue.call, Queue.popWait, nothing]
          exact ⟨fifo, heap, slot⟩
      · refine ⟨{ s with waitHeap := heap' }, ?_, ?_⟩
        · rw [StoredQueue.call, StoredQueue.popWait, popped, Queue.call, Queue.popWait, taken]
          rfl
        · rw [Queue.call, Queue.popWait, taken]
          exact ⟨fifo.congr rfl rfl, same', slot⟩
  | isEmpty =>
      refine ⟨s, ?_, fifo, heap, slot⟩
      rw [StoredQueue.call, StoredQueue.isEmpty, fifo.head_none, heap.size]
      rfl
  | setExecSlot e stage hardBlock => exact ⟨_, rfl, fifo.congr rfl rfl, heap, rfl⟩
  | clearExecSlot =>
      refine ⟨_, rfl, fifo.congr rfl rfl, heap, ?_⟩
      rw [StoredQueue.clearExecSlot, slot]
      rfl
  | setBlocking hardBlock =>
      refine ⟨_, rfl, fifo.congr rfl rfl, heap, ?_⟩
      rw [StoredQueue.setBlocking, slot]
      rfl
  | updateStage stage =>
      have occupied : s.slot.hasExec = q.hasExec := congrArg ExecSlot.hasExec slot
      rw [StoredQueue.call, StoredQueue.updateStage, Queue.call, Queue.updateStage, occupied]
      split
      case isTrue =>
        refine ⟨_, rfl, fifo.congr rfl rfl, heap, ?_⟩
        rw [slot]
        rfl
      case isFalse => exact ⟨s, rfl, fifo, heap, slot⟩
  | getGuard =>
      refine ⟨s, ?_, fifo, heap, slot⟩
      rw [StoredQueue.call, StoredQueue.getGuard, slot]
      rfl

end StoredQueue

-----------------------------------------------------------------------------------------
-- Sequences of calls
-----------------------------------------------------------------------------------------

/-- The answers to a sequence of calls and the queue after it. -/
def Queue.calls (q : Queue) : List QueueCall → List QueueAnswer × Queue
  | [] => ([], q)
  | call :: calls => ((q.call call).2.calls calls).map ((q.call call).1 :: ·) id

namespace StoredQueue

variable {s : StoredQueue} {q : Queue}

def calls (s : StoredQueue) : List QueueCall → Except Fault (List QueueAnswer × StoredQueue)
  | [] => .ok ([], s)
  | call :: calls =>
      (s.call call).bind (fun (answer, s) => (s.calls calls).map (Prod.map (answer :: ·) id))

/-- Whole sequences, by induction on them. -/
theorem Implements.calls (same : s.Implements q) (calls : List QueueCall)
    : ∃ s', s.calls calls = .ok ((q.calls calls).1, s') ∧ s'.Implements (q.calls calls).2 := by
  induction calls generalizing s q with
  | nil => exact ⟨s, rfl, same⟩
  | cons call calls ih =>
      obtain ⟨middle, called, same'⟩ := same.call call
      obtain ⟨s', ran, final⟩ := ih same'
      refine ⟨s', ?_, final⟩
      rw [StoredQueue.calls, bind_ok called]
      simp only [ran]
      rfl

/-- One block for each event of the FIFO. -/
theorem Implements.fifo_blocks (same : s.Implements q)
    : s.fifo.nodes.mem.liveBlocks = q.fifo.length := by
  obtain ⟨nodes, owns, events⟩ := same.fifo.owns
  rw [owns.liveBlocks, ← events, List.length_map]

/-- One block for the array as soon as it has a capacity. -/
theorem Implements.heap_blocks (same : s.Implements q)
    : s.waitHeap.mem.liveBlocks = if q.waitHeap.cap = 0 then 0 else 1 := by
  have cap := same.waitHeap.cap
  have owned := same.waitHeap.owned
  rcases same.waitHeap.block with ⟨null, nothing⟩ | ⟨some_cap, a, cells, data, live, -, -⟩
  · rw [null, BlockMemory.owned_none_cons] at owned
    rw [if_pos (cap.symm.trans nothing)]
    exact owned.liveBlocks_nil
  · rw [data] at owned
    rw [if_neg (cap ▸ some_cap)]
    exact owned.liveBlocks_singleton live

/-- Destroying a queue runs into no fault and leaves no block. -/
theorem Implements.destroy (same : s.Implements q)
    : ∃ s', s.destroy = .ok s' ∧ s'.fifo.nodes.mem.liveBlocks = 0
        ∧ s'.waitHeap.mem.liveBlocks = 0 := by
  obtain ⟨nodes, owns, -⟩ := same.fifo.owns
  obtain ⟨list, freed, empty⟩ := owns.freeAll
  obtain ⟨heap, released, nothing, -⟩ := StoredWaitHeap.free_implements same.waitHeap
  refine ⟨⟨{ s.fifo with nodes := list }, heap, { s.slot with hasExec := false }⟩, ?_,
    empty.liveBlocks, nothing.liveBlocks_nil⟩
  rw [StoredQueue.destroy, bind_ok freed, released]
  rfl

end StoredQueue

/-- Whatever is called on an initialised queue in whatever order, with whatever allocations
granted: no call runs into a fault, and each answers as the queue of the other modules does.
One block is live for each event of the FIFO and one for an array that was ever allocated, and
destroying the queue releases them all.
-/
theorem storedQueues_implement (calls : List QueueCall)
    : ∃ s, StoredQueue.init.calls calls = .ok ((Queue.init.calls calls).1, s)
        ∧ s.fifo.nodes.mem.liveBlocks = (Queue.init.calls calls).2.fifo.length
        ∧ s.waitHeap.mem.liveBlocks
          = (if (Queue.init.calls calls).2.waitHeap.cap = 0 then 0 else 1)
        ∧ ∃ s', s.destroy = .ok s' ∧ s'.fifo.nodes.mem.liveBlocks = 0
            ∧ s'.waitHeap.mem.liveBlocks = 0 := by
  obtain ⟨s, ran, same⟩ := StoredQueue.init_implements.calls calls
  exact ⟨s, ran, same.fifo_blocks, same.heap_blocks, same.destroy⟩

end QKeySys.Core
