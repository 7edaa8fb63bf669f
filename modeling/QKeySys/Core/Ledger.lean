import Mathlib.Data.List.Perm.Basic
import QKeySys.Core.Custody

/-! Where the injected events are: the ledger of all places an event can be in, compared with
what was injected.
-/

namespace QKeySys.Core

open QKeySys.Library

/-- What an event keeps while it moves between places. A SLAVE loses its number when it is
accepted, since the installed event is built anew.
-/
structure Record where
  id : Nat
  type : EventType
  dir : EventDir
  priority : Int
  payload : Nat
  seq : Option UInt64
  deriving DecidableEq

def Event.record (e : Event) : Record where
  id := e.id
  type := e.type
  dir := e.dir
  priority := e.priority
  payload := e.payload
  seq := if e.dir = .master then some e.seq else none

/-- The event that the scheduler holds between taking it out of one place and putting it
into the next.
-/
def SchedPc.inHand : SchedPc → List Event
  | acceptAndClaim e | handleEvent e | pushPrev e | parkBlocked e => [e]
  | _ => []

@[simp]
theorem dispose_inHand (e : Event) : (Ctx.dispose e).inHand = [e] := by
  cases dir : e.dir <;> simp [Ctx.dispose, dir, SchedPc.inHand]

/-- The event in the slot, if any. -/
def Queue.inSlot (q : Queue) : List Event := if q.hasExec then [q.execEvent] else []

namespace Ctx

variable {c c' : Ctx}

/-- All places of an event, one after the other. -/
def places (c : Ctx) : List Event :=
  c.q.fifo ++ c.q.waitHeap.events ++ c.sched.inHand ++ c.q.inSlot ++ c.log.completed
    ++ c.log.dropped ++ c.log.lost

/-- The records in all places are those of the injected events, each once; the wait heap
holds only MASTER events and only SLAVE events were dropped.
-/
structure Balanced (c : Ctx) : Prop where
  balance : (c.places.map Event.record).Perm (c.log.injected.map Event.record)
  heap : ∀ e ∈ c.q.waitHeap.events, e.dir = .master
  dropped : ∀ e ∈ c.log.dropped, e.dir = .slave

/-- How often a record occurs in a list of events. -/
def occurs (r : Record) (events : List Event) : Nat := (events.map Event.record).count r

/-- The occurrence that a single event makes. -/
def hit (r : Record) (e : Event) : Nat := if e.record = r then 1 else 0

theorem hit_congr {e e' : Event} (same : e'.record = e.record) (r : Record)
    : hit r e' = hit r e := by
  simp [hit, same]

section Occurs

variable (r : Record)

@[simp]
theorem occurs_nil : occurs r [] = 0 := rfl

@[simp]
theorem occurs_cons (e : Event) (rest : List Event)
    : occurs r (e :: rest) = hit r e + occurs r rest := by
  simp [occurs, hit, List.count_cons, Nat.add_comm]

@[simp]
theorem occurs_append (left right : List Event)
    : occurs r (left ++ right) = occurs r left + occurs r right := by
  simp [occurs]

theorem occurs_perm {left right : List Event} (same : left.Perm right)
    : occurs r left = occurs r right :=
  (same.map Event.record).count_eq r

end Occurs

/-- The occurrences in all places, given what is in hand. -/
def total (c : Ctx) (hand : List Event) (r : Record) : Nat :=
  occurs r c.q.fifo + occurs r c.q.waitHeap.events + occurs r hand + occurs r c.q.inSlot
    + occurs r c.log.completed + occurs r c.log.dropped + occurs r c.log.lost

/-- Moves that keep all occurrences keep the balance. -/
theorem Balanced.shift (now : c.Balanced) (before after : List Event)
    (handBefore : c.sched.inHand = before) (handAfter : c'.sched.inHand = after)
    (same : ∀ r, c'.total after r = c.total before r)
    (injected : c'.log.injected = c.log.injected)
    (heap : ∀ e ∈ c'.q.waitHeap.events, e.dir = .master)
    (dropped : ∀ e ∈ c'.log.dropped, e.dir = .slave)
    : c'.Balanced where
  balance := by
    have kept : (c'.places.map Event.record).Perm (c.places.map Event.record) := by
      refine List.perm_iff_count.mpr (fun r => ?_)
      change occurs r c'.places = occurs r c.places
      simpa only [places, total, occurs_append, handBefore, handAfter] using same r
    rw [injected]
    exact kept.trans now.balance
  heap := heap
  dropped := dropped

/-- Switching the stage keeps the record of the event in the slot. -/
theorem occurs_updateStage (q : Queue) (stage : Stage) (r : Record)
    : occurs r (q.updateStage stage).inSlot = occurs r q.inSlot := by
  have record : (q.updateStage stage).execEvent.record = q.execEvent.record := by
    unfold Queue.updateStage
    split <;> rfl
  simp only [Queue.inSlot, Queue.updateStage_hasExec]
  split
  · simp only [occurs_cons, hit_congr record]
  · rfl

/-- An event in any place has the record of an injected one. -/
theorem Balanced.origin (now : c.Balanced) {e : Event} (placed : e ∈ c.places)
    : ∃ x ∈ c.log.injected, x.record = e.record := by
  have known := now.balance.mem_iff.mp (List.mem_map_of_mem placed)
  simpa using known

/-- The scheduler's moves shift single events between places, by cases on the move. -/
theorem Balanced.sched (now : c.Balanced) {holder : Holder} (held : c.HeldBy holder)
    (arrivals : ∀ e ∈ c.log.injected, e.priority = priorityOf e.type)
    {ok : Bool} (move : SchedMove c ok c')
    : c'.Balanced := by
  cases move with
  | silent next move =>
      have before : c.sched.inHand = [] := by cases move <;> rw [‹c.sched = _›] <;> rfl
      have after : next.inHand = [] := by cases move <;> rfl
      exact now.shift [] [] before after (fun r => rfl) rfl now.heap now.dropped
  | popReady e rest pc head =>
      have before : c.sched.inHand = [] := by rcases pc with pc | pc <;> rw [pc] <;> rfl
      refine now.shift [] [e] before (dispose_inHand e) (fun r => ?_) rfl now.heap now.dropped
      simp only [total, Queue.inSlot, head, occurs_cons, occurs_nil]
      omega
  | popWait e heap pc popped =>
      have split := WaitHeap.heapPop_events popped
      refine now.shift [] [e] (by rw [pc]; rfl) (dispose_inHand e) (fun r => ?_) rfl ?_
        now.dropped
      · have same := occurs_perm r split
        simp only [total, Queue.inSlot, occurs_cons, occurs_nil] at same ⊢
        omega
      · exact fun x member => now.heap x (split.mem_iff.mpr (List.mem_cons_of_mem e member))
  | claim e pc =>
      have free : c.q.hasExec = false := by
        obtain rfl := held.nobody (.inr (by rw [pc]; rfl))
        simpa using held.hasExec
      have slave : e.dir = .slave := by simpa [pc, SchedPc.Sorted] using held.sorted
      have standard : e.priority = priorityOf e.type := by
        obtain ⟨x, member, same⟩ := now.origin (e := e) (by simp [places, pc, SchedPc.inHand])
        have arrival := arrivals x member
        simp only [Event.record, Record.mk.injEq] at same
        grind
      have same : ({ claimed e with stage := .iwait } : Event).record = e.record := by
        simp [Event.record, claimed, slave, standard]
      refine now.shift [e] [] (by rw [pc]; rfl) rfl (fun r => ?_) rfl now.heap now.dropped
      simp [total, Queue.inSlot, free, hit_congr same]
  | actStage pc =>
      refine now.shift [] [] (by rw [pc]; rfl) rfl (fun r => ?_) rfl (by simpa using now.heap)
        now.dropped
      simp only [total, Queue.updateStage_fifo, Queue.updateStage_waitHeap,
        occurs_updateStage]
  | install e pc =>
      have free : c.q.hasExec = false := by
        obtain rfl := held.nobody (.inr (by rw [pc]; rfl))
        simpa using held.hasExec
      refine now.shift [e] [] (by rw [pc]; rfl) (by split <;> rfl) (fun r => ?_) rfl now.heap
        now.dropped
      have same : ({ e with stage := .init } : Event).record = e.record := rfl
      simp [total, Queue.inSlot, free, hit_congr same]
  | clear prev pc =>
      have occupied : c.q.hasExec = true := by
        obtain rfl := held.isWindow (by rw [pc]; rfl)
        simpa using held.hasExec
      refine now.shift [] [prev] (by rw [pc]; rfl) rfl (fun r => ?_) rfl now.heap now.dropped
      simp [total, Queue.inSlot, occupied, held.prev prev pc]
  | storePrev prev heap pc stored =>
      have master : prev.dir = .master := by simpa [pc, SchedPc.Sorted] using held.sorted
      refine now.shift [prev] [] (by rw [pc]; rfl) rfl (fun r => ?_) rfl ?_ now.dropped
      · have same := occurs_perm r stored
        simp only [occurs_cons] at same
        simp only [total, Queue.inSlot, occurs_cons, occurs_nil]
        omega
      · intro x member
        rcases List.mem_cons.mp (stored.mem_iff.mp member) with rfl | member
        · exact master
        · exact now.heap x member
  | park f heap pc stored =>
      have master : f.dir = .master := by simpa [pc, SchedPc.Sorted] using held.sorted
      refine now.shift [f] [] (by rw [pc]; rfl) rfl (fun r => ?_) rfl ?_ now.dropped
      · have same := occurs_perm r stored
        simp only [occurs_cons] at same
        simp only [total, Queue.inSlot, occurs_cons, occurs_nil]
        omega
      · intro x member
        rcases List.mem_cons.mp (stored.mem_iff.mp member) with rfl | member
        · exact master
        · exact now.heap x member
  | losePrev prev pc failed =>
      refine now.shift [prev] [] (by rw [pc]; rfl) rfl (fun r => ?_) rfl now.heap now.dropped
      simp only [total, Queue.inSlot, occurs_append, occurs_cons, occurs_nil]
      omega
  | loseBlocked f pc failed =>
      refine now.shift [f] [] (by rw [pc]; rfl) rfl (fun r => ?_) rfl now.heap now.dropped
      simp only [total, Queue.inSlot, occurs_append, occurs_cons, occurs_nil]
      omega
  | popBlocked f rest pc head master =>
      refine now.shift [] [f] (by rw [pc]; rfl) rfl (fun r => ?_) rfl now.heap now.dropped
      simp only [total, Queue.inSlot, head, occurs_cons, occurs_nil]
      omega
  | drop f rest pc head slave =>
      refine now.shift [] [] (by rw [pc]; rfl) rfl (fun r => ?_) rfl now.heap ?_
      · simp only [total, Queue.inSlot, head, occurs_append, occurs_cons, occurs_nil]
        omega
      · intro x member
        rcases List.mem_append.mp member with member | member
        · exact now.dropped x member
        · rw [List.mem_singleton.mp member]
          exact slave
  | _ =>
      refine now.shift [] [] (by rw [‹c.sched = _›]; rfl) rfl (fun r => rfl) rfl now.heap
        now.dropped

/-- Every move keeps the balance; an arrival enters both sides. -/
theorem Balanced.move (now : c.Balanced) {holder : Holder} (held : c.HeldBy holder)
    (arrivals : ∀ e ∈ c.log.injected, e.priority = priorityOf e.type)
    {action : Action} (move : Move c action c')
    : c'.Balanced := by
  cases move with
  | arrive type dir payload =>
      refine ⟨?_, now.heap, now.dropped⟩
      refine List.perm_iff_count.mpr (fun r => ?_)
      have before := now.balance.count_eq r
      change occurs r _ = occurs r _ at before
      change occurs r _ = occurs r _
      simp only [places, Queue.inSlot, occurs_append, occurs_cons, occurs_nil] at before ⊢
      omega
  | sched ok c' move => exact now.sched held arrivals move
  | wakeNonempty pc =>
      exact now.shift [] [] (by rw [pc]; rfl) rfl (fun r => rfl) rfl now.heap now.dropped
  | wakeForFifo pc =>
      exact now.shift [] [] (by rw [pc]; rfl) rfl (fun r => rfl) rfl now.heap now.dropped
  | init k t found c' move =>
      cases move with
      | stage pc =>
          refine now.shift _ _ rfl rfl (fun r => ?_) rfl (by simpa using now.heap) now.dropped
          simp only [total, Queue.updateStage_fifo, Queue.updateStage_waitHeap,
            occurs_updateStage]
          rfl
      | _ => exact now.shift _ _ rfl rfl (fun r => rfl) rfl now.heap now.dropped
  | dispatch c' move =>
      cases move with
      | clear t ids pc =>
          refine now.shift _ _ rfl rfl (fun r => ?_) rfl now.heap now.dropped
          cases occupied : c.q.hasExec
          · simp [total, Queue.inSlot, occupied]
          · simp only [total, Queue.inSlot, occupied, Queue.clearExecSlot_fifo,
              Queue.clearExecSlot_waitHeap, Queue.clearExecSlot_hasExec, if_true,
              Bool.false_eq_true, if_false, occurs_append, occurs_cons, occurs_nil]
            omega
      | _ => exact now.shift _ _ rfl rfl (fun r => rfl) rfl now.heap now.dropped
  | _ => exact now.shift _ _ rfl rfl (fun r => rfl) rfl now.heap now.dropped

/-- Injected events carry their default priority and are numbered in order. -/
structure Arrivals (c : Ctx) : Prop where
  standard : ∀ e ∈ c.log.injected, e.priority = priorityOf e.type
  numbered : ∀ e ∈ c.log.injected, e.seq = UInt64.ofNat e.id
  bounded : ∀ e ∈ c.log.injected, e.id ≤ c.log.attempts
  increasing : c.log.injected.Pairwise (fun a b => a.id < b.id)
  counter : c.q.seqCounter = UInt64.ofNat c.log.attempts

theorem Arrivals.init (role : Role) : (Ctx.init role).Arrivals := by
  constructor <;> simp [Ctx.init, Queue.init]

/-- Only an injection touches the list of injected events and the counters. -/
theorem Arrivals.move (now : c.Arrivals) {action : Action} (move : Move c action c')
    : c'.Arrivals := by
  obtain ⟨standard, numbered, bounded, increasing, counter⟩ := id now
  have advanced : c.q.seqCounter + 1 = UInt64.ofNat (c.log.attempts + 1) := by
    rw [counter, UInt64.ofNat_add]
    rfl
  cases move with
  | arrive type dir payload =>
      constructor
      · simpa [or_imp, forall_and, arrival] using standard
      · simpa [or_imp, forall_and, arrival, advanced] using numbered
      · simp only [List.mem_append, List.mem_singleton, or_imp, forall_and, forall_eq]
        exact ⟨fun e member => (bounded e member).trans (Nat.le_succ _), Nat.le_refl _⟩
      · refine List.pairwise_append.mpr ⟨increasing, List.pairwise_singleton _ _, ?_⟩
        intro a member b last
        rw [List.mem_singleton.mp last]
        exact Nat.lt_succ_of_le (bounded a member)
      · exact advanced
  | reject type dir payload =>
      exact ⟨standard, numbered, fun e member => (bounded e member).trans (Nat.le_succ _),
        increasing, advanced⟩
  | sched ok c' move =>
      cases move <;>
        exact ⟨standard, numbered, bounded, increasing,
          by simpa [requestCancel, join] using counter⟩
  | init k t found c' move =>
      cases move <;> exact ⟨standard, numbered, bounded, increasing, by simpa using counter⟩
  | dispatch c' move =>
      cases move <;> exact ⟨standard, numbered, bounded, increasing, by simpa using counter⟩
  | _ => exact ⟨standard, numbered, bounded, increasing, by simpa using counter⟩

/-- No event in place has arrived later than the last injection. -/
theorem Balanced.bounded (balanced : c.Balanced) (arrivals : c.Arrivals) {e : Event}
    (placed : e ∈ c.places)
    : e.id ≤ c.log.attempts := by
  obtain ⟨x, member, same⟩ := balanced.origin placed
  have id : x.id = e.id := congrArg Record.id same
  exact id ▸ arrivals.bounded x member

/-- A MASTER in place carries the number of its arrival. -/
theorem Balanced.numbered (balanced : c.Balanced) (arrivals : c.Arrivals) {e : Event}
    (placed : e ∈ c.places) (master : e.dir = .master)
    : e.seq = UInt64.ofNat e.id := by
  obtain ⟨x, member, same⟩ := balanced.origin placed
  have id : x.id = e.id := congrArg Record.id same
  have dir : x.dir = e.dir := congrArg Record.dir same
  have seq := congrArg Record.seq same
  simp only [Event.record, dir, master, if_true, Option.some.injEq] at seq
  rw [← seq, arrivals.numbered x member, id]

/-- Every event in place has the standard priority of its type. -/
theorem Balanced.standard (balanced : c.Balanced) (arrivals : c.Arrivals) {e : Event}
    (placed : e ∈ c.places)
    : e.priority = priorityOf e.type := by
  obtain ⟨x, member, same⟩ := balanced.origin placed
  have type : x.type = e.type := congrArg Record.type same
  have priority : x.priority = e.priority := congrArg Record.priority same
  rw [← priority, ← type, arrivals.standard x member]

end Ctx

section Runs

variable {role : Role} {cond : Ctx → Action → Prop} {c : Ctx}

theorem runsWhen_arrivals (reached : (runsWhen role cond).Reachable c) : c.Arrivals :=
  runsWhen_induct Ctx.Arrivals (.init role) (fun _ _ _ _ now _ move => now.move move) reached

/-- When the init threads act in time, the places balance what was injected. -/
theorem runsWhen_balanced (inTime : ∀ c action, cond c action → c.actsInTime action)
    (reached : (runsWhen role cond).Reachable c)
    : c.Balanced := by
  refine runsWhen_induct Ctx.Balanced ?_ ?_ reached
  · constructor <;> simp [Ctx.init, Ctx.places, Queue.init, Queue.inSlot, SchedPc.inHand]
  · intro c action c' reached now _ move
    obtain ⟨holder, held⟩ := runsWhen_held inTime reached
    exact now.move held (runsWhen_arrivals reached).standard move

end Runs

end QKeySys.Core
