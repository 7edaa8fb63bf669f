import QKeySys.Core.Queue
import QKeySys.Library.Transition

/-! The FIFO and the wait heap as containers: the wait heap is a priority queue over every
sequence of pushes and pops, and what the two enqueue operations report about their storage.
-/

namespace QKeySys.Core

open QKeySys.Library

namespace Event

/-- `cmp` finds `a` not behind `b` exactly when the keys are in this order. -/
theorem cmp_nonpos_iff {a b : Event} : cmp a b ≤ 0 ↔ a.key ≤ b.key := by
  rw [key_le_iff, cmp]
  split_ifs with priority less seq earlier <;> grind

/-- `cmp` finds `a` not ahead of `b` exactly when the keys are in the opposite order. -/
theorem cmp_nonneg_iff {a b : Event} : 0 ≤ cmp a b ↔ b.key ≤ a.key := by
  rw [← not_lt, ← not_lt, ← before_iff, before, decide_eq_true_iff]

end Event

-----------------------------------------------------------------------------------------
-- Sequences of pushes and pops
-----------------------------------------------------------------------------------------

/-- The calls on the wait heap. -/
inductive WaitCall where
  | push (e : Event)
  | pop
  deriving DecidableEq, Repr

/-- A queue with the auxiliary record of what was pushed onto its wait heap and popped from
it.
-/
structure WaitHistory where
  q : Queue
  pushed : List Event
  popped : List Event

namespace WaitHistory

/-- The history after a call whose allocation succeeds; a pop that fails leaves it alone. -/
def call (s : WaitHistory) : WaitCall → WaitHistory
  | .push e => { s with q := (s.q.pushWait e true).2, pushed := s.pushed ++ [e] }
  | .pop =>
      match s.q.popWait with
      | none => s
      | some (e, q) => { s with q := q, popped := s.popped ++ [e] }

end WaitHistory

/-- All sequences of pushes and pops on an initialised queue. -/
def waitCalls : Lts WaitHistory WaitCall where
  init s := s = ⟨.init, [], []⟩
  next s call s' := s' = s.call call

namespace Queue

/-- What `n` pops in a row return, up to the first that fails. -/
def popAll : Nat → Queue → List Event
  | 0, _ => []
  | n + 1, q =>
      match q.popWait with
      | none => []
      | some (e, rest) => e :: popAll n rest

/-- A pop that returns an event takes it out of the heap and touches nothing else. -/
theorem popWait_some {q rest : Queue} {e : Event} (popped : q.popWait = some (e, rest))
    : q.peekWait = some e ∧ q.waitHeap.events.Perm (e :: rest.waitHeap.events)
      ∧ rest = { q with waitHeap := rest.waitHeap } := by
  obtain ⟨⟨top, heap⟩, taken, same⟩ := Option.map_eq_some_iff.mp popped
  obtain ⟨rfl, rfl⟩ := Prod.mk.inj same
  have peeked := q.waitHeap.heapPop_fst
  rw [taken] at peeked
  exact ⟨peeked.symm, WaitHeap.heapPop_events taken, rfl⟩

/-- A pop fails exactly on the empty heap. -/
theorem popWait_eq_none {q : Queue} : q.popWait = none ↔ q.waitHeap.events = [] := by
  rw [popWait, Option.map_eq_none_iff, ← Option.map_eq_none_iff (f := Prod.fst),
    WaitHeap.heapPop_fst, WaitHeap.heapPeek_eq_none]

/-- Enough pops return all events in non-decreasing order, by induction on their number.
Witness: the first one is the least of the heap, which the rest comes out of.
-/
theorem popAll_sorted {n : Nat} {q : Queue} (enough : q.waitHeap.size ≤ n)
    : (popAll n q).Pairwise (fun a b => cmp a b ≤ 0)
      ∧ (popAll n q).Perm q.waitHeap.events := by
  induction n generalizing q with
  | zero =>
      have empty : q.waitHeap.events = [] := by
        rw [WaitHeap.size_eq] at enough
        exact List.length_eq_zero_iff.mp (by omega)
      simp [popAll, empty]
  | succ n ih =>
      rw [popAll]
      cases popped : q.popWait with
      | none => simp [popWait_eq_none.mp popped]
      | some result =>
          obtain ⟨e, rest⟩ := result
          obtain ⟨top, split, -⟩ := popWait_some popped
          have fewer : rest.waitHeap.size ≤ n := by
            have length := split.length_eq
            rw [List.length_cons] at length
            rw [WaitHeap.size_eq] at enough ⊢
            omega
          obtain ⟨sorted, all⟩ := ih fewer
          refine ⟨List.pairwise_cons.mpr ⟨fun later inside => ?_, sorted⟩,
            (all.cons e).trans split.symm⟩
          have stored : later ∈ q.waitHeap.events :=
            split.mem_iff.mpr (List.mem_cons_of_mem e (all.mem_iff.mp inside))
          exact Event.cmp_nonpos_iff.mpr (WaitHeap.heapPeek_le top stored)

end Queue

/-- The wait heap is a priority queue that holds what was pushed and not popped. -/
structure PriorityQueue (s : WaitHistory) : Prop where
  ordered
    : ∀ (i : Nat) (parent child : Event), 0 < i →
        s.q.waitHeap.entries[(i - 1) / 2]? = some parent →
        s.q.waitHeap.entries[i]? = some child → 0 ≤ cmp child parent
  fits : s.q.waitHeap.size ≤ s.q.waitHeap.cap
  balanced : (s.popped ++ s.q.waitHeap.events).Perm s.pushed
  empty
    : s.q.waitHeap.events = [] → s.q.peekWait = none ∧ s.q.popWait = none
        ∧ s.call .pop = s
  least
    : s.q.waitHeap.events ≠ [] → ∃ top rest,
        s.q.peekWait = some top ∧ s.q.popWait = some (top, rest)
        ∧ top ∈ s.q.waitHeap.events ∧ ∀ e ∈ s.q.waitHeap.events, cmp top e ≤ 0
  drained
    : ∀ n, s.q.waitHeap.size ≤ n →
        (s.q.popAll n).Pairwise (fun a b => cmp a b ≤ 0)
        ∧ (s.q.popAll n).Perm s.q.waitHeap.events

namespace WaitHistory

variable {s : WaitHistory}

/-- A call moves events between the record and the heap, by cases on the call. -/
theorem call_balanced (now : (s.popped ++ s.q.waitHeap.events).Perm s.pushed) (call : WaitCall)
    : ((s.call call).popped ++ (s.call call).q.waitHeap.events).Perm (s.call call).pushed := by
  cases call with
  | push e =>
      have stored
          : (s.q.pushWait e true).2.waitHeap.events.Perm (e :: s.q.waitHeap.events) := by
        rcases s.q.waitHeap.heapPush_cases e true with ⟨-, stored⟩ | ⟨refused, -⟩
        · exact stored
        · cases refused
      calc
        (s.popped ++ (s.q.pushWait e true).2.waitHeap.events).Perm
            (s.popped ++ e :: s.q.waitHeap.events) := stored.append_left _
        _ |>.Perm (e :: (s.popped ++ s.q.waitHeap.events)) := List.perm_middle
        _ |>.Perm (e :: s.pushed) := now.cons e
        _ |>.Perm (s.pushed ++ [e]) := (List.perm_append_singleton e s.pushed).symm
  | pop =>
      rw [WaitHistory.call]
      cases popped : s.q.popWait with
      | none => exact now
      | some result =>
          obtain ⟨e, rest⟩ := result
          obtain ⟨-, split, -⟩ := Queue.popWait_some popped
          simp only [List.append_assoc, List.singleton_append]
          exact (split.symm.append_left s.popped).trans now

/-- In every history the heap holds exactly what was pushed and not popped. -/
theorem reachable_balanced (reached : waitCalls.Reachable s)
    : (s.popped ++ s.q.waitHeap.events).Perm s.pushed := by
  refine Lts.Reachable.induct
    (fun s => (s.popped ++ s.q.waitHeap.events).Perm s.pushed) ?_ ?_ reached
  · rintro _ rfl
    exact .refl []
  · rintro s call _ - now rfl
    exact call_balanced now call

end WaitHistory

/-- Over every sequence of pushes and pops the wait heap is a priority queue. -/
theorem waitCalls_priorityQueue (s : WaitHistory) (reached : waitCalls.Reachable s)
    : PriorityQueue s where
  ordered i parent child positive above below :=
    Event.cmp_nonneg_iff.mpr (s.q.waitHeap.ordered i parent child positive above below)
  fits := s.q.waitHeap.fits
  balanced := WaitHistory.reachable_balanced reached
  empty nothing := by
    have failed := Queue.popWait_eq_none.mpr nothing
    exact ⟨WaitHeap.heapPeek_eq_none.mpr nothing, failed, by rw [WaitHistory.call, failed]⟩
  least some_events := by
    obtain ⟨⟨top, rest⟩, popped⟩ :=
      Option.ne_none_iff_exists'.mp (mt Queue.popWait_eq_none.mp some_events)
    obtain ⟨peeked, split, -⟩ := Queue.popWait_some popped
    refine ⟨top, rest, peeked, popped, split.mem_iff.mpr List.mem_cons_self, fun e stored => ?_⟩
    exact Event.cmp_nonpos_iff.mpr (WaitHeap.heapPeek_le peeked stored)
  drained _ enough := Queue.popAll_sorted enough

/-- Two events with equal keys are pushed, and one of them is popped again. -/
def twinsParked : WaitHistory :=
  (((⟨.init, [], []⟩ : WaitHistory).call (.push .zero)).call (.push .zero)).call .pop

theorem twinsParked_priorityQueue : PriorityQueue twinsParked :=
  waitCalls_priorityQueue twinsParked
    ((((Lts.Reachable.start rfl).next rfl).next rfl).next rfl)

-----------------------------------------------------------------------------------------
-- What the enqueue operations report
-----------------------------------------------------------------------------------------

/-- The FIFO, the wait heap and the execution slot are as they were. -/
structure Untouched (q q' : Queue) : Prop where
  fifo : q'.fifo = q.fifo
  waitHeap : q'.waitHeap = q.waitHeap
  hasExec : q'.hasExec = q.hasExec
  execEvent : q'.execEvent = q.execEvent
  hardBlocking : q'.hardBlocking = q.hardBlocking
  guardPriority : q'.guardPriority = q.guardPriority

/-- An enqueue operation returns zero exactly when its container holds one event more, and
returns something else and touches nothing when its allocation failed.
-/
structure Truthful (q : Queue) (result : Int × Queue) (stored failed : Prop) : Prop where
  reports : result.1 = 0 ↔ stored
  restores : failed → result.1 ≠ 0 ∧ Untouched q result.2

/-- `qks_queue_push_ready` is truthful: the event, numbered, is behind the former FIFO. -/
def Queue.ReadyTruthful (q : Queue) (e : Event) (mallocOk : Bool) : Prop :=
  Truthful q (q.pushReady e mallocOk)
    ((q.pushReady e mallocOk).2.fifo = q.fifo ++ [q.numbered e]) (mallocOk = false)

/-- `qks_queue_push_wait` is truthful. It allocates only when the heap is full. -/
def Queue.WaitTruthful (q : Queue) (e : Event) (reallocOk : Bool) : Prop :=
  Truthful q (q.pushWait e reallocOk)
    ((q.pushWait e reallocOk).2.waitHeap.events.Perm (e :: q.waitHeap.events))
    (q.waitHeap.size + 1 > q.waitHeap.cap ∧ reallocOk = false)

/-- `qks_queue_push_ready` reports a failed allocation. -/
theorem readyTruthful (q : Queue) (e : Event) (mallocOk : Bool)
    : q.ReadyTruthful e mallocOk := by
  cases mallocOk with
  | true => exact ⟨by simp [Queue.pushReady], by simp⟩
  | false =>
      refine ⟨by simp [Queue.pushReady], fun _ => ⟨by simp [Queue.pushReady], ?_⟩⟩
      constructor <;> simp [Queue.pushReady]

/-- A wait heap cannot hold one event more than itself. -/
theorem not_perm_cons (e : Event) (events : List Event) : ¬ events.Perm (e :: events) := by
  intro same
  have length := same.length_eq
  simp at length

/-- `qks_queue_push_wait` reports success whether or not the heap could grow, so that it is
truthful exactly when the heap has room or grows.
-/
theorem waitTruthful_iff (q : Queue) (e : Event) (reallocOk : Bool)
    : q.WaitTruthful e reallocOk
      ↔ q.waitHeap.size + 1 ≤ q.waitHeap.cap ∨ reallocOk = true := by
  constructor
  · rintro ⟨-, restores⟩
    by_contra neither
    rw [not_or, Bool.not_eq_true] at neither
    exact (restores ⟨not_le.mp neither.1, neither.2⟩).1 rfl
  · intro grows
    rcases q.waitHeap.heapPush_cases e reallocOk with ⟨-, stored⟩ | ⟨refused, unchanged⟩
    · refine ⟨⟨fun _ => stored, fun _ => rfl⟩, ?_⟩
      rintro ⟨full, refused⟩
      rcases grows with room | granted
      · omega
      · cases refused.symm.trans granted
    · have room : q.waitHeap.size + 1 ≤ q.waitHeap.cap :=
        grows.resolve_right (by simp [refused])
      have result := congrArg Prod.fst unchanged
      rw [WaitHeap.heapPush, dif_neg (not_lt.mpr room)] at result
      cases result

/-- Both enqueue operations are truthful exactly when the wait heap has room or grows. -/
theorem enqueue_truthful_iff (q : Queue) (e : Event) (mallocOk reallocOk : Bool)
    : q.ReadyTruthful e mallocOk ∧ q.WaitTruthful e reallocOk
      ↔ q.waitHeap.size + 1 ≤ q.waitHeap.cap ∨ reallocOk = true := by
  rw [waitTruthful_iff, and_iff_right (readyTruthful q e mallocOk)]

/-- Parking an event on an initialised queue is reported as a success when `realloc` fails. -/
theorem firstPark_untruthful
    : ¬ ∀ (q : Queue) (e : Event) (mallocOk reallocOk : Bool),
        q.ReadyTruthful e mallocOk ∧ q.WaitTruthful e reallocOk := by
  intro always
  obtain ⟨-, reports, -⟩ := always .init .zero true false
  exact not_perm_cons .zero [] (reports.mp rfl)

end QKeySys.Core
