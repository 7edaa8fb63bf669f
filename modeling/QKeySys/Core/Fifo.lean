import QKeySys.Core.Queue
import QKeySys.Library.LinkedList

/-! The FIFO as the nodes it is made of: the operations on head and tail stand for those on the
list of events, over whole sequences of calls.
-/

namespace QKeySys.Core

open QKeySys.Library

/-- `fifo_head` and `fifo_tail` with the nodes behind them, and the counter. -/
structure LinkedFifo where
  nodes : LinkedList Event
  seqCounter : UInt64

namespace LinkedFifo

/-- The part of `qks_queue_init` that concerns the FIFO. -/
def init : LinkedFifo := ⟨.empty, 0⟩

/-- The counter after an event without a number has taken the next one. -/
def counted (q : LinkedFifo) (e : Event) : UInt64 :=
  if e.seq = 0 then q.seqCounter + 1 else q.seqCounter

/-- The event as it is stored. -/
def numbered (q : LinkedFifo) (e : Event) : Event :=
  if e.seq = 0 then { e with seq := q.counted e } else e

/-- `qks_queue_push_ready`; the counter advances before the node is allocated. -/
def pushReady (q : LinkedFifo) (e : Event) (mallocOk : Bool)
    : Except Fault (Int × LinkedFifo) :=
  (q.nodes.pushBack (q.numbered e) mallocOk).map (fun (stored, nodes) =>
    (if stored then 0 else -1, ⟨nodes, q.counted e⟩))

/-- `qks_queue_peek_fifo` -/
def peekFifo (q : LinkedFifo) : Except Fault (Option Event) := q.nodes.peekFront

/-- `qks_queue_pop_ready` -/
def popReady (q : LinkedFifo) : Except Fault (Option (Event × LinkedFifo)) :=
  q.nodes.popFront.map (fun popped =>
    popped.map (fun (e, nodes) => (e, { q with nodes := nodes })))

/-- The nodes hold a list of events. -/
def Stands (q : LinkedFifo) (fifo : List Event) : Prop :=
  ∃ nodes, q.nodes.Holds nodes ∧ nodes.map Prod.snd = fifo

/-- The nodes and the counter stand for those of a queue. -/
structure Implements (l : LinkedFifo) (q : Queue) : Prop where
  stands : l.Stands q.fifo
  counter : l.seqCounter = q.seqCounter

-----------------------------------------------------------------------------------------
-- Operations
-----------------------------------------------------------------------------------------

variable {l : LinkedFifo} {q : Queue} {fifo : List Event}

theorem init_stands : init.Stands [] := ⟨[], LinkedList.empty_holds, rfl⟩

/-- A push appends the numbered event if there is memory, and counts in any case. -/
theorem pushReady_stands (stands : l.Stands fifo) (e : Event) (mallocOk : Bool)
    : ∃ l', l.pushReady e mallocOk = .ok (if mallocOk then 0 else -1, l')
        ∧ l'.Stands (if mallocOk then fifo ++ [l.numbered e] else fifo)
        ∧ l'.seqCounter = l.counted e := by
  cases mallocOk with
  | false => exact ⟨⟨l.nodes, l.counted e⟩, rfl, stands, rfl⟩
  | true =>
      obtain ⟨nodes, holds, rfl⟩ := stands
      obtain ⟨list, a, pushed, holds'⟩ := LinkedList.pushBack_granted holds (l.numbered e)
      refine ⟨⟨list, l.counted e⟩, ?_, ⟨_, holds', by simp⟩, rfl⟩
      rw [pushReady, pushed]
      rfl

theorem peekFifo_stands (stands : l.Stands fifo) : l.peekFifo = .ok fifo.head? := by
  obtain ⟨nodes, holds, rfl⟩ := stands
  cases nodes with
  | nil => exact LinkedList.peekFront_nil holds
  | cons node nodes => exact LinkedList.peekFront_cons holds

theorem popReady_nil (stands : l.Stands []) : l.popReady = .ok none := by
  obtain ⟨nodes, holds, events⟩ := stands
  obtain rfl := List.map_eq_nil_iff.mp events
  rw [popReady, LinkedList.popFront_nil holds]
  rfl

theorem popReady_cons {e : Event} (stands : l.Stands (e :: fifo))
    : ∃ l', l.popReady = .ok (some (e, l'))
        ∧ l'.Stands fifo ∧ l'.seqCounter = l.seqCounter := by
  obtain ⟨nodes, holds, events⟩ := stands
  obtain ⟨node, nodes, rfl, rfl, rfl⟩ := List.map_eq_cons_iff.mp events
  obtain ⟨list, popped, rest⟩ := LinkedList.popFront_cons holds
  refine ⟨{ l with nodes := list }, ?_, ⟨nodes, rest, rfl⟩, rfl⟩
  rw [popReady, popped]
  rfl

-----------------------------------------------------------------------------------------
-- The queue of the other modules
-----------------------------------------------------------------------------------------

theorem init_implements : init.Implements Queue.init := ⟨init_stands, rfl⟩

theorem peekFifo_implements (same : l.Implements q) : l.peekFifo = .ok q.peekFifo :=
  peekFifo_stands same.stands

end LinkedFifo

-----------------------------------------------------------------------------------------
-- Sequences of calls
-----------------------------------------------------------------------------------------

inductive FifoCall where
  | push (e : Event) (mallocOk : Bool)
  | pop

namespace FifoCall

/-- The calls of a run push events without a number. -/
def Fresh : FifoCall → Prop
  | .push e _ => e.seq = 0
  | .pop => True

def isPush : FifoCall → Bool
  | .push _ _ => true
  | .pop => false

/-- What a push has to return: success exactly if there is memory. -/
def result : FifoCall → Option Int
  | .push _ mallocOk => some (if mallocOk then 0 else -1)
  | .pop => none

/-- The event that a push with memory stores, as it was given. -/
def stored : FifoCall → Option Event
  | .push e true => some e
  | _ => none

end FifoCall

/-- A sequence of calls so far: the FIFO, what the pushes returned, and the events that were
popped, as they came out.
-/
structure FifoRun where
  q : LinkedFifo
  results : List Int
  popped : List Event

namespace FifoRun

def init : FifoRun := ⟨.init, [], []⟩

def step (run : FifoRun) : FifoCall → Except Fault FifoRun
  | .push e mallocOk =>
      (run.q.pushReady e mallocOk).map (fun (result, q) =>
        { run with q := q, results := run.results ++ [result] })
  | .pop =>
      run.q.popReady.map (fun popped =>
        match popped with
        | none => run
        | some (e, q) => { run with q := q, popped := run.popped ++ [e] })

def steps (run : FifoRun) : List FifoCall → Except Fault FifoRun
  | [] => .ok run
  | call :: calls => (run.step call).bind (fun run => run.steps calls)

end FifoRun

/-- The event without its number. -/
def Event.unnumbered (e : Event) : Event := { e with seq := 0 }

/-- After the calls the FIFO holds what was stored and not popped yet, numbered upwards. -/
structure FifoRun.Tracks (run : FifoRun) (calls : List FifoCall) (fifo : List Event)
    : Prop where
  stands : run.q.Stands fifo
  counter : run.q.seqCounter.toNat = calls.countP FifoCall.isPush
  results : run.results = calls.filterMap FifoCall.result
  given : (run.popped ++ fifo).map Event.unnumbered = calls.filterMap FifoCall.stored
  ascending : (run.popped ++ fifo).Pairwise (fun a b => a.seq < b.seq)
  bounded : ∀ e ∈ run.popped ++ fifo, e.seq ≤ run.q.seqCounter

namespace FifoRun

variable {run : FifoRun} {calls : List FifoCall} {fifo : List Event}

theorem init_tracks : init.Tracks [] [] where
  stands := LinkedFifo.init_stands
  counter := rfl
  results := rfl
  given := rfl
  ascending := List.Pairwise.nil
  bounded := by simp [init]

/-- A push of an event without a number, by cases on the allocation. -/
theorem Tracks.push (tracks : run.Tracks calls fifo) {e : Event} (fresh : e.seq = 0)
    (few : calls.countP FifoCall.isPush + 1 < UInt64.size) (mallocOk : Bool)
    : ∃ run' fifo',
        run.step (.push e mallocOk) = .ok run'
        ∧ run'.Tracks (calls ++ [.push e mallocOk]) fifo' := by
  obtain ⟨q, pushed, stands, counter⟩ :=
    LinkedFifo.pushReady_stands tracks.stands e mallocOk
  have next : q.seqCounter = run.q.seqCounter + 1 := by
    rw [counter, LinkedFifo.counted, if_pos fresh]
  have value : q.seqCounter.toNat = calls.countP FifoCall.isPush + 1 := by
    rw [next, UInt64.toNat_add, tracks.counter]
    exact Nat.mod_eq_of_lt few
  have counted (mallocOk : Bool)
      : q.seqCounter.toNat = (calls ++ [FifoCall.push e mallocOk]).countP FifoCall.isPush := by
    rw [value, List.countP_append, List.countP_cons_of_pos rfl, List.countP_nil]
  have above : run.q.seqCounter < q.seqCounter := by
    rw [UInt64.lt_iff_toNat_lt, value, tracks.counter]
    exact Nat.lt_succ_self _
  have below (e' : Event) (inside : e' ∈ run.popped ++ fifo) : e'.seq < q.seqCounter :=
    UInt64.lt_of_le_of_lt (tracks.bounded e' inside) above
  have stepped
      : run.step (.push e mallocOk)
        = .ok ⟨q, run.results ++ [if mallocOk then 0 else -1], run.popped⟩ := by
    rw [step, pushed]
    rfl
  have results
      : run.results ++ [if mallocOk then 0 else -1]
        = (calls ++ [FifoCall.push e mallocOk]).filterMap FifoCall.result := by
    rw [List.filterMap_append, tracks.results]
    rfl
  cases mallocOk with
  | false =>
      refine ⟨_, fifo, stepped, stands, counted false, results, ?_, tracks.ascending,
        fun e' inside => UInt64.le_of_lt (below e' inside)⟩
      rw [tracks.given, List.filterMap_append]
      exact (List.append_nil _).symm
  | true =>
      have number : (run.q.numbered e).seq = q.seqCounter := by
        rw [LinkedFifo.numbered, if_pos fresh, counter]
      have content : (run.q.numbered e).unnumbered = e := by
        rw [LinkedFifo.numbered, if_pos fresh, Event.unnumbered, ← fresh]
      refine ⟨_, fifo ++ [run.q.numbered e], stepped, stands, counted true, results, ?_, ?_, ?_⟩
      · rw [← List.append_assoc, List.map_append, tracks.given, List.map_singleton, content,
          List.filterMap_append]
        rfl
      · rw [← List.append_assoc, List.pairwise_append]
        refine ⟨tracks.ascending, List.pairwise_singleton _ _, ?_⟩
        intro e' inside last new
        rw [List.mem_singleton.mp new, number]
        exact below e' inside
      · intro e' inside
        rw [← List.append_assoc] at inside
        rcases List.mem_append.mp inside with old | new
        · exact UInt64.le_of_lt (below e' old)
        · rw [List.mem_singleton.mp new, number]
          exact UInt64.le_refl _

/-- A pop moves the first event over, or leaves everything as it is. -/
theorem Tracks.pop (tracks : run.Tracks calls fifo)
    : ∃ run' fifo', run.step .pop = .ok run' ∧ run'.Tracks (calls ++ [.pop]) fifo' := by
  have counted
      : (calls ++ [FifoCall.pop]).countP FifoCall.isPush = calls.countP FifoCall.isPush := by
    rw [List.countP_append]
    rfl
  have results
      : (calls ++ [FifoCall.pop]).filterMap FifoCall.result
        = calls.filterMap FifoCall.result := by
    rw [List.filterMap_append]
    exact List.append_nil _
  have stored
      : (calls ++ [FifoCall.pop]).filterMap FifoCall.stored
        = calls.filterMap FifoCall.stored := by
    rw [List.filterMap_append]
    exact List.append_nil _
  cases fifo with
  | nil =>
      refine ⟨run, [], ?_, tracks.stands, counted ▸ tracks.counter, results ▸ tracks.results,
        stored ▸ tracks.given, tracks.ascending, tracks.bounded⟩
      rw [step, LinkedFifo.popReady_nil tracks.stands]
      rfl
  | cons e fifo =>
      obtain ⟨q, popped, stands, counter⟩ := LinkedFifo.popReady_cons tracks.stands
      have moved : run.popped ++ [e] ++ fifo = run.popped ++ e :: fifo := by simp
      refine ⟨{ run with q := q, popped := run.popped ++ [e] }, fifo, ?_, stands, ?_,
        results ▸ tracks.results, ?_, ?_, ?_⟩
      · rw [step, popped]
        rfl
      · rw [counter, tracks.counter, counted]
      · rw [moved, tracks.given, stored]
      · rw [moved]
        exact tracks.ascending
      · rw [moved, counter]
        exact tracks.bounded

/-- Whole sequences of calls, by induction on those that are left. -/
theorem Tracks.steps (tracks : run.Tracks calls fifo) (later : List FifoCall)
    (fresh : ∀ call ∈ later, call.Fresh)
    (few : (calls ++ later).countP FifoCall.isPush < UInt64.size)
    : ∃ run' fifo', run.steps later = .ok run' ∧ run'.Tracks (calls ++ later) fifo' := by
  induction later generalizing run calls fifo with
  | nil => exact ⟨run, fifo, rfl, by rwa [List.append_nil]⟩
  | cons call later ih =>
      obtain ⟨fresh, freshLater⟩ := List.forall_mem_cons.mp fresh
      have one
          : ∃ run' fifo', run.step call = .ok run' ∧ run'.Tracks (calls ++ [call]) fifo' := by
        cases call with
        | push e mallocOk =>
            rw [List.countP_append, List.countP_cons_of_pos rfl] at few
            exact tracks.push fresh (by omega) mallocOk
        | pop => exact tracks.pop
      obtain ⟨middle, fifo', stepped, tracks'⟩ := one
      have joined : calls ++ call :: later = calls ++ [call] ++ later := by simp
      rw [joined] at few ⊢
      obtain ⟨run', fifo'', ran, final⟩ := ih tracks' freshLater few
      refine ⟨run', fifo'', ?_, final⟩
      rw [FifoRun.steps, bind_ok stepped]
      exact ran

/-- A push, numbered or not, leaves the head alone. -/
theorem push_keeps_head {e : Event} (stands : run.q.Stands (e :: fifo)) (e' : Event)
    (mallocOk : Bool)
    : ∃ run' fifo', run.step (.push e' mallocOk) = .ok run' ∧ run'.q.Stands (e :: fifo') := by
  obtain ⟨q, pushed, stands', counter⟩ := LinkedFifo.pushReady_stands stands e' mallocOk
  have head : ∃ fifo', q.Stands (e :: fifo') := by
    cases mallocOk with
    | false => exact ⟨fifo, stands'⟩
    | true => exact ⟨fifo ++ [run.q.numbered e'], stands'⟩
  obtain ⟨fifo', stands'⟩ := head
  exact ⟨{ run with q := q, results := _ }, fifo', by rw [step, pushed]; rfl, stands'⟩

/-- So do any number of pushes, by induction on them. -/
theorem pushes_keep_head {e : Event} (stands : run.q.Stands (e :: fifo))
    (pushes : List (Event × Bool))
    : ∃ run' fifo',
        run.steps (pushes.map (fun push => .push push.1 push.2)) = .ok run'
        ∧ run'.q.Stands (e :: fifo') := by
  induction pushes generalizing run fifo with
  | nil => exact ⟨run, fifo, rfl, stands⟩
  | cons push pushes ih =>
      obtain ⟨middle, fifo', stepped, stands'⟩ := push_keeps_head stands push.1 push.2
      obtain ⟨run', fifo'', ran, final⟩ := ih stands'
      refine ⟨run', fifo'', ?_, final⟩
      rw [List.map_cons, steps, bind_ok stepped]
      exact ran

end FifoRun

/-- Any sequence of calls on an initialised queue leaves the nodes of the events that were
pushed with memory and not popped, in their order and numbered upwards; every push returns
whether there was memory. What is seen at the head is the event of the first node and what the
next pop returns, whatever is pushed in between.
-/
theorem fifo_run (calls : List FifoCall) (fresh : ∀ call ∈ calls, call.Fresh)
    (few : calls.countP FifoCall.isPush < UInt64.size)
    : ∃ run nodes,
        FifoRun.init.steps calls = .ok run
        ∧ (run.q.nodes.head = none ↔ run.q.nodes.tail = none)
        ∧ run.q.nodes.Holds nodes
        ∧ run.results = calls.filterMap FifoCall.result
        ∧ (run.popped ++ nodes.map Prod.snd).map Event.unnumbered
          = calls.filterMap FifoCall.stored
        ∧ (nodes.map Prod.snd).Pairwise (fun a b => a.seq < b.seq)
        ∧ (∀ a ∈ run.popped, ∀ b ∈ nodes.map Prod.snd, a.seq < b.seq)
        ∧ run.q.peekFifo = .ok (nodes.map Prod.snd).head?
        ∧ ∀ e, run.q.peekFifo = .ok (some e) →
            ∀ pushes : List (Event × Bool),
              ∃ run' q',
                run.steps (pushes.map (fun push => .push push.1 push.2)) = .ok run'
                ∧ run'.q.popReady = .ok (some (e, q')) := by
  obtain ⟨run, fifo, ran, tracks⟩ := FifoRun.init_tracks.steps calls fresh few
  obtain ⟨nodes, holds, rfl⟩ := tracks.stands
  obtain ⟨_, ascending, later⟩ := List.pairwise_append.mp tracks.ascending
  have peeked := LinkedFifo.peekFifo_stands tracks.stands
  refine ⟨run, nodes, ran, holds.head_none_iff, holds, tracks.results, tracks.given, ascending,
    later, peeked, ?_⟩
  intro e seen pushes
  rw [peeked] at seen
  obtain ⟨rest, events⟩ := List.head?_eq_some_iff.mp (Except.ok.inj seen)
  obtain ⟨run', rest', pushed, stands⟩ :=
    FifoRun.pushes_keep_head (events ▸ tracks.stands) pushes
  obtain ⟨q', popped, _⟩ := LinkedFifo.popReady_cons stands
  exact ⟨run', q', pushed, popped⟩

/-- An event without a number, told from others by its payload. -/
def fifoSample (payload : Nat) : Event := { Event.zero with payload := payload }

/-- Of three pushes the second finds no memory; the first event is popped. -/
def fifoSampleCalls : List FifoCall :=
  [.push (fifoSample 1) true, .push (fifoSample 2) false, .push (fifoSample 3) true, .pop]

/-- Witness: the second push fails, the first event comes out with the number 1, and the third
stays with the number 3.
-/
theorem fifo_run_refused
    : ∃ run nodes,
        FifoRun.init.steps fifoSampleCalls = .ok run
        ∧ run.q.nodes.Holds nodes
        ∧ run.results = [0, -1, 0]
        ∧ run.popped = [{ fifoSample 1 with seq := 1 }]
        ∧ nodes.map Prod.snd = [{ fifoSample 3 with seq := 3 }]
        ∧ run.q.peekFifo = .ok (some { fifoSample 3 with seq := 3 }) := by
  obtain ⟨run, nodes, ran, _, holds, results, given, _, _, peeked, _⟩ :=
    fifo_run fifoSampleCalls (by simp [fifoSampleCalls, FifoCall.Fresh, fifoSample, Event.zero])
      (by decide)
  have popped : (FifoRun.init.steps fifoSampleCalls).map FifoRun.popped
      = .ok [{ fifoSample 1 with seq := 1 }] := rfl
  have head : (FifoRun.init.steps fifoSampleCalls).bind (fun run => run.q.peekFifo)
      = .ok (some { fifoSample 3 with seq := 3 }) := rfl
  rw [ran] at popped head
  have popped : run.popped = [{ fifoSample 1 with seq := 1 }] := Except.ok.inj popped
  have head : run.q.peekFifo = .ok (some { fifoSample 3 with seq := 3 }) := head
  refine ⟨run, nodes, ran, holds, results, popped, ?_, head⟩
  -- One event is left, the one that is seen at the head.
  obtain ⟨rest, left⟩ := List.head?_eq_some_iff.mp (Except.ok.inj (peeked.symm.trans head))
  have stored : fifoSampleCalls.filterMap FifoCall.stored = [fifoSample 1, fifoSample 3] := rfl
  have count := congrArg List.length (given.trans stored)
  simp only [popped, left, List.length_map, List.length_append, List.length_cons,
    List.length_nil] at count
  have none : rest = [] := List.length_eq_zero_iff.mp (by omega)
  rw [left, none]

end QKeySys.Core
