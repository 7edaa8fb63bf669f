import Mathlib.Logic.Function.Basic
import QKeySys.Library.Simulation

/-! Atomic objects: any number of clients call the operations of an object, and each operation
takes place at one moment between its call and its return. A system that shows its clients
nothing that an atomic object does not show them is linearizable.
-/

namespace QKeySys.Library

/-- What the clients see: one of them calls an operation, or gets its result. -/
inductive CallEvent (Op Result : Type*) where
  | call (i : Nat) (op : Op)
  | ret (i : Nat) (result : Result)
  deriving DecidableEq, Repr

/-- A client has called nothing, an operation that has not taken place, or one that has. -/
inductive Client (Op Result : Type*) where
  | idle
  | asked (op : Op)
  | answered (result : Result)
  deriving DecidableEq, Repr

/-- An object by its operations. Before an operation takes place, the object may prepare itself
for it; and it may have steps of its own that nobody calls.
-/
structure AtomicObject (State Op Result : Type*) where
  start : State
  prepare : State → Op → State → Prop
  perform : State → Op → Result → State → Prop
  own : State → State → Prop

/-- An object with its clients. -/
structure Served (State Op Result : Type*) where
  object : State
  clients : Nat → Client Op Result

namespace Served

variable {State Op Result : Type*} {s : Served State Op Result} {i j : Nat}
  {object : State} {client : Client Op Result}

/-- The object has changed, and client `i` goes on. -/
def go (s : Served State Op Result) (object : State) (i : Nat) (client : Client Op Result)
    : Served State Op Result :=
  ⟨object, Function.update s.clients i client⟩

theorem go_self : (s.go object i client).clients i = client := Function.update_self ..

theorem go_ne (other : j ≠ i) : (s.go object i client).clients j = s.clients j :=
  Function.update_of_ne other ..

/-- Only where the client is last counts. -/
theorem go_go (later : State) (client' : Client Op Result)
    : (s.go object i client).go later i client' = s.go later i client' :=
  congrArg (Served.mk later) (Function.update_idem ..)

/-- A client that stays where it is. -/
theorem go_same (object : State) (i : Nat)
    : s.go object i (s.clients i) = ⟨object, s.clients⟩ :=
  congrArg (Served.mk object) (Function.update_eq_self ..)

end Served

namespace AtomicObject

variable {State Op Result : Type*} {obj : AtomicObject State Op Result}
  {s : Served State Op Result} {i : Nat} {op : Op} {result : Result} {object : State}

/-- The steps of an object with its clients, and what each of them shows. A client that has
called an operation waits until that has taken place, once, and then gets its result.
-/
inductive Step (obj : AtomicObject State Op Result) (s : Served State Op Result)
    : List (CallEvent Op Result) → Served State Op Result → Prop where
  | call (i : Nat) (op : Op) (idle : s.clients i = .idle)
      : Step obj s [.call i op] (s.go s.object i (.asked op))
  | prepare (i : Nat) (op : Op) (object : State) (asked : s.clients i = .asked op)
      (prepared : obj.prepare s.object op object)
      : Step obj s [] ⟨object, s.clients⟩
  | perform (i : Nat) (op : Op) (result : Result) (object : State)
      (asked : s.clients i = .asked op) (performed : obj.perform s.object op result object)
      : Step obj s [] (s.go object i (.answered result))
  | own (object : State) (changed : obj.own s.object object)
      : Step obj s [] ⟨object, s.clients⟩
  | ret (i : Nat) (result : Result) (answered : s.clients i = .answered result)
      : Step obj s [.ret i result] (s.go s.object i .idle)

/-- The runs of an object with its clients; a step is labelled by what it shows. -/
def served (obj : AtomicObject State Op Result)
    : Lts (Served State Op Result) (List (CallEvent Op Result)) where
  init s := s = ⟨obj.start, fun _ => .idle⟩
  next := obj.Step

/-- The clients see the labels. -/
def shown (_ : Served State Op Result) (events : List (CallEvent Op Result))
    (_ : Served State Op Result) : List (CallEvent Op Result) :=
  events

/-- One step of the object as a trace. -/
theorem Step.trace {events : List (CallEvent Op Result)} {s' : Served State Op Result}
    (step : obj.Step s events s')
    : obj.served.Trace shown s events s' :=
  .single events s' step

/-- An operation takes place and its client gets the result at once. -/
theorem trace_answer (asked : s.clients i = .asked op)
    (performed : obj.perform s.object op result object)
    : obj.served.Trace shown s [.ret i result] (s.go object i .idle) := by
  have performs := Step.perform i op result object asked performed
  have returns : obj.Step (s.go object i (.answered result)) [.ret i result] _ :=
    .ret i result Served.go_self
  rw [Served.go_go] at returns
  exact performs.trace.trans returns.trace

end AtomicObject

end QKeySys.Library
