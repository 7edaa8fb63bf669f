import Mathlib.Data.Prod.Lex
import Mathlib.Data.Int.Order.Basic

/-! Events, roles and stages, the order of the wait heap, and the condition variables that
every later module passes around.
-/

namespace QKeySys.Core

/-- The event types; `other` is a value outside the enumeration, which the switches over
the type send to their default branch.
-/
inductive EventType where
  | deviceAuth
  | clockSync
  | keyRefill
  | other (code : Int)
  deriving DecidableEq, Repr

/-- The initiating side is `master`, the receiving side `slave`. -/
inductive EventDir where
  | master
  | slave
  deriving DecidableEq, Repr

inductive Stage where
  | pending
  | init
  | iwait
  | exec
  | done
  | abort
  deriving DecidableEq, Repr

inductive Role where
  | a
  | b
  deriving DecidableEq, Repr

/-- An event as it is queued and installed. `payload` is the address of the payload, 0 for
NULL. `id` is auxiliary: it numbers the insertions and no branch reads it.
-/
structure Event where
  type : EventType
  dir : EventDir
  priority : Int
  stage : Stage
  payload : Nat
  seq : UInt64
  id : Nat
  deriving DecidableEq, Repr

/-- The execution slot before the first install. All fields are zero there; `dir` has no
enumerator for zero, and nothing reads it before an install.
-/
def Event.zero : Event where
  type := .other 0
  dir := .master
  priority := 0
  stage := .pending
  payload := 0
  seq := 0
  id := 0

/-- Default priorities, the smaller number first. `inject.c` and `init_slave.c` each have
their own copy of this function.
-/
def priorityOf : EventType → Int
  | .deviceAuth => 1
  | .clockSync => 1
  | .keyRefill => 4
  | .other _ => 10

/-- Smaller priority first, then smaller sequence number. -/
def cmp (a b : Event) : Int :=
  if a.priority ≠ b.priority then
    if a.priority < b.priority then -1 else 1
  else if a.seq ≠ b.seq then
    if a.seq < b.seq then -1 else 1
  else
    0

namespace Event

/-- `a` is strictly ahead of `b` for `cmp`. -/
def before (a b : Event) : Bool := cmp a b < 0

/-- The value that `cmp` compares, in lexicographic order. -/
def key (event : Event) : ℤ ×ₗ ℕ := toLex (event.priority, event.seq.toNat)

theorem key_lt_iff {a b : Event}
    : a.key < b.key
      ↔ a.priority < b.priority ∨ (a.priority = b.priority ∧ a.seq < b.seq) := by
  simp only [key, Prod.Lex.toLex_lt_toLex, UInt64.lt_iff_toNat_lt]

theorem key_le_iff {a b : Event}
    : a.key ≤ b.key
      ↔ a.priority < b.priority ∨ (a.priority = b.priority ∧ a.seq ≤ b.seq) := by
  simp only [key, Prod.Lex.toLex_le_toLex, UInt64.le_iff_toNat_le]

/-- Before their counter wraps around, sequence numbers are in the order of the ids. -/
theorem seq_lt_iff {a b : Event} {n : Nat} (bound : n < UInt64.size)
    (numbered : a.seq = UInt64.ofNat a.id) (numbered' : b.seq = UInt64.ofNat b.id)
    (bounded : a.id ≤ n) (bounded' : b.id ≤ n)
    : a.seq < b.seq ↔ a.id < b.id := by
  rw [numbered, numbered', UInt64.lt_iff_toNat_lt,
    UInt64.toNat_ofNat_of_lt' (bounded.trans_lt bound),
    UInt64.toNat_ofNat_of_lt' (bounded'.trans_lt bound)]

/-- `cmp` ranks events by their keys, by cases on its two comparisons. -/
theorem before_iff (a b : Event) : a.before b = true ↔ a.key < b.key := by
  rw [key_lt_iff, before, decide_eq_true_iff, cmp]
  split_ifs with priority less seq earlier <;> grind

end Event

/-- A condition variable with a single waiter. `notified` says that it was signalled since
the waiter went to sleep; a signal with nobody asleep is erased by the next sleep.
-/
structure Cond where
  notified : Bool
  deriving DecidableEq, Repr

namespace Cond

def init : Cond := ⟨false⟩

/-- The waiter enters the wait and releases the mutex. -/
def wait (_ : Cond) : Cond := ⟨false⟩

def signal (_ : Cond) : Cond := ⟨true⟩

def broadcast (_ : Cond) : Cond := ⟨true⟩

end Cond

end QKeySys.Core
