import Mathlib.Logic.Function.Iterate
import QKeySys.KeyPool.KeyInfo
import QKeySys.Library.BlockMemory

/-! The dynamic array of keys over explicit memory, and what it means that it stands for a
list of keys.
-/

namespace QKeySys.KeyPool

open QKeySys.Library

-----------------------------------------------------------------------------------------
-- The world around the pool
-----------------------------------------------------------------------------------------

/-- What the environment decides: the readings of the clock and the outcomes of `realloc` and
of `pthread_create`, each by the number of the call, and the configuration that the gateway
delivers.
-/
structure Env where
  clock : Nat → Int
  grants : Nat → Bool
  creates : Nat → Bool
  defaultConfig : KeyConfig

/-- The memory of the keys, the numbers of calls so far and the number of initialised keys. -/
structure World where
  memory : BlockMemory KeyInfo
  readings : Nat
  reallocs : Nat
  creations : Nat
  serials : Nat

namespace World

def init : World where
  memory := .empty
  readings := 0
  reallocs := 0
  creations := 0
  serials := 0

/-- `NTPClient_GetCurrentTime` -/
def getCurrentTime (env : Env) (w : World) : Int × World :=
  (env.clock w.readings, { w with readings := w.readings + 1 })

/-- The number of bytes of `count * sizeof(KeyInfo)`, as a `size_t`. -/
def bytes (count : Int) : Nat := ((count * sizeofKeyInfo) % UInt64.size).toNat

/-- The next `realloc` of this many keys is granted; none is beyond `PTRDIFF_MAX`. -/
def grants (env : Env) (w : World) (count : Int) : Bool :=
  env.grants w.reallocs && bytes count ≤ ptrdiffMax

/-- `realloc(p, count * sizeof(KeyInfo))` -/
def realloc (env : Env) (w : World) (p : Pointer) (count : Int)
    : Except Fault (World × Pointer) :=
  (w.memory.realloc p (bytes count / sizeofKeyInfo) (w.grants env count)).map
    (fun (memory, p) => ({ w with memory := memory, reallocs := w.reallocs + 1 }, p))

end World

-----------------------------------------------------------------------------------------
-- The dynamic array
-----------------------------------------------------------------------------------------

structure KeyInfoList where
  data : Pointer
  size : Int
  capacity : Int
  deriving DecidableEq

namespace KeyInfoList

/-- `KeyInfoList_Init` -/
def init : KeyInfoList where
  data := none
  size := 0
  capacity := 0

/-- The last two lines of `KeyInfoList_Add`: the store behind the last element. -/
def append (w : World) (list : KeyInfoList) (key : KeyInfo)
    : Except Fault (World × KeyInfoList × Int) :=
  (w.memory.store list.data list.size key).map
    (fun memory => ({ w with memory := memory }, { list with size := list.size + 1 }, 0))

/-- The capacity that a full array grows to. -/
def nextCapacity (list : KeyInfoList) : Int :=
  if list.capacity = 0 then 4 else int32 (list.capacity * 2)

/-- `KeyInfoList_Add`: a full array is doubled, from 4 elements on. -/
def add (env : Env) (w : World) (list : KeyInfoList) (key : KeyInfo)
    : Except Fault (World × KeyInfoList × Int) :=
  if list.size ≥ list.capacity then
    (w.realloc env list.data list.nextCapacity).bind (fun (w, newData) =>
      match newData with
      | none => .ok (w, list, -1)
      | some a => append w { list with data := some a, capacity := list.nextCapacity } key)
  else
    append w list key

/-- `KeyInfoList_Free` -/
def free (w : World) (list : KeyInfoList) : Except Fault (World × KeyInfoList) :=
  (w.memory.free list.data).map (fun memory => ({ w with memory := memory }, init))

end KeyInfoList

-----------------------------------------------------------------------------------------
-- The room of an array
-----------------------------------------------------------------------------------------

/-- The numbers that decide whether an array takes an element: its size and capacity, and the
number of the next `realloc`.
-/
structure Room where
  size : Int
  capacity : Int
  reallocs : Nat
  deriving DecidableEq, Repr

def KeyInfoList.room (w : World) (list : KeyInfoList) : Room where
  size := list.size
  capacity := list.capacity
  reallocs := w.reallocs

namespace Room

def nextCapacity (r : Room) : Int :=
  if r.capacity = 0 then 4 else int32 (r.capacity * 2)

/-- The next `realloc` of this many keys is granted. -/
def grants (env : Env) (r : Room) (count : Int) : Bool :=
  env.grants r.reallocs && World.bytes count ≤ ptrdiffMax

/-- An array takes one more element when it has room or can grow. -/
def takes (env : Env) (r : Room) : Bool := r.size < r.capacity || r.grants env r.nextCapacity

/-- The room after one more element was offered. -/
def after (env : Env) (r : Room) : Room :=
  if r.size < r.capacity then { r with size := r.size + 1 }
  else if r.grants env r.nextCapacity then ⟨r.size + 1, r.nextCapacity, r.reallocs + 1⟩
  else { r with reallocs := r.reallocs + 1 }

/-- The room before element `i` of a sequence that is offered. -/
def before (env : Env) (r : Room) (i : Nat) : Room := (after env)^[i] r

/-- All of `n` elements that are offered are taken. -/
def takesAll (env : Env) (r : Room) (n : Nat) : Prop :=
  ∀ i, i < n → (r.before env i).takes env = true

instance (env : Env) (r : Room) (n : Nat) : Decidable (r.takesAll env n) :=
  inferInstanceAs (Decidable (∀ i, i < n → _))

/-- None of `n` elements that are offered is taken: the array is full all the time, and one
`realloc` after the other is refused.
-/
def refusesAll (env : Env) (r : Room) (n : Nat) : Prop :=
  ∀ i, i < n → Room.takes env { r with reallocs := r.reallocs + i } = false

instance (env : Env) (r : Room) (n : Nat) : Decidable (r.refusesAll env n) :=
  inferInstanceAs (Decidable (∀ i, i < n → _))

/-- The elements that are taken of those that are offered in a row. -/
def accepted (env : Env) : Room → List KeyInfo → List KeyInfo
  | _, [] => []
  | r, key :: rest =>
      if r.takes env then key :: accepted env (r.after env) rest
      else accepted env (r.after env) rest

/-- The room of an empty array. -/
def empty (reallocs : Nat) : Room := ⟨0, 0, reallocs⟩

/-- The room after the array was cut down to `n` elements, and given a block for them when
there are any and `realloc` grants it.
-/
def shrink (env : Env) (r : Room) (n : Int) : Room :=
  if n < r.size then ⟨n, if n ≠ 0 ∧ r.grants env n then n else r.capacity, r.reallocs + 1⟩
  else r

variable {env : Env} {r : Room}

/-- An element is refused exactly by a full array whose `realloc` is refused. -/
theorem takes_eq_false
    : r.takes env = false ↔ r.capacity ≤ r.size ∧ r.grants env r.nextCapacity = false := by
  simp [takes]

@[simp]
theorem before_zero : r.before env 0 = r := rfl

theorem before_succ (i : Nat) : r.before env (i + 1) = (r.before env i).after env :=
  Function.iterate_succ_apply' (after env) i r

theorem after_before (i : Nat) : (r.after env).before env i = r.before env (i + 1) := rfl

theorem takesAll_succ {n : Nat}
    : r.takesAll env (n + 1) ↔ r.takesAll env n ∧ (r.before env n).takes env = true := by
  constructor
  · exact fun all => ⟨fun i less => all i (Nat.lt_succ_of_lt less), all n (Nat.lt_succ_self n)⟩
  · rintro ⟨all, last⟩ i less
    rcases Nat.lt_succ_iff_lt_or_eq.mp less with earlier | rfl
    · exact all i earlier
    · exact last

theorem accepted_sublist (keys : List KeyInfo) : (r.accepted env keys).Sublist keys := by
  induction keys generalizing r with
  | nil => exact .slnil
  | cons key rest ih =>
      rw [accepted]
      split
      case isTrue => exact ih.cons_cons key
      case isFalse => exact ih.cons key

/-- One more element is offered behind the others, by induction on those. -/
theorem accepted_concat (keys : List KeyInfo) (key : KeyInfo)
    : r.accepted env (keys ++ [key])
      = r.accepted env keys ++ if (r.before env keys.length).takes env then [key] else [] := by
  induction keys generalizing r with
  | nil => rfl
  | cons first rest ih =>
      simp only [List.cons_append, accepted, ih, after_before, List.length_cons]
      split <;> rfl

/-- All elements are taken exactly when each of them is, by induction on their list. -/
theorem accepted_eq_self {keys : List KeyInfo}
    : r.accepted env keys = keys ↔ r.takesAll env keys.length := by
  induction keys generalizing r with
  | nil => simp [accepted, takesAll]
  | cons key rest ih =>
      have split : r.takesAll env (rest.length + 1)
          ↔ r.takes env = true ∧ (r.after env).takesAll env rest.length := by
        constructor
        · exact fun all => ⟨all 0 (Nat.succ_pos _), fun i less => all (i + 1) (by omega)⟩
        · rintro ⟨first, later⟩ i less
          cases i with
          | zero => exact first
          | succ i => exact later i (by omega)
      rw [List.length_cons, split, accepted, ← ih]
      by_cases taken : r.takes env = true
      · simp [taken]
      · -- One element fewer is not the same list.
        have fewer : ((r.after env).accepted env rest).length ≤ rest.length :=
          (accepted_sublist rest).length_le
        rw [if_neg taken]
        refine iff_of_false (fun same => ?_) (fun both => taken both.1)
        have length := congrArg List.length same
        simp only [List.length_cons] at length
        omega

/-- No element is taken exactly when each of them is refused, by induction on their list. -/
theorem accepted_eq_nil {keys : List KeyInfo}
    : r.accepted env keys = [] ↔ r.refusesAll env keys.length := by
  induction keys generalizing r with
  | nil => simp [accepted, refusesAll]
  | cons key rest ih =>
      by_cases taken : r.takes env = true
      · rw [accepted, if_pos taken]
        refine iff_of_false (by simp) (fun none => ?_)
        have first : r.takes env = false := none 0 (Nat.succ_pos _)
        cases taken.symm.trans first
      · obtain ⟨full, denied⟩ := takes_eq_false.mp (Bool.eq_false_iff.mpr taken)
        have after : r.after env = { r with reallocs := r.reallocs + 1 } := by
          rw [Room.after, if_neg (Int.not_lt.mpr full), if_neg (by simp [denied])]
        rw [accepted, if_neg taken, ih, after]
        constructor
        · intro later i less
          cases i with
          | zero => exact Bool.eq_false_iff.mpr taken
          | succ i =>
              have refused := later i (Nat.lt_of_succ_lt_succ less)
              rwa [Nat.add_right_comm] at refused
        · intro none i less
          have refused := none (i + 1) (Nat.succ_lt_succ less)
          rwa [← Nat.add_assoc, Nat.add_right_comm] at refused

end Room

namespace KeyInfoList

-----------------------------------------------------------------------------------------
-- The list of keys behind the array
-----------------------------------------------------------------------------------------

variable {env : Env} {w : World} {list : KeyInfoList} {keys : List KeyInfo}

/-- The array is well formed: the size is between zero and the capacity, there is no block
exactly when the capacity is zero, and otherwise a live block with room for the capacity.
-/
structure WellFormed (memory : BlockMemory KeyInfo) (list : KeyInfoList) : Prop where
  nonneg : 0 ≤ list.size
  fits : list.size ≤ list.capacity
  isInt : list.capacity ≤ intMax
  null : list.data = none ↔ list.capacity = 0
  live
    : ∀ a, list.data = some a →
        ∃ cells, memory.block a = some cells ∧ list.capacity ≤ cells.length

/-- The array is well formed and its elements are the given keys. -/
structure Represents (memory : BlockMemory KeyInfo) (list : KeyInfoList)
    (keys : List KeyInfo) : Prop where
  wellFormed : list.WellFormed memory
  size : list.size = keys.length
  contents
    : ∀ (a : Nat) (cells : List (Option KeyInfo)), list.data = some a →
        memory.block a = some cells →
        ∀ (i : Nat) (key : KeyInfo), keys[i]? = some key → cells[i]? = some (some key)

theorem init_represents (memory : BlockMemory KeyInfo) : init.Represents memory [] := by
  constructor
  case wellFormed => constructor <;> simp [init]
  all_goals simp [init]

/-- The block of an array with room or with elements, and what is known about it. -/
theorem Represents.block {memory : BlockMemory KeyInfo} (now : list.Represents memory keys)
    (some_room : 0 < list.capacity)
    : ∃ a cells, list.data = some a ∧ memory.block a = some cells
        ∧ list.capacity ≤ cells.length
        ∧ ∀ (i : Nat) (key : KeyInfo), keys[i]? = some key → cells[i]? = some (some key) := by
  cases data : list.data with
  | none =>
      have empty := now.wellFormed.null.mp data
      omega
  | some a =>
      obtain ⟨cells, live, room⟩ := now.wellFormed.live a data
      exact ⟨a, cells, rfl, live, room, now.contents a cells data live⟩

/-- An array whose block was not touched still stands for its keys. -/
theorem Represents.frame {memory memory' : BlockMemory KeyInfo}
    (now : list.Represents memory keys) {p p' : Pointer}
    (touches : BlockMemory.Touches memory memory' p p')
    (other : ∀ a, list.data = some a → some a ≠ p)
    : list.Represents memory' keys where
  wellFormed := {
    now.wellFormed with
    live := fun a data => by
      obtain ⟨cells, live, room⟩ := now.wellFormed.live a data
      exact ⟨cells, touches.live live (other a data), room⟩
  }
  size := now.size
  contents := by
    intro a cells data live
    obtain ⟨cells', live', -⟩ := now.wellFormed.live a data
    obtain rfl := Option.some.inj ((touches.live live' (other a data)).symm.trans live)
    exact now.contents a cells' data live'

/-- The array has no elements and still points to a block that was released. -/
structure Released (memory : BlockMemory KeyInfo) (list : KeyInfoList) : Prop where
  size : list.size = 0
  room : 0 < list.capacity
  gone : ∃ a, list.data = some a ∧ a < memory.next ∧ memory.block a = none

theorem Released.not_wellFormed {memory : BlockMemory KeyInfo} (now : list.Released memory)
    : ¬ list.WellFormed memory := by
  intro wellFormed
  obtain ⟨a, data, -, gone⟩ := now.gone
  obtain ⟨cells, live, -⟩ := wellFormed.live a data
  cases gone.symm.trans live

/-- A released block stays released when only other blocks are touched. -/
theorem Released.frame {memory memory' : BlockMemory KeyInfo} (now : list.Released memory)
    {p p' : Pointer} (touches : BlockMemory.Touches memory memory' p p')
    (other : list.data ≠ p)
    : list.Released memory' where
  size := now.size
  room := now.room
  gone := by
    obtain ⟨a, data, used, gone⟩ := now.gone
    exact ⟨a, data, Nat.lt_of_lt_of_le used touches.next,
      (touches.others a used (data ▸ other)).trans gone⟩

-----------------------------------------------------------------------------------------
-- What the operations do to an array that stands for a list
-----------------------------------------------------------------------------------------

/-- Doubling a capacity either stays an `int` or turns negative. -/
theorem int32_double {c : Int} (positive : 0 < c) (isInt : c ≤ intMax)
    : (int32 (c * 2) = c * 2 ∧ c * 2 ≤ intMax)
      ∨ (int32 (c * 2) < 0 ∧ -intMax ≤ int32 (c * 2) + 1) := by
  have range : (UInt32.size : Int) = 4294967296 := rfl
  have max : intMax = 2147483647 := rfl
  rw [int32, Int.bmod_def, range]
  split <;> omega

/-- An array length that an `int` can hold is the length of its block. -/
theorem bytes_of_nonneg {n : Int} (nonneg : 0 ≤ n) (isInt : n ≤ intMax)
    : World.bytes n ≤ ptrdiffMax ∧ World.bytes n / sizeofKeyInfo = n.toNat := by
  have size : sizeofKeyInfo = 208 := rfl
  have max : intMax = 2147483647 := rfl
  have range : (UInt64.size : Int) = 18446744073709551616 := rfl
  have small : n * (208 : Nat) % UInt64.size = n * 208 :=
    Int.emod_eq_of_lt (by omega) (by omega)
  rw [World.bytes, size, small, ptrdiffMax]
  omega

/-- A negative length asks for more than any block can have. -/
theorem bytes_of_neg {n : Int} (neg : n < 0) (isInt : -intMax ≤ n + 1)
    : ¬ World.bytes n ≤ ptrdiffMax ∧ World.bytes n / sizeofKeyInfo ≠ 0 := by
  have size : sizeofKeyInfo = 208 := rfl
  have max : intMax = 2147483647 := rfl
  have range : (UInt64.size : Int) = 18446744073709551616 := rfl
  have wrapped : n * (208 : Nat) % UInt64.size = n * 208 + UInt64.size := by
    rw [← Int.add_emod_right]
    exact Int.emod_eq_of_lt (by omega) (by omega)
  rw [World.bytes, size, wrapped, ptrdiffMax]
  omega

/-- The calls that an operation on an array leaves alone. -/
structure SameCalls (w w' : World) : Prop where
  readings : w'.readings = w.readings
  creations : w'.creations = w.creations
  serials : w'.serials = w.serials

theorem SameCalls.refl (w : World) : SameCalls w w := ⟨rfl, rfl, rfl⟩

theorem SameCalls.trans {w w' w'' : World} (first : SameCalls w w') (second : SameCalls w' w'')
    : SameCalls w w'' :=
  ⟨second.readings.trans first.readings, second.creations.trans first.creations,
    second.serials.trans first.serials⟩

/-- Storing behind the last element of an array with room. -/
theorem Represents.append (now : list.Represents w.memory keys) (key : KeyInfo)
    (room : list.size < list.capacity)
    : ∃ w' list',
        KeyInfoList.append w list key = .ok (w', list', 0) ∧ SameCalls w w'
        ∧ BlockMemory.Touches w.memory w'.memory list.data list'.data
        ∧ list'.room w' = ⟨list.size + 1, list.capacity, w.reallocs⟩
        ∧ list'.Represents w'.memory (keys ++ [key]) := by
  have size := now.size
  obtain ⟨a, cells, data, live, long, contents⟩ :=
    now.block (Int.lt_of_le_of_lt now.wellFormed.nonneg room)
  have inside : keys.length < cells.length := by omega
  have used := BlockMemory.lt_next live
  have stored : KeyInfoList.append w list key = .ok (
      { w with memory := w.memory.update a (some (cells.set keys.length (some key))) },
      { list with size := list.size + 1 }, 0) := by
    rw [KeyInfoList.append, data, size, BlockMemory.store_live live inside]
    rfl
  refine ⟨_, _, stored, ⟨rfl, rfl, rfl⟩, ?_, rfl, ?_⟩
  · rw [data]
    exact BlockMemory.update_touches used _
  · constructor
    case wellFormed =>
      refine ⟨?_, ?_, now.wellFormed.isInt, now.wellFormed.null, fun b same => ?_⟩
      · exact Int.le_trans now.wellFormed.nonneg (Int.le_of_lt (Int.lt_succ _))
      · exact room
      · obtain rfl := Option.some.inj (data.symm.trans same)
        exact ⟨_, by rw [BlockMemory.update_block used, if_pos rfl], by simpa using long⟩
    case size => simp [size]
    case contents =>
      intro b cells' same live'
      obtain rfl := Option.some.inj (data.symm.trans same)
      rw [BlockMemory.update_block used, if_pos rfl] at live'
      obtain rfl := Option.some.inj live'
      intro i other found
      rw [List.getElem?_set]
      split
      case isTrue last =>
        subst last
        simp at found
        simp [found]
      case isFalse earlier =>
        have before : i < keys.length := by
          have inside := (List.getElem?_eq_some_iff.mp found).1
          simp only [List.length_append, List.length_singleton] at inside
          omega
        rw [List.getElem?_append_left before] at found
        exact contents i other found

/-- A `realloc` to another capacity that holds all elements is refused and changes nothing,
or moves the elements to a block of that capacity.
-/
theorem Represents.realloc (env : Env) (now : list.Represents w.memory keys) {n : Int}
    (positive : 0 < n) (isInt : n ≤ intMax) (holds : list.size ≤ n)
    : (∃ w', w.realloc env list.data n = .ok (w', none) ∧ SameCalls w w'
        ∧ w'.reallocs = w.reallocs + 1 ∧ w'.memory = w.memory ∧ w.grants env n = false)
      ∨ ∃ w' a, w.realloc env list.data n = .ok (w', some a) ∧ SameCalls w w'
          ∧ w'.reallocs = w.reallocs + 1 ∧ w.grants env n = true
          ∧ BlockMemory.Touches w.memory w'.memory list.data (some a)
          ∧ KeyInfoList.Represents w'.memory
              { list with data := some a, capacity := n } keys := by
  obtain ⟨small, length⟩ := bytes_of_nonneg (Int.le_of_lt positive) isInt
  have some_length : n.toNat ≠ 0 := by omega
  have wellFormed {memory : BlockMemory KeyInfo} {a : Nat} {cells : List (Option KeyInfo)}
      (live : memory.block a = some cells) (long : n ≤ cells.length)
      : WellFormed memory { list with data := some a, capacity := n } := by
    refine ⟨now.wellFormed.nonneg, holds, isInt, by simp; omega, fun b same => ?_⟩
    obtain rfl := Option.some.inj same
    exact ⟨cells, live, long⟩
  rw [World.realloc, length]
  cases granted : w.grants env n with
  | false =>
      refine .inl ⟨{ w with reallocs := w.reallocs + 1 }, ?_, ⟨rfl, rfl, rfl⟩, rfl, rfl, rfl⟩
      cases data : list.data with
      | none => simp [BlockMemory.realloc, Except.map]
      | some a =>
          obtain ⟨cells, live, -⟩ := now.wellFormed.live a data
          rw [BlockMemory.realloc_refused live some_length]
          rfl
  | true =>
      cases data : list.data with
      | none =>
          have empty : keys = [] := by
            have capacity := now.wellFormed.null.mp data
            have fits := now.wellFormed.fits
            have size := now.size
            exact List.length_eq_zero_iff.mp (by omega)
          refine .inr ⟨{
            w with
            memory := w.memory.extend (BlockMemory.resize [] n.toNat)
            reallocs := w.reallocs + 1
          }, w.memory.next, ?_, ⟨rfl, rfl, rfl⟩, rfl, rfl, BlockMemory.alloc_touches, ?_⟩
          · simp [BlockMemory.realloc, Except.map, some_length]
          · have block : (w.memory.extend (BlockMemory.resize [] n.toNat)).block w.memory.next
                = some (BlockMemory.resize [] n.toNat) := by simp
            refine ⟨wellFormed block ?_, now.size, by simp [empty]⟩
            rw [BlockMemory.resize_length]
            omega
      | some a =>
          obtain ⟨cells, live, room⟩ := now.wellFormed.live a data
          have used := BlockMemory.lt_next live
          refine .inr ⟨{
            w with
            memory := (w.memory.update a none).extend (BlockMemory.resize cells n.toNat)
            reallocs := w.reallocs + 1
          }, w.memory.next, ?_, ⟨rfl, rfl, rfl⟩, rfl, rfl, BlockMemory.extend_touches used, ?_⟩
          · rw [BlockMemory.realloc_granted live some_length]
            rfl
          · have block : ((w.memory.update a none).extend
                (BlockMemory.resize cells n.toNat)).block w.memory.next
                = some (BlockMemory.resize cells n.toNat) := by simp
            have long : n ≤ (BlockMemory.resize cells n.toNat).length := by
              rw [BlockMemory.resize_length]
              omega
            refine ⟨wellFormed block long, now.size, ?_⟩
            intro b cells' same live' i key found
            obtain rfl := Option.some.inj same
            have live' := Option.some.inj (block.symm.trans live')
            have written := now.contents a cells data live i key found
            have inside : i < keys.length := (List.getElem?_eq_some_iff.mp found).1
            have within : i < cells.length := (List.getElem?_eq_some_iff.mp written).1
            have size := now.size
            rw [← live', BlockMemory.resize_getElem? (by omega) within]
            exact written

/-- The next capacity makes room, or it does not fit into an `int`. -/
theorem WellFormed.nextCapacity {memory : BlockMemory KeyInfo} (now : list.WellFormed memory)
    (full : list.capacity ≤ list.size)
    : (0 < list.nextCapacity ∧ list.nextCapacity ≤ intMax ∧ list.size < list.nextCapacity)
      ∨ (list.nextCapacity < 0 ∧ -intMax ≤ list.nextCapacity + 1 ∧ list.capacity ≠ 0) := by
  have nonneg := now.nonneg
  have fits := now.fits
  have isInt := now.isInt
  unfold KeyInfoList.nextCapacity
  split
  case isTrue empty =>
    have max : intMax = 2147483647 := rfl
    omega
  case isFalse some_capacity =>
    rcases int32_double (c := list.capacity) (by omega) isInt with ⟨same, small⟩ | ⟨neg, low⟩
    · rw [same]
      omega
    · exact .inr ⟨neg, low, some_capacity⟩

/-- A negative capacity is refused. -/
theorem WellFormed.realloc_neg (now : list.WellFormed w.memory) {n : Int} (neg : n < 0)
    (isInt : -intMax ≤ n + 1) (some_capacity : list.capacity ≠ 0)
    : ∃ w', w.realloc env list.data n = .ok (w', none) ∧ SameCalls w w'
        ∧ w'.reallocs = w.reallocs + 1 ∧ w'.memory = w.memory ∧ w.grants env n = false := by
  obtain ⟨large, some_length⟩ := bytes_of_neg neg isInt
  have refused : w.grants env n = false := by
    rw [World.grants, decide_eq_false large, Bool.and_false]
  refine ⟨{ w with reallocs := w.reallocs + 1 }, ?_, ⟨rfl, rfl, rfl⟩, rfl, rfl, refused⟩
  cases data : list.data with
  | none => exact absurd (now.null.mp data) some_capacity
  | some a =>
      obtain ⟨cells, live, -⟩ := now.live a data
      rw [World.realloc, refused, BlockMemory.realloc_refused live some_length]
      rfl

/-- Growing a full array makes room, or is refused and changes nothing. -/
theorem Represents.grow (now : list.Represents w.memory keys) (full : list.capacity ≤ list.size)
    : (∃ w', w.realloc env list.data list.nextCapacity = .ok (w', none) ∧ SameCalls w w'
        ∧ w'.reallocs = w.reallocs + 1 ∧ w'.memory = w.memory
        ∧ w.grants env list.nextCapacity = false)
      ∨ ∃ w' a, w.realloc env list.data list.nextCapacity = .ok (w', some a)
          ∧ SameCalls w w' ∧ w'.reallocs = w.reallocs + 1
          ∧ w.grants env list.nextCapacity = true
          ∧ BlockMemory.Touches w.memory w'.memory list.data (some a)
          ∧ KeyInfoList.Represents w'.memory
              { list with data := some a, capacity := list.nextCapacity } keys
          ∧ list.size < list.nextCapacity := by
  rcases now.wellFormed.nextCapacity full with
    ⟨positive, isInt, larger⟩ | ⟨neg, low, some_capacity⟩
  · refine (now.realloc env positive isInt (Int.le_of_lt larger)).imp_right ?_
    rintro ⟨w', a, moved, calls, counted, granted, touches, represents⟩
    exact ⟨w', a, moved, calls, counted, granted, touches, represents, larger⟩
  · exact .inl (now.wellFormed.realloc_neg neg low some_capacity)

/-- `KeyInfoList_Add` appends the key, or reports that the array could not grow. -/
theorem Represents.add (env : Env) (now : list.Represents w.memory keys) (key : KeyInfo)
    : ∃ w' list' result,
        KeyInfoList.add env w list key = .ok (w', list', result) ∧ SameCalls w w'
        ∧ BlockMemory.Touches w.memory w'.memory list.data list'.data
        ∧ list'.room w' = (list.room w).after env
        ∧ (((list.room w).takes env = true ∧ result = 0
            ∧ list'.Represents w'.memory (keys ++ [key]))
          ∨ ((list.room w).takes env = false ∧ result = -1 ∧ w'.memory = w.memory
            ∧ list' = list)) := by
  unfold KeyInfoList.add
  split
  case isFalse room =>
    have room : list.size < list.capacity := by omega
    obtain ⟨w', list', stored, calls, touches, after, represents⟩ := now.append key room
    refine ⟨w', list', 0, stored, calls, touches, ?_, .inl ⟨?_, rfl, represents⟩⟩
    · have there : (list.room w).size < (list.room w).capacity := room
      rw [after, Room.after, if_pos there]
      rfl
    · simp [Room.takes, KeyInfoList.room, room]
  case isTrue full =>
    have noRoom : ¬ (list.room w).size < (list.room w).capacity := Int.not_lt.mpr full
    rcases now.grow full with ⟨w', refused, calls, counted, same, denied⟩
      | ⟨w', a, moved, calls, counted, granted, touches, now', room⟩
    · have denied : (list.room w).grants env (list.room w).nextCapacity = false := denied
      refine ⟨w', list, -1, by rw [refused]; rfl, calls, ?_, ?_,
        .inr ⟨Room.takes_eq_false.mpr ⟨full, denied⟩, rfl, same, rfl⟩⟩
      · rw [same]
        exact .refl _ _
      · rw [Room.after, if_neg noRoom, if_neg (by simp [denied]), KeyInfoList.room, counted]
        rfl
    · have granted : (list.room w).grants env (list.room w).nextCapacity = true := granted
      obtain ⟨w'', list', stored, calls', touches', after, represents⟩ := now'.append key room
      refine ⟨w'', list', 0, by rw [moved]; exact stored, calls.trans calls',
        touches.trans touches', ?_, .inl ⟨by simp [Room.takes, granted], rfl, represents⟩⟩
      rw [after, Room.after, if_neg noRoom, if_pos granted, counted]
      rfl

/-- `KeyInfoList_Free` releases the block and leaves an empty array. -/
theorem WellFormed.free (now : list.WellFormed w.memory)
    : ∃ w', KeyInfoList.free w list = .ok (w', init) ∧ SameCalls w w'
        ∧ BlockMemory.Touches w.memory w'.memory list.data none := by
  cases data : list.data with
  | none =>
      refine ⟨w, ?_, .refl w, .refl _ _⟩
      rw [KeyInfoList.free, data]
      rfl
  | some a =>
      obtain ⟨cells, live, -⟩ := now.live a data
      have touches := BlockMemory.update_touches (BlockMemory.lt_next live) none
      refine ⟨{ w with memory := w.memory.update a none }, ?_, ⟨rfl, rfl, rfl⟩, ?_⟩
      · rw [KeyInfoList.free, data, BlockMemory.free_live live]
        rfl
      · exact ⟨touches.next, touches.others, .inr (by simp)⟩

/-- Reading an element. -/
theorem Represents.load (now : list.Represents w.memory keys) {i : Nat} {key : KeyInfo}
    (found : keys[i]? = some key)
    : w.memory.load list.data i = .ok key := by
  have inside : i < keys.length := (List.getElem?_eq_some_iff.mp found).1
  have size := now.size
  have fits := now.wellFormed.fits
  obtain ⟨a, cells, data, live, -, contents⟩ := now.block (by omega)
  rw [data]
  exact BlockMemory.load_live live (contents i key found)

/-- Overwriting an element. -/
theorem Represents.store (now : list.Represents w.memory keys) {i : Nat}
    (inside : i < keys.length) (key : KeyInfo)
    : ∃ memory, w.memory.store list.data i key = .ok memory
        ∧ BlockMemory.Touches w.memory memory list.data list.data
        ∧ list.Represents memory (keys.set i key) := by
  have size := now.size
  have fits := now.wellFormed.fits
  obtain ⟨a, cells, data, live, long, contents⟩ := now.block (by omega)
  have used := BlockMemory.lt_next live
  have within : i < cells.length := by omega
  refine ⟨_, by rw [data]; exact BlockMemory.store_live live within key, ?_, ?_⟩
  · rw [data]
    exact BlockMemory.update_touches used _
  · constructor
    case wellFormed =>
      refine { now.wellFormed with live := fun b same => ?_ }
      obtain rfl := Option.some.inj (data.symm.trans same)
      exact ⟨_, by rw [BlockMemory.update_block used, if_pos rfl], by simpa using long⟩
    case size => simpa using size
    case contents =>
      intro b cells' same live' j other found
      obtain rfl := Option.some.inj (data.symm.trans same)
      rw [BlockMemory.update_block used, if_pos rfl] at live'
      obtain rfl := Option.some.inj live'
      rw [List.getElem?_set] at found ⊢
      split at found
      case isTrue same => simp_all
      case isFalse other' =>
        rw [if_neg other']
        exact contents j other found

/-- Nothing is stored into a released block, and it is not released again. -/
theorem Released.add (now : list.Released w.memory) (key : KeyInfo)
    : KeyInfoList.add env w list key = .error .released := by
  obtain ⟨a, data, -, gone⟩ := now.gone
  have room : ¬ list.size ≥ list.capacity := by
    have size := now.size
    have room := now.room
    omega
  rw [KeyInfoList.add, if_neg room, KeyInfoList.append, data,
    BlockMemory.store_released gone]
  rfl

theorem Released.free (now : list.Released w.memory)
    : KeyInfoList.free w list = .error .released := by
  obtain ⟨a, data, -, gone⟩ := now.gone
  rw [KeyInfoList.free, data, BlockMemory.free_released gone]
  rfl

/-- Giving up the last elements. -/
theorem Represents.take {memory : BlockMemory KeyInfo} (now : list.Represents memory keys)
    {n : Nat} (less : n ≤ keys.length)
    : KeyInfoList.Represents memory { list with size := n } (keys.take n) where
  wellFormed := {
    now.wellFormed with
    nonneg := by simp
    fits := by
      have size := now.size
      have fits := now.wellFormed.fits
      simp only
      omega
  }
  size := by simp [less]
  contents a cells data live i key found := by
    rw [List.getElem?_take] at found
    split at found
    case isTrue => exact now.contents a cells data live i key found
    case isFalse => cases found

end KeyInfoList

end QKeySys.KeyPool
