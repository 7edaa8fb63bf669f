import QKeySys.Core.Event
import QKeySys.Library.BinaryHeap

/-! The wait heap of MASTER events, as an array heap that carries its own order. -/

namespace QKeySys.Core

open QKeySys.Library

/-- The wait heap: the first `wait_size` array entries and the allocated capacity. -/
structure WaitHeap where
  entries : Array Event
  cap : Nat
  ordered : BinaryHeap.Ordered Event.key entries
  fits : entries.size ≤ cap

namespace WaitHeap

def empty : WaitHeap where
  entries := #[]
  cap := 0
  ordered := by simp [BinaryHeap.Ordered]
  fits := Nat.le_refl 0

def size (heap : WaitHeap) : Nat := heap.entries.size

/-- The stored events in array order. -/
def events (heap : WaitHeap) : List Event := heap.entries.toList

@[simp]
theorem empty_events : empty.events = [] := rfl

theorem size_eq (heap : WaitHeap) : heap.size = heap.events.length := by
  simp [size, events]

def heapUp (h : Array Event) (idx : Nat) : Array Event :=
  BinaryHeap.siftUp Event.before h idx

def heapDown (h : Array Event) (idx : Nat) : Array Event :=
  BinaryHeap.siftDown Event.before h idx

/-- Appending and sifting up is the library's insertion. -/
theorem heapUp_push (heap : WaitHeap) (e : Event)
    : heapUp (heap.entries.push e) heap.size
      = BinaryHeap.push Event.before heap.entries e := by
  rw [heapUp, BinaryHeap.push, size]

/-- Writes the event behind the last entry of a heap with room and sifts it up. -/
def store (heap : WaitHeap) (e : Event) (cap : Nat) (room : heap.size + 1 ≤ cap)
    : WaitHeap where
  entries := heapUp (heap.entries.push e) heap.size
  cap := cap
  ordered := by
    rw [heapUp_push]
    exact BinaryHeap.push_ordered Event.before_iff heap.ordered e
  fits := by
    rw [heapUp_push, BinaryHeap.push_size]
    exact room

/-- The capacity that a full array grows to. -/
def nextCap (heap : WaitHeap) : Nat := if heap.cap ≠ 0 then heap.cap * 2 else 16

theorem nextCap_room (heap : WaitHeap) : heap.size + 1 ≤ heap.nextCap := by
  have fits := heap.fits
  simp only [size, nextCap]
  split <;> omega

/-- Doubles a full array, from 16 entries on; a failed `realloc` leaves the heap alone. -/
def heapPush (heap : WaitHeap) (e : Event) (reallocOk : Bool) : Int × WaitHeap :=
  if full : heap.size + 1 > heap.cap then
    if reallocOk then
      (0, heap.store e heap.nextCap heap.nextCap_room)
    else
      (-1, heap)
  else
    (0, heap.store e heap.cap (by omega))

def heapPeek (heap : WaitHeap) : Option Event := heap.entries[0]?

/-- The entries without the root: the last one takes its place and sinks. -/
def withoutRoot (heap : WaitHeap) : Array Event :=
  match heap.entries.back? with
  | none => heap.entries
  | some last =>
      if 0 < heap.entries.pop.size then
        heapDown (heap.entries.pop.setIfInBounds 0 last) 0
      else
        heap.entries.pop

/-- Removing the root and sinking the last entry is the library's removal. -/
theorem withoutRoot_eq (heap : WaitHeap)
    : heap.withoutRoot = BinaryHeap.pop Event.before heap.entries := by
  unfold withoutRoot heapDown BinaryHeap.pop
  cases heap.entries.back? <;> rfl

/-- The root and the rest. -/
def heapPop (heap : WaitHeap) : Option (Event × WaitHeap) :=
  match heap.entries[0]? with
  | none => none
  | some root =>
      some (root, {
        entries := heap.withoutRoot
        cap := heap.cap
        ordered := by
          rw [withoutRoot_eq]
          exact BinaryHeap.pop_ordered Event.before_iff heap.ordered
        fits := by
          rw [withoutRoot_eq]
          exact (BinaryHeap.pop_size_le _ _).trans heap.fits
      })

theorem store_events (heap : WaitHeap) (e : Event) (cap : Nat)
    (room : heap.size + 1 ≤ cap)
    : (heap.store e cap room).events.Perm (e :: heap.events) := by
  simp only [events, store, heapUp_push]
  exact BinaryHeap.push_perm Event.before heap.entries e

/-- A push either fails and changes nothing or adds exactly the event. -/
theorem heapPush_cases (heap : WaitHeap) (e : Event) (reallocOk : Bool)
    : ((heap.heapPush e reallocOk).1 = 0
        ∧ (heap.heapPush e reallocOk).2.events.Perm (e :: heap.events))
      ∨ (reallocOk = false ∧ heap.heapPush e reallocOk = (-1, heap)) := by
  unfold heapPush
  split
  case isTrue full =>
    cases reallocOk
    · exact Or.inr ⟨rfl, rfl⟩
    · exact Or.inl ⟨rfl, heap.store_events e heap.nextCap heap.nextCap_room⟩
  case isFalse room => exact Or.inl ⟨rfl, heap.store_events e heap.cap (by omega)⟩

theorem heapPeek_eq_none {heap : WaitHeap} : heap.heapPeek = none ↔ heap.events = [] := by
  simp [heapPeek, events]

/-- Pop returns what peek shows, and fails exactly on the empty heap. -/
theorem heapPop_fst (heap : WaitHeap) : heap.heapPop.map Prod.fst = heap.heapPeek := by
  unfold heapPop heapPeek
  split <;> simp [*]

/-- A pop splits the contents into the returned event and the rest. -/
theorem heapPop_events {heap rest : WaitHeap} {root : Event}
    (popped : heap.heapPop = some (root, rest))
    : heap.events.Perm (root :: rest.events) := by
  unfold heapPop at popped
  split at popped
  · cases popped
  · rename_i top found
    obtain ⟨rfl, rfl⟩ := Prod.mk.inj (Option.some.inj popped)
    simp only [events, withoutRoot_eq]
    exact BinaryHeap.pop_perm Event.before found

/-- No stored event is ahead of the one that peek shows. -/
theorem heapPeek_le {heap : WaitHeap} {root e : Event} (top : heap.heapPeek = some root)
    (member : e ∈ heap.events)
    : root.key ≤ e.key :=
  heap.ordered.root_le top (Array.mem_toList_iff.mp member)

end WaitHeap

end QKeySys.Core
