import QKeySys.Library.BinaryHeap
import QKeySys.Library.Ownership

/-! Binary heaps that a program keeps in a block of memory: the sift loops as loads and stores,
and that they do to the block what the sifts on arrays do to the entries it stores. Nothing here
names a program; a model supplies the type of the entries and the comparison.
-/

namespace QKeySys.Library.StoredHeap

open BinaryHeap (parent parent_lt beforeAt smallest smallest_cases siftUp siftDown)

variable {α : Type}

/-- Exchanges two cells of a block, through a copy of the first. -/
def swapAt (mem : BlockMemory α) (p : Pointer) (i j : Nat) : Except Fault (BlockMemory α) :=
  (mem.load p i).bind (fun kept =>
    (mem.load p j).bind (fun moved =>
      (mem.store p i moved).bind (fun mem => mem.store p j kept)))

/-- Moves the entry at `index` towards the root while it comes before its parent. -/
def siftUpAt (before : α → α → Bool) (mem : BlockMemory α) (p : Pointer) (index : Nat)
    : Except Fault (BlockMemory α) :=
  if positive : 0 < index then
    have := parent_lt positive
    (mem.load p index).bind (fun entry =>
      (mem.load p (parent index)).bind (fun above =>
        if before entry above then
          (swapAt mem p index (parent index)).bind (fun mem =>
            siftUpAt before mem p (parent index))
        else
          .ok mem))
  else
    .ok mem
termination_by index

/-- The challenger if it is among the first `n` entries and comes before the best one so far. -/
def betterAt (before : α → α → Bool) (mem : BlockMemory α) (p : Pointer)
    (n best challenger : Nat)
    : Except Fault Nat :=
  if challenger < n then
    (mem.load p challenger).bind (fun entry =>
      (mem.load p best).map (fun least => if before entry least then challenger else best))
  else
    .ok best

/-- The first-ranked index among `index` and its two children, the left child first. -/
def smallestAt (before : α → α → Bool) (mem : BlockMemory α) (p : Pointer) (n index : Nat)
    : Except Fault Nat :=
  (betterAt before mem p n index (index * 2 + 1)).bind (fun best =>
    betterAt before mem p n best (index * 2 + 1 + 1))

/-- Moves the entry at `index` towards the leaves while a child comes before it. The loop ends
where the chosen index is the index itself; any other one is a child.
-/
def siftDownAt (before : α → α → Bool) (mem : BlockMemory α) (p : Pointer) (n index : Nat)
    : Except Fault (BlockMemory α) :=
  (smallestAt before mem p n index).bind (fun chosen =>
    if child : index < chosen ∧ chosen < n then
      have := Nat.sub_lt_sub_left (Nat.lt_trans child.1 child.2) child.1
      (swapAt mem p index chosen).bind (fun mem => siftDownAt before mem p n chosen)
    else
      .ok mem)
termination_by n - index

/-- The block behind the pointer has the entries in its first cells, and room for so many. -/
def Stores (mem : BlockMemory α) (p : Pointer) (heap : Array α) (room : Nat) : Prop :=
  ∃ a cells, p = some a ∧ mem.block a = some cells ∧ room ≤ cells.length
    ∧ ∀ (i : Nat) (x : α), heap[i]? = some x → cells[i]? = some (some x)

variable {before : α → α → Bool} {mem : BlockMemory α} {p : Pointer} {heap heap' : Array α}
variable {room i j index : Nat} {x : α}

-----------------------------------------------------------------------------------------
-- Cells
-----------------------------------------------------------------------------------------

theorem Stores.load (stored : Stores mem p heap room) (found : heap[i]? = some x)
    : mem.load p i = .ok x := by
  obtain ⟨a, cells, rfl, live, -, contents⟩ := stored
  exact BlockMemory.load_live live (contents i x found)

/-- A block that stores entries stores each of them. -/
theorem Stores.fewer (stored : Stores mem p heap room)
    (kept : ∀ (i : Nat) (x : α), heap'[i]? = some x → heap[i]? = some x)
    : Stores mem p heap' room := by
  obtain ⟨a, cells, same, live, enough, contents⟩ := stored
  exact ⟨a, cells, same, live, enough, fun i x found => contents i x (kept i x found)⟩

/-- A write puts the entry at its index and leaves the other cells as they are. -/
theorem Stores.store (stored : Stores mem p heap room) (inside : i < room) (x : α)
    : ∃ mem', mem.store p i x = .ok mem' ∧ BlockMemory.Handed mem mem' p p
        ∧ ∀ heap' : Array α,
            (∀ (k : Nat) (y : α), heap'[k]? = some y →
              if k = i then y = x else heap[k]? = some y)
            → Stores mem' p heap' room := by
  obtain ⟨a, cells, rfl, live, enough, contents⟩ := stored
  have used := BlockMemory.lt_next live
  have written := BlockMemory.store_live live (Nat.lt_of_lt_of_le inside enough) x
  refine ⟨_, written, BlockMemory.handed_store written, fun heap' same =>
    ⟨a, cells.set i (some x), rfl, ?_, ?_, ?_⟩⟩
  · rw [BlockMemory.update_block used, if_pos rfl]
  · rwa [List.length_set]
  · intro k y found
    have kept := same k y found
    split at kept
    case isTrue here =>
      subst here kept
      exact List.getElem?_set_self (Nat.lt_of_lt_of_le inside enough)
    case isFalse other =>
      rw [List.getElem?_set_ne (Ne.symm other)]
      exact contents k y kept

/-- Exchanging two cells exchanges the entries. -/
theorem Stores.swapAt (stored : Stores mem p heap room) (enough : heap.size ≤ room)
    (first : i < heap.size) (second : j < heap.size)
    : ∃ mem', StoredHeap.swapAt mem p i j = .ok mem' ∧ BlockMemory.Handed mem mem' p p
        ∧ Stores mem' p (heap.swap i j) room := by
  obtain ⟨mem₁, written, touched, middle⟩ :=
    stored.store (Nat.lt_of_lt_of_le first enough) heap[j]
  have one : Stores mem₁ p (heap.set i heap[j]) room := by
    apply middle
    intro k y found
    rw [Array.getElem?_set] at found
    split at found
    case isTrue here =>
      rw [if_pos here.symm]
      exact (Option.some.inj found).symm
    case isFalse other =>
      rwa [if_neg (Ne.symm other)]
  obtain ⟨mem₂, written', touched', last⟩ :=
    one.store (Nat.lt_of_lt_of_le second enough) heap[i]
  refine ⟨mem₂, ?_, touched.trans touched', last _ ?_⟩
  · unfold StoredHeap.swapAt
    rw [bind_ok (stored.load (Array.getElem?_eq_getElem first)),
      bind_ok (stored.load (Array.getElem?_eq_getElem second)), bind_ok written]
    exact written'
  · intro k y found
    rw [Array.getElem?_swap] at found
    split at found
    case isTrue here =>
      rw [if_pos here.symm]
      exact (Option.some.inj found).symm
    case isFalse other =>
      rw [if_neg (Ne.symm other), Array.getElem?_set]
      exact found

/-- A new block has room and no entries. -/
theorem stores_alloc (mem : BlockMemory α) (positive : room ≠ 0)
    : ∃ mem', mem.realloc none room true = .ok (mem', some mem.next)
        ∧ Stores mem' (some mem.next) #[] room := by
  refine ⟨mem.extend (BlockMemory.resize [] room), ?_, mem.next, BlockMemory.resize [] room,
    rfl, ?_, ?_, by simp⟩
  · simp [BlockMemory.realloc, positive]
  · rw [BlockMemory.extend_block, if_pos rfl]
  · rw [BlockMemory.resize_length]

/-- A block that grows keeps its entries. -/
theorem Stores.grow (stored : Stores mem p heap room) (enough : heap.size ≤ room) {more : Nat}
    (positive : more ≠ 0) (larger : room ≤ more)
    : ∃ mem', mem.realloc p more true = .ok (mem', some mem.next)
        ∧ Stores mem' (some mem.next) heap more := by
  obtain ⟨a, cells, rfl, live, within, contents⟩ := stored
  refine ⟨_, BlockMemory.realloc_granted live positive, mem.next, BlockMemory.resize cells more,
    rfl, ?_, ?_, ?_⟩
  · rw [BlockMemory.extend_block, BlockMemory.update_next, if_pos rfl]
  · rw [BlockMemory.resize_length]
  · intro i x found
    have small := (Array.getElem?_eq_some_iff.mp found).1
    rw [BlockMemory.resize_getElem? (by omega) (by omega)]
    exact contents i x found

-----------------------------------------------------------------------------------------
-- Sifts
-----------------------------------------------------------------------------------------

/-- The loop towards the root, by induction on the sift of the entries. -/
theorem Stores.siftUpAt (before : α → α → Bool) (stored : Stores mem p heap room)
    (enough : heap.size ≤ room) (inside : index < heap.size)
    : ∃ mem', StoredHeap.siftUpAt before mem p index = .ok mem'
        ∧ BlockMemory.Handed mem mem' p p
        ∧ Stores mem' p (siftUp before heap index) room := by
  fun_induction siftUp before heap index generalizing mem with
  | case1 heap index within above earlier ih =>
      obtain ⟨mem₁, swapped, touched, stored'⟩ := stored.swapAt enough within.2 above
      obtain ⟨mem₂, sifted, touched', last⟩ :=
        ih stored' (by simpa using enough) (by simpa using above)
      refine ⟨mem₂, ?_, touched.trans touched', last⟩
      rw [StoredHeap.siftUpAt, dif_pos within.1,
        bind_ok (stored.load (Array.getElem?_eq_getElem within.2)),
        bind_ok (stored.load (Array.getElem?_eq_getElem above)), if_pos earlier,
        bind_ok swapped]
      exact sifted
  | case2 heap index within above later =>
      refine ⟨mem, ?_, .refl mem p, stored⟩
      rw [StoredHeap.siftUpAt, dif_pos within.1,
        bind_ok (stored.load (Array.getElem?_eq_getElem within.2)),
        bind_ok (stored.load (Array.getElem?_eq_getElem above)), if_neg later]
  | case3 heap index outside =>
      refine ⟨mem, ?_, .refl mem p, stored⟩
      rw [StoredHeap.siftUpAt, dif_neg (fun positive => outside ⟨positive, inside⟩)]

theorem Stores.betterAt (stored : Stores mem p heap room) (inside : i < heap.size)
    : StoredHeap.betterAt before mem p heap.size i j
      = .ok (if beforeAt before heap j i then j else i) := by
  unfold StoredHeap.betterAt beforeAt
  have best := Array.getElem?_eq_getElem inside
  split
  case isTrue within =>
    have challenger := Array.getElem?_eq_getElem within
    rw [bind_ok (stored.load challenger), stored.load best, challenger, best]
    rfl
  case isFalse beyond =>
    rw [Array.getElem?_eq_none (Nat.not_lt.mp beyond)]
    rfl

theorem Stores.smallestAt (stored : Stores mem p heap room) (inside : index < heap.size)
    : StoredHeap.smallestAt before mem p heap.size index
      = .ok (smallest before heap index) := by
  have best
      : (if beforeAt before heap (index * 2 + 1) index then index * 2 + 1 else index)
        < heap.size := by
    split
    case isTrue wins => exact BinaryHeap.beforeAt_inside wins
    case isFalse => exact inside
  rw [StoredHeap.smallestAt, bind_ok (stored.betterAt inside)]
  exact stored.betterAt best

/-- The loop towards the leaves, by induction on the sift of the entries. -/
theorem Stores.siftDownAt (before : α → α → Bool) (stored : Stores mem p heap room)
    (enough : heap.size ≤ room) (inside : index < heap.size)
    : ∃ mem', StoredHeap.siftDownAt before mem p heap.size index = .ok mem'
        ∧ BlockMemory.Handed mem mem' p p
        ∧ Stores mem' p (siftDown before heap index) room := by
  fun_induction siftDown before heap index generalizing mem with
  | case1 heap index inside least =>
      refine ⟨mem, ?_, .refl mem p, stored⟩
      rw [StoredHeap.siftDownAt, bind_ok (stored.smallestAt inside), least,
        dif_neg (fun child => Nat.lt_irrefl _ child.1)]
  | case2 heap index inside moved ih =>
      obtain ⟨lower, -, below⟩ :=
        (smallest_cases before heap index).resolve_left moved
      obtain ⟨mem₁, swapped, touched, stored'⟩ := stored.swapAt enough inside below
      obtain ⟨mem₂, sifted, touched', last⟩ :=
        ih stored' (by simpa using enough) (by simpa using below)
      refine ⟨mem₂, ?_, touched.trans touched', last⟩
      rw [StoredHeap.siftDownAt, bind_ok (stored.smallestAt inside), dif_pos ⟨lower, below⟩,
        bind_ok swapped]
      rwa [Array.size_swap] at sifted
  | case3 heap index outside => exact absurd inside outside

end QKeySys.Library.StoredHeap
