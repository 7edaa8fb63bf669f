import Mathlib.Order.Lattice

/-! Binary min-heaps in arrays: the two sift loops, and what they do to order and contents.
The comparison is a Boolean `before` that agrees with the order of some key.
-/

namespace QKeySys.Library.BinaryHeap

variable {α κ : Type*}

/-- The index above `index` in level order; the root is its own parent. -/
def parent (index : Nat) : Nat := (index - 1) / 2

theorem parent_lt {index : Nat} (positive : 0 < index) : parent index < index := by
  unfold parent
  omega

/-- Moves the entry at `index` towards the root while it comes before its parent. -/
def siftUp (before : α → α → Bool) (heap : Array α) (index : Nat) : Array α :=
  if inside : 0 < index ∧ index < heap.size then
    have above := Nat.lt_trans (parent_lt inside.1) inside.2
    if before heap[index] heap[parent index] then
      siftUp before (heap.swap index (parent index)) (parent index)
    else
      heap
  else
    heap
termination_by index
decreasing_by exact parent_lt inside.1

/-- `left` is inside the array and its entry comes before that of `right`. -/
def beforeAt (before : α → α → Bool) (heap : Array α) (left right : Nat) : Bool :=
  match heap[left]?, heap[right]? with
  | some first, some second => before first second
  | _, _ => false

/-- The first-ranked index among `index` and its two children, the left child first. -/
def smallest (before : α → α → Bool) (heap : Array α) (index : Nat) : Nat :=
  let left := index * 2 + 1
  let right := left + 1
  let best := if beforeAt before heap left index then left else index
  if beforeAt before heap right best then right else best

theorem beforeAt_inside {before : α → α → Bool} {heap : Array α} {left right : Nat}
    (found : beforeAt before heap left right = true)
    : left < heap.size := by
  unfold beforeAt at found
  cases entry : heap[left]? with
  | none => simp [entry] at found
  | some value => exact (Array.getElem?_eq_some_iff.mp entry).1

/-- The chosen index is the start itself or one of its children inside the array. -/
theorem smallest_cases (before : α → α → Bool) (heap : Array α) (index : Nat)
    : smallest before heap index = index
      ∨ (index < smallest before heap index
        ∧ parent (smallest before heap index) = index
        ∧ smallest before heap index < heap.size) := by
  unfold smallest parent
  dsimp only
  split_ifs with right left <;>
    first
      | exact Or.inl rfl
      | (right; refine ⟨by omega, by omega, ?_⟩; exact beforeAt_inside ‹_›)

theorem smallest_lt {before : α → α → Bool} {heap : Array α} {index : Nat}
    (inside : index < heap.size)
    : smallest before heap index < heap.size := by
  rcases smallest_cases before heap index with same | ⟨_, _, below⟩
  · rw [same]
    exact inside
  · exact below

/-- Moves the entry at `index` towards the leaves while a child comes before it. -/
def siftDown (before : α → α → Bool) (heap : Array α) (index : Nat) : Array α :=
  if inside : index < heap.size then
    if smallest before heap index = index then
      heap
    else
      siftDown before
        (heap.swap index (smallest before heap index) inside (smallest_lt inside))
        (smallest before heap index)
  else
    heap
termination_by heap.size - index
decreasing_by
  rcases smallest_cases before heap index with same | ⟨lower, _, below⟩
  · contradiction
  · simp only [Array.size_swap]
    omega

theorem siftUp_perm (before : α → α → Bool) (heap : Array α) (index : Nat)
    : (siftUp before heap index).Perm heap := by
  fun_induction siftUp before heap index with
  | case1 heap index inside above earlier ih => exact ih.trans (Array.swap_perm _ _)
  | case2 => exact .refl _
  | case3 => exact .refl _

theorem siftDown_perm (before : α → α → Bool) (heap : Array α) (index : Nat)
    : (siftDown before heap index).Perm heap := by
  fun_induction siftDown before heap index with
  | case1 => exact .refl _
  | case2 heap index inside moved ih => exact ih.trans (Array.swap_perm _ _)
  | case3 => exact .refl _

section Order

variable [LinearOrder κ] {key : α → κ} {before : α → α → Bool}

/-- Every entry has a key no smaller than that of its parent. -/
def Ordered (key : α → κ) (heap : Array α) : Prop :=
  ∀ index above entry,
    0 < index
    → heap[parent index]? = some above
    → heap[index]? = some entry
    → key above ≤ key entry

/-- The order holds on every edge but those that `skip` excludes, and still holds from
the parent of `hole` to the children of `hole`, across the excluded edges.
-/
structure OrderedAround (key : α → κ) (heap : Array α) (hole : Nat)
    (skip : Nat → Prop)
    : Prop where
  except
    : ∀ index above entry,
        0 < index
        → ¬ skip index
        → heap[parent index]? = some above
        → heap[index]? = some entry
        → key above ≤ key entry
  across
    : ∀ index above entry,
        0 < hole
        → 0 < index
        → parent index = hole
        → heap[parent hole]? = some above
        → heap[index]? = some entry
        → key above ≤ key entry

/-- Order except on the edge into `hole`, which a sift towards the root repairs. -/
abbrev UpOrdered (key : α → κ) (heap : Array α) (hole : Nat) : Prop :=
  OrderedAround key heap hole (· = hole)

/-- Order except on the edges out of `hole`, which a sift towards the leaves repairs. -/
abbrev DownOrdered (key : α → κ) (heap : Array α) (hole : Nat) : Prop :=
  OrderedAround key heap hole (parent · = hole)

/-- Appending an entry breaks at most the edge into the new last index. -/
theorem Ordered.push {heap : Array α} (ordered : Ordered key heap) (entry : α)
    : UpOrdered key (heap.push entry) heap.size := by
  constructor
  · intro index above below positive old parentEntry childEntry
    have bound := (Array.getElem?_eq_some_iff.mp childEntry).1
    have upper := parent_lt positive
    simp only [Array.size_push] at bound
    rw [Array.getElem?_push, if_neg (by omega)] at parentEntry childEntry
    exact ordered index above below positive parentEntry childEntry
  · intro index above below _ positive child _ childEntry
    have bound := (Array.getElem?_eq_some_iff.mp childEntry).1
    have upper := parent_lt positive
    simp only [Array.size_push] at bound
    omega

/-- One step of the upward sift moves the only suspect edge to the parent.
Witness: the children of `hole` were already ordered below its parent, and the sibling
edge is dominated by the entry that moved up.
-/
theorem UpOrdered.swap {heap : Array α} {hole : Nat}
    (agree : ∀ left right, before left right = true ↔ key left < key right)
    (ordered : UpOrdered key heap hole) (positive : 0 < hole) (inside : hole < heap.size)
    (above : parent hole < heap.size)
    (earlier : before heap[hole] heap[parent hole] = true)
    : UpOrdered key (heap.swap hole (parent hole)) (parent hole) := by
  have upper := parent_lt positive
  have moved : key heap[hole] < key heap[parent hole] := (agree _ _).mp earlier
  obtain ⟨except, across⟩ := ordered
  constructor
  · intro index upperEntry entry indexPositive kept parentEntry childEntry
    have indexUpper := parent_lt indexPositive
    rw [Array.getElem?_swap] at parentEntry childEntry
    rw [if_neg (Ne.symm kept)] at childEntry
    by_cases sibling : parent index = parent hole
    · obtain rfl : heap[hole] = upperEntry := by simpa [sibling] using parentEntry
      by_cases same : hole = index
      · obtain rfl : heap[parent hole] = entry := by simpa [same] using childEntry
        exact moved.le
      · rw [if_neg same] at childEntry
        exact moved.le.trans (except index _ entry indexPositive (Ne.symm same)
          (by rw [sibling]; exact Array.getElem?_eq_getElem above) childEntry)
    · rw [if_neg (Ne.symm sibling)] at parentEntry
      rw [if_neg (by rintro rfl; exact sibling rfl)] at childEntry
      by_cases child : hole = parent index
      · obtain rfl : heap[parent hole] = upperEntry := by simpa [← child] using parentEntry
        exact across index _ entry positive indexPositive child.symm
          (Array.getElem?_eq_getElem above) childEntry
      · rw [if_neg child] at parentEntry
        refine except index upperEntry entry indexPositive ?_ parentEntry childEntry
        rintro rfl
        exact sibling rfl
  · intro index upperEntry entry holePositive indexPositive child parentEntry childEntry
    have indexUpper := parent_lt indexPositive
    have holeUpper := parent_lt holePositive
    rw [Array.getElem?_swap, if_neg (by omega), if_neg (by omega)] at parentEntry
    rw [Array.getElem?_swap, if_neg (by omega)] at childEntry
    have top : key upperEntry ≤ key heap[parent hole] :=
      except (parent hole) upperEntry _ holePositive (by omega) parentEntry
        (Array.getElem?_eq_getElem above)
    by_cases same : hole = index
    · obtain rfl : heap[parent hole] = entry := by simpa [same] using childEntry
      exact top
    · rw [if_neg same] at childEntry
      exact top.trans (except index _ entry indexPositive (Ne.symm same)
        (by rw [child]; exact Array.getElem?_eq_getElem above) childEntry)

/-- The upward sift stops with an ordered heap at the root or below a parent in order. -/
theorem UpOrdered.finish {heap : Array α} {hole : Nat} (ordered : UpOrdered key heap hole)
    (stopped
      : ∀ above entry,
          0 < hole
          → heap[parent hole]? = some above
          → heap[hole]? = some entry
          → key above ≤ key entry)
    : Ordered key heap := by
  intro index above entry positive parentEntry childEntry
  by_cases same : index = hole
  · subst index
    exact stopped above entry positive parentEntry childEntry
  · exact ordered.except index above entry positive same parentEntry childEntry

/-- The upward sift restores the heap order, by induction on its steps. -/
theorem siftUp_ordered {heap : Array α} {index : Nat}
    (agree : ∀ left right, before left right = true ↔ key left < key right)
    (ordered : UpOrdered key heap index)
    : Ordered key (siftUp before heap index) := by
  fun_induction siftUp before heap index with
  | case1 heap index inside above earlier ih =>
      exact ih (ordered.swap agree inside.1 inside.2 above earlier)
  | case2 heap index inside above later =>
      apply ordered.finish
      intro upper entry _ parentEntry childEntry
      obtain ⟨_, rfl⟩ := Array.getElem?_eq_some_iff.mp parentEntry
      obtain ⟨_, rfl⟩ := Array.getElem?_eq_some_iff.mp childEntry
      exact not_lt.mp (fun less => later ((agree _ _).mpr less))
  | case3 heap index outside =>
      apply ordered.finish
      intro upper entry positive _ childEntry
      exact absurd ⟨positive, (Array.getElem?_eq_some_iff.mp childEntry).1⟩ outside

/-- The better of two indices holds an entry with a key no larger than that of the other. -/
theorem better_le {heap : Array α} (best challenger : Nat) {least : α}
    (agree : ∀ left right, before left right = true ↔ key left < key right)
    (chosen
      : heap[if beforeAt before heap challenger best then challenger else best]? = some least)
    : (∃ entry, heap[best]? = some entry ∧ key least ≤ key entry)
      ∧ ∀ entry, heap[challenger]? = some entry → key least ≤ key entry := by
  split at chosen
  case isTrue wins =>
    unfold beforeAt at wins
    rw [chosen] at wins
    cases found : heap[best]? with
    | none => simp [found] at wins
    | some entry =>
        rw [found] at wins
        refine ⟨⟨entry, rfl, le_of_lt ((agree least entry).mp wins)⟩, fun other same => ?_⟩
        rw [Option.some.inj (same.symm.trans chosen)]
  case isFalse loses =>
    refine ⟨⟨least, chosen, le_refl _⟩, fun other found => ?_⟩
    rw [beforeAt, found, chosen] at loses
    exact not_lt.mp (fun smaller => loses ((agree other least).mpr smaller))

/-- The chosen index holds a key no larger than those of the start and its children. -/
theorem smallest_le {heap : Array α} (index candidate : Nat) {least entry : α}
    (agree : ∀ left right, before left right = true ↔ key left < key right)
    (near : candidate = index ∨ candidate = index * 2 + 1 ∨ candidate = index * 2 + 2)
    (chosen : heap[smallest before heap index]? = some least)
    (found : heap[candidate]? = some entry)
    : key least ≤ key entry := by
  obtain ⟨⟨best, better, least_le⟩, right_le⟩ := better_le _ (index * 2 + 1 + 1) agree chosen
  obtain ⟨⟨start, first, best_le⟩, left_le⟩ := better_le index (index * 2 + 1) agree better
  rcases near with rfl | rfl | rfl
  · rw [found] at first
    exact le_trans least_le (Option.some.inj first ▸ best_le)
  · exact le_trans least_le (left_le entry found)
  · exact right_le entry found

/-- One step of the downward sift moves the suspect edges to the chosen child.
Witness: the chosen child is first-ranked among its parent and sibling, so the entry
that moved up is in order with the rest of the family.
-/
theorem DownOrdered.swap {heap : Array α} {hole chosen : Nat}
    (ordered : DownOrdered key heap hole) (inside : hole < heap.size)
    (lower : hole < chosen) (child : parent chosen = hole) (below : chosen < heap.size)
    (least
      : ∀ candidate entry,
          candidate = hole ∨ candidate = hole * 2 + 1 ∨ candidate = hole * 2 + 2
          → heap[candidate]? = some entry
          → key heap[chosen] ≤ key entry)
    : DownOrdered key (heap.swap hole chosen) chosen := by
  obtain ⟨except, across⟩ := ordered
  constructor
  · intro index above entry positive kept parentEntry childEntry
    have upper := parent_lt positive
    rw [Array.getElem?_swap, if_neg (Ne.symm kept)] at parentEntry
    rw [Array.getElem?_swap] at childEntry
    by_cases family : parent index = hole
    · obtain rfl : heap[chosen] = above := by simpa [family] using parentEntry
      by_cases same : chosen = index
      · obtain rfl : heap[hole] = entry := by simpa [same] using childEntry
        exact least hole _ (Or.inl rfl) (Array.getElem?_eq_getElem inside)
      · rw [if_neg same, if_neg (by omega)] at childEntry
        refine least index entry (Or.inr ?_) childEntry
        unfold parent at family
        omega
    · rw [if_neg (Ne.symm family)] at parentEntry
      rw [if_neg (by rintro rfl; exact family child)] at childEntry
      by_cases same : hole = index
      · obtain rfl : heap[chosen] = entry := by simpa [same] using childEntry
        subst same
        exact across chosen above _ positive (by omega) child parentEntry
          (Array.getElem?_eq_getElem below)
      · rw [if_neg same] at childEntry
        exact except index above entry positive family parentEntry childEntry
  · intro index above entry _ positive edge parentEntry childEntry
    have upper := parent_lt positive
    rw [Array.getElem?_swap, if_neg (by omega), if_pos child.symm] at parentEntry
    rw [Array.getElem?_swap, if_neg (by omega), if_neg (by omega)] at childEntry
    obtain rfl : heap[chosen] = above := Option.some.inj parentEntry
    exact except index _ entry positive (by omega)
      (by rw [edge]; exact Array.getElem?_eq_getElem below) childEntry

/-- The downward sift stops with an ordered heap when `hole` precedes its children. -/
theorem DownOrdered.finish {heap : Array α} {hole : Nat}
    (ordered : DownOrdered key heap hole)
    (stopped
      : ∀ index above entry,
          0 < index
          → parent index = hole
          → heap[hole]? = some above
          → heap[index]? = some entry
          → key above ≤ key entry)
    : Ordered key heap := by
  intro index above entry positive parentEntry childEntry
  by_cases edge : parent index = hole
  · exact stopped index above entry positive edge (edge ▸ parentEntry) childEntry
  · exact ordered.except index above entry positive edge parentEntry childEntry

/-- The downward sift restores the heap order, by induction on its steps. -/
theorem siftDown_ordered {heap : Array α} {index : Nat}
    (agree : ∀ left right, before left right = true ↔ key left < key right)
    (ordered : DownOrdered key heap index)
    : Ordered key (siftDown before heap index) := by
  fun_induction siftDown before heap index with
  | case1 heap index inside same =>
      apply ordered.finish
      intro child above entry positive edge parentEntry childEntry
      refine smallest_le index child agree ?_
        (by rw [same]; exact parentEntry) childEntry
      unfold parent at edge
      omega
  | case2 heap index inside moved ih =>
      obtain same | ⟨lower, child, below⟩ := smallest_cases before heap index
      · exact absurd same moved
      · exact ih (ordered.swap inside lower child below (fun candidate entry near found =>
          smallest_le index candidate agree near (Array.getElem?_eq_getElem below) found))
  | case3 heap index outside =>
      apply ordered.finish
      intro child above entry _ _ parentEntry _
      exact absurd (Array.getElem?_eq_some_iff.mp parentEntry).1 outside

/-- The root of an ordered heap has the least key, by induction along parents. -/
theorem Ordered.root_le {heap : Array α} (ordered : Ordered key heap) {root : α}
    (top : heap[0]? = some root) {entry : α} (member : entry ∈ heap)
    : key root ≤ key entry := by
  obtain ⟨index, inside, rfl⟩ := Array.mem_iff_getElem.mp member
  induction index using Nat.strongRecOn with
  | _ index ih =>
      rcases Nat.eq_zero_or_pos index with rfl | positive
      · rw [Array.getElem?_eq_getElem inside] at top
        exact le_of_eq (congrArg key (Option.some.inj top).symm)
      · have upper := parent_lt positive
        have above : parent index < heap.size := by omega
        calc
          key root ≤ key heap[parent index] :=
            ih _ upper above (Array.getElem_mem above)
          _ ≤ key heap[index] :=
            ordered index _ _ positive (Array.getElem?_eq_getElem above)
              (Array.getElem?_eq_getElem inside)

end Order

/-- Appends an entry and sifts it towards the root. -/
def push (before : α → α → Bool) (heap : Array α) (entry : α) : Array α :=
  siftUp before (heap.push entry) heap.size

/-- Removes the root: the last entry takes its place and sinks. -/
def pop (before : α → α → Bool) (heap : Array α) : Array α :=
  match heap.back? with
  | none => heap
  | some last =>
      if 0 < heap.pop.size then
        siftDown before (heap.pop.setIfInBounds 0 last) 0
      else
        heap.pop

theorem push_perm (before : α → α → Bool) (heap : Array α) (entry : α)
    : (push before heap entry).toList.Perm (entry :: heap.toList) := by
  have sifted := (siftUp_perm before (heap.push entry) heap.size).toList
  simp only [Array.toList_push] at sifted
  exact sifted.trans (List.perm_append_singleton entry heap.toList)

/-- Removing the root leaves exactly the other entries.
Witness: the last entry replaces the root before the sift, which only permutes.
-/
theorem pop_perm (before : α → α → Bool) {heap : Array α} {root : α}
    (top : heap[0]? = some root)
    : heap.toList.Perm (root :: (pop before heap).toList) := by
  obtain ⟨entries⟩ := heap
  cases entries with
  | nil => simp at top
  | cons first rest =>
      obtain rfl : first = root := by simpa using top
      refine List.Perm.cons first ?_
      rcases List.eq_nil_or_concat rest with rfl | ⟨init, last, rfl⟩
      · simp [pop]
      · have sifted := (siftDown_perm before (last :: init).toArray 0).toList
        have popped : pop before ⟨first :: (init ++ [last])⟩
            = siftDown before (last :: init).toArray 0 := by
          have back : (first :: (init ++ [last])).getLast? = some last := by
            rw [← List.cons_append]
            exact List.getLast?_concat
          have front : (first :: (init ++ [last])).dropLast = first :: init := by
            rw [← List.cons_append]
            exact List.dropLast_concat
          simp [pop, back, front]
        rw [List.concat_eq_append, popped]
        exact (List.perm_append_singleton last init).trans sifted.symm

theorem push_size (before : α → α → Bool) (heap : Array α) (entry : α)
    : (push before heap entry).size = heap.size + 1 := by
  simpa only [Array.length_toList, List.length_cons] using
    (push_perm before heap entry).length_eq

/-- Removing the root never grows the array, in the empty case too. -/
theorem pop_size_le (before : α → α → Bool) (heap : Array α)
    : (pop before heap).size ≤ heap.size := by
  cases top : heap[0]? with
  | none =>
      have empty : heap = #[] := by simpa using top
      simp [empty, pop]
  | some root =>
      have split := (pop_perm before top).length_eq
      simp only [Array.length_toList, List.length_cons] at split
      omega

theorem push_ordered [LinearOrder κ] {key : α → κ} {before : α → α → Bool}
    {heap : Array α} (agree : ∀ left right, before left right = true ↔ key left < key right)
    (ordered : Ordered key heap) (entry : α)
    : Ordered key (push before heap entry) :=
  siftUp_ordered agree (ordered.push entry)

/-- Removing the root keeps the order: only the edges out of the new root are suspect. -/
theorem pop_ordered [LinearOrder κ] {key : α → κ} {before : α → α → Bool}
    {heap : Array α} (agree : ∀ left right, before left right = true ↔ key left < key right)
    (ordered : Ordered key heap)
    : Ordered key (pop before heap) := by
  have shorter : Ordered key heap.pop := by
    intro index above entry positive parentEntry childEntry
    rw [Array.getElem?_pop, Option.ite_none_right_eq_some] at parentEntry childEntry
    exact ordered index above entry positive parentEntry.2 childEntry.2
  unfold pop
  split
  · exact ordered
  · split
    case isFalse => exact shorter
    case isTrue =>
      apply siftDown_ordered agree
      constructor
      · intro index above entry positive kept parentEntry childEntry
        have upper := parent_lt positive
        rw [Array.getElem?_setIfInBounds_ne (by omega)] at parentEntry childEntry
        exact shorter index above entry positive parentEntry childEntry
      · intro index above entry impossible
        omega

end QKeySys.Library.BinaryHeap
