import Mathlib.Data.List.Induction
import QKeySys.Library.BlockMemory

/-! Singly linked lists with a head and a tail pointer over explicit memory, and the list of
items one stands for. Nothing here names a program; a model supplies the type of the items.
-/

namespace QKeySys.Library

structure Node (α : Type) where
  item : α
  next : Pointer

structure LinkedList (α : Type) where
  mem : BlockMemory (Node α)
  head : Pointer
  tail : Pointer

namespace LinkedList

variable {α : Type}

def empty : LinkedList α := ⟨.empty, none, none⟩

/-- Links a new node with the item behind the tail, and tells whether there was memory for it.
An empty list is recognised by its tail.
-/
def pushBack (l : LinkedList α) (x : α) (granted : Bool)
    : Except Fault (Bool × LinkedList α) :=
  (l.mem.realloc none 1 granted).bind (fun (mem, n) =>
    match n with
    | none => .ok (false, { l with mem := mem })
    | some _ =>
        (mem.store n 0 ⟨x, none⟩).bind (fun mem =>
          match l.tail with
          | none => .ok (true, ⟨mem, n, n⟩)
          | some _ =>
              (mem.load l.tail 0).bind (fun last =>
                (mem.store l.tail 0 { last with next := n }).map (fun mem =>
                  (true, ⟨mem, l.head, n⟩)))))

/-- The item at the head, if there is one. -/
def peekFront (l : LinkedList α) : Except Fault (Option α) :=
  match l.head with
  | none => .ok none
  | some _ => (l.mem.load l.head 0).map (fun node => some node.item)

/-- Unlinks and frees the node at the head, if there is one. The tail is reset with the last
node.
-/
def popFront (l : LinkedList α) : Except Fault (Option (α × LinkedList α)) :=
  match l.head with
  | none => .ok none
  | some _ =>
      (l.mem.load l.head 0).bind (fun node =>
        (l.mem.free l.head).map (fun mem =>
          some (node.item, ⟨mem, node.next, if node.next = none then none else l.tail⟩)))

-----------------------------------------------------------------------------------------
-- Segments
-----------------------------------------------------------------------------------------

/-- The nodes met on the way from one pointer to another, each with its address. -/
def Segment (mem : BlockMemory (Node α)) : Pointer → List (Nat × α) → Pointer → Prop
  | p, [], q => p = q
  | p, (a, x) :: nodes, q =>
      p = some a ∧ ∃ next, mem.block a = some [some ⟨x, next⟩] ∧ Segment mem next nodes q

variable {mem mem' : BlockMemory (Node α)} {p q : Pointer} {nodes nodes' : List (Nat × α)}

/-- A way through two lists of nodes passes the pointer between them, by induction on the
first list.
-/
theorem segment_append
    : Segment mem p (nodes ++ nodes') q
      ↔ ∃ middle, Segment mem p nodes middle ∧ Segment mem middle nodes' q := by
  induction nodes generalizing p with
  | nil => simp [Segment]
  | cons node nodes ih =>
      simp only [List.cons_append, Segment, ih]
      constructor
      · rintro ⟨start, next, stored, middle, first, second⟩
        exact ⟨middle, ⟨start, next, stored, first⟩, second⟩
      · rintro ⟨middle, ⟨start, next, stored, first⟩, second⟩
        exact ⟨start, next, stored, middle, first, second⟩

/-- A segment does not notice changes elsewhere, by induction on its nodes. -/
theorem Segment.frame (way : Segment mem p nodes q)
    (same : ∀ a ∈ nodes.map Prod.fst, mem'.block a = mem.block a)
    : Segment mem' p nodes q := by
  induction nodes generalizing p with
  | nil => exact way
  | cons node nodes ih =>
      obtain ⟨start, next, stored, rest⟩ := way
      rw [List.map_cons, List.forall_mem_cons] at same
      exact ⟨start, next, same.1.trans stored, ih rest same.2⟩

/-- The nodes of a segment are live. -/
theorem Segment.live (way : Segment mem p nodes q) {a : Nat} (inside : a ∈ nodes.map Prod.fst)
    : ∃ cells, mem.block a = some cells := by
  induction nodes generalizing p with
  | nil => cases inside
  | cons node nodes ih =>
      obtain ⟨start, next, stored, rest⟩ := way
      rcases List.mem_cons.mp inside with rfl | inside
      · exact ⟨_, stored⟩
      · exact ih rest inside

-----------------------------------------------------------------------------------------
-- Whole lists
-----------------------------------------------------------------------------------------

/-- From the head the list runs through distinct nodes and ends at the tail. -/
structure Holds (l : LinkedList α) (nodes : List (Nat × α)) : Prop where
  way : Segment l.mem l.head nodes none
  distinct : (nodes.map Prod.fst).Nodup
  tail : l.tail = nodes.getLast?.map Prod.fst

variable {l : LinkedList α}

theorem empty_holds : (empty : LinkedList α).Holds [] := ⟨rfl, List.nodup_nil, rfl⟩

/-- Head and tail are null together. -/
theorem Holds.head_none_iff (holds : l.Holds nodes) : l.head = none ↔ l.tail = none := by
  have last := holds.tail
  cases nodes with
  | nil =>
      have start : l.head = none := holds.way
      simp [start, last]
  | cons node nodes =>
      have start : l.head = some node.1 := holds.way.1
      simp [start, last]

/-- The memory with a new node that nothing points to yet. -/
theorem alloc_node (mem : BlockMemory (Node α)) (x : α)
    : ∃ mem' : BlockMemory (Node α),
        mem.realloc none 1 true = .ok (mem.extend [none], some mem.next)
        ∧ (mem.extend [none]).store (some mem.next) 0 ⟨x, none⟩ = .ok mem'
        ∧ mem'.block mem.next = some [some ⟨x, none⟩]
        ∧ ∀ b, b ≠ mem.next → mem'.block b = mem.block b := by
  have live : (mem.extend [none]).block mem.next = some [none] := by simp
  have stored := BlockMemory.store_live (i := 0) live Nat.one_pos (⟨x, none⟩ : Node α)
  have used : mem.next < (mem.extend [none]).next := BlockMemory.lt_next live
  refine ⟨_, by simp [BlockMemory.realloc, BlockMemory.resize], stored, ?_, ?_⟩
  · rw [BlockMemory.update_block used, if_pos rfl]
    rfl
  · intro b other
    rw [BlockMemory.update_block used, if_neg other, BlockMemory.extend_block, if_neg other]

/-- Linking a node behind another changes that one only. -/
theorem link_node {b : Nat} {y : α} {next : Pointer} (live : mem.block b = some [some ⟨y, next⟩])
    (n : Pointer)
    : ∃ mem' : BlockMemory (Node α),
        mem.load (some b) 0 = .ok ⟨y, next⟩
        ∧ mem.store (some b) 0 ⟨y, n⟩ = .ok mem'
        ∧ mem'.block b = some [some ⟨y, n⟩]
        ∧ ∀ a, a ≠ b → mem'.block a = mem.block a := by
  have used : b < mem.next := BlockMemory.lt_next live
  refine ⟨_, BlockMemory.load_live (i := 0) live rfl,
    BlockMemory.store_live (i := 0) live Nat.one_pos (⟨y, n⟩ : Node α), ?_, ?_⟩
  · rw [BlockMemory.update_block used, if_pos rfl]
    rfl
  · intro a other
    rw [BlockMemory.update_block used, if_neg other]

/-- A new node joins at the end, by cases on whether there was a last one. -/
theorem pushBack_granted (holds : l.Holds nodes) (x : α)
    : ∃ l' a, l.pushBack x true = .ok (true, l') ∧ l'.Holds (nodes ++ [(a, x)]) := by
  obtain ⟨mem, allocated, written, new, others⟩ := alloc_node l.mem x
  have fresh : l.mem.next ∉ nodes.map Prod.fst := by
    intro inside
    obtain ⟨cells, live⟩ := holds.way.live inside
    exact absurd (BlockMemory.lt_next live) (Nat.lt_irrefl _)
  have distinct : ((nodes ++ [(l.mem.next, x)]).map Prod.fst).Nodup := by
    rw [List.map_append, List.nodup_append]
    refine ⟨holds.distinct, by simp, ?_⟩
    rintro a inside b new rfl
    obtain rfl : a = l.mem.next := by simpa using new
    exact fresh inside
  have last := holds.tail
  cases nodes using List.reverseRecOn with
  | nil =>
      refine ⟨⟨mem, some l.mem.next, some l.mem.next⟩, l.mem.next, ?_, ?_⟩
      · rw [pushBack, bind_ok allocated]
        simp only [bind_ok written, last]
        rfl
      · exact ⟨⟨rfl, none, new, rfl⟩, distinct, rfl⟩
  | append_singleton nodes node =>
      obtain ⟨b, y⟩ := node
      obtain ⟨middle, first, rfl, next, stored, rfl⟩ := segment_append.mp holds.way
      have old : b ≠ l.mem.next := by
        rintro rfl
        exact fresh (by simp)
      obtain ⟨mem', read, linked, behind, others'⟩ :=
        link_node ((others b old).trans stored) (some l.mem.next)
      refine ⟨⟨mem', l.head, some l.mem.next⟩, l.mem.next, ?_, ?_, distinct, ?_⟩
      · have tail : l.tail = some b := by simp [last]
        rw [pushBack, bind_ok allocated]
        simp only [bind_ok written, tail, bind_ok read, linked]
        rfl
      · have apart : ∀ a ∈ nodes.map Prod.fst, a ≠ b := by
          rintro a inside rfl
          have twice := holds.distinct
          rw [List.map_append, List.nodup_append] at twice
          exact twice.2.2 a inside a (by simp) rfl
        have kept : Segment mem' l.head nodes (some b) := by
          apply first.frame
          intro a inside
          have older : a ≠ l.mem.next := by
            rintro rfl
            exact fresh (by simp [inside])
          exact (others' a (apart a inside)).trans (others a older)
        have end_node : mem'.block l.mem.next = some [some ⟨x, none⟩] :=
          (others' _ (Ne.symm old)).trans new
        exact segment_append.mpr ⟨some l.mem.next,
          segment_append.mpr ⟨some b, kept, rfl, some l.mem.next, behind, rfl⟩,
          rfl, none, end_node, rfl⟩
      · simp

theorem peekFront_nil (holds : l.Holds []) : l.peekFront = .ok none := by
  have start : l.head = none := holds.way
  rw [peekFront, start]

theorem peekFront_cons {a : Nat} {x : α} (holds : l.Holds ((a, x) :: nodes))
    : l.peekFront = .ok (some x) := by
  obtain ⟨start, next, stored, _⟩ := holds.way
  obtain ⟨mem, read, _⟩ := link_node stored none
  rw [peekFront, start]
  simp only [read]
  rfl

theorem popFront_nil (holds : l.Holds []) : l.popFront = .ok none := by
  have start : l.head = none := holds.way
  rw [popFront, start]

/-- The first node leaves and takes the tail along if it is the last. -/
theorem popFront_cons {a : Nat} {x : α} (holds : l.Holds ((a, x) :: nodes))
    : ∃ l', l.popFront = .ok (some (x, l')) ∧ l'.Holds nodes := by
  obtain ⟨start, next, stored, rest⟩ := holds.way
  obtain ⟨alone, distinct⟩ := List.nodup_cons.mp holds.distinct
  have read : l.mem.load (some a) 0 = .ok ⟨x, next⟩ := BlockMemory.load_live (i := 0) stored rfl
  have used : a < l.mem.next := BlockMemory.lt_next stored
  refine ⟨⟨l.mem.update a none, next, if next = none then none else l.tail⟩, ?_, ?_, distinct, ?_⟩
  · rw [popFront, start]
    simp only [bind_ok read, BlockMemory.free_live stored]
    rfl
  · apply rest.frame
    intro b inside
    have other : b ≠ a := fun same => alone (same ▸ inside)
    rw [BlockMemory.update_block used, if_neg other]
  · cases nodes with
    | nil =>
        have finish : next = none := rest
        rw [if_pos finish]
        rfl
    | cons node nodes =>
        have more : next = some node.1 := rest.1
        rw [if_neg (by simp [more]), holds.tail, List.getLast?_cons_cons]

end LinkedList

end QKeySys.Library
