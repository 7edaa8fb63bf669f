import Mathlib.Data.List.Nodup
import QKeySys.Library.LinkedList
import QKeySys.Library.Ownership

/-! Linked lists whose nodes are all the live blocks: the operations keep it so, and a walk from
the head frees every node. Nothing here names a program.
-/

namespace QKeySys.Library

namespace BlockMemory

variable {α : Type} {mem mem' : BlockMemory α} {owners : List Pointer} {a : Nat}

/-- The addresses of the live blocks. -/
def liveAddresses (mem : BlockMemory α) : List Nat :=
  (List.range mem.next).filter (fun a => (mem.block a).isSome)

/-- How many blocks are live. -/
def liveBlocks (mem : BlockMemory α) : Nat := mem.liveAddresses.length

theorem liveAddresses_nodup (mem : BlockMemory α) : mem.liveAddresses.Nodup :=
  List.nodup_range.filter _

theorem mem_liveAddresses : a ∈ mem.liveAddresses ↔ (mem.block a).isSome = true := by
  rw [liveAddresses, List.mem_filter, List.mem_range]
  refine and_iff_right_of_imp (fun live => ?_)
  obtain ⟨cells, stored⟩ := Option.isSome_iff_exists.mp live
  exact lt_next stored

/-- Releasing a live block takes its address away. -/
theorem liveAddresses_release (live : (mem.block a).isSome = true)
    : mem.liveAddresses.Perm (a :: (mem.update a none).liveAddresses) := by
  obtain ⟨cells, stored⟩ := Option.isSome_iff_exists.mp live
  have gone : a ∉ (mem.update a none).liveAddresses := by
    rw [mem_liveAddresses, update_block (lt_next stored), if_pos rfl]
    simp
  rw [List.perm_ext_iff_of_nodup mem.liveAddresses_nodup
    (List.nodup_cons.mpr ⟨gone, liveAddresses_nodup _⟩)]
  intro b
  rw [List.mem_cons, mem_liveAddresses, mem_liveAddresses, update_block (lt_next stored)]
  split
  case isTrue same => simp [same, live]
  case isFalse other => simp [other]

theorem liveBlocks_release (live : (mem.block a).isSome = true)
    : (mem.update a none).liveBlocks < mem.liveBlocks := by
  rw [liveBlocks, liveBlocks, (liveAddresses_release live).length_eq]
  exact Nat.lt_succ_self _

/-- Distinct pointers to live blocks that own all of them count them. -/
theorem Owned.liveBlocks_eq {addresses : List Nat}
    (owned : mem.Owned (addresses.map some)) (distinct : addresses.Nodup)
    (live : ∀ a ∈ addresses, (mem.block a).isSome = true)
    : mem.liveBlocks = addresses.length := by
  apply List.Perm.length_eq
  rw [List.perm_ext_iff_of_nodup mem.liveAddresses_nodup distinct]
  intro b
  rw [mem_liveAddresses]
  refine ⟨fun found => ?_, live b⟩
  have owner := owned b (Option.isSome_iff_ne_none.mp found)
  simpa using owner

theorem Owned.liveBlocks_nil (owned : mem.Owned []) : mem.liveBlocks = 0 :=
  @liveBlocks_eq _ _ [] owned List.nodup_nil (by simp)

theorem Owned.liveBlocks_singleton {cells : List (Option α)} (owned : mem.Owned [some a])
    (live : mem.block a = some cells)
    : mem.liveBlocks = 1 :=
  @liveBlocks_eq _ _ [a] owned (List.nodup_singleton a) (by simp [live])

/-- A write leaves the blocks with their owners. -/
theorem Owned.store {i : Int} {p : Pointer} {x : α} (owned : mem.Owned owners)
    (stored : mem.store p i x = .ok mem')
    : mem'.Owned owners := by
  have handed := handed_store stored
  cases p with
  | none => cases stored
  | some a =>
      have own : some a ∈ owners := by
        apply owned
        intro gone
        rw [store_released gone] at stored
        cases stored
      have all := handed.owned owners (owned.mono (List.subset_cons_self ..))
      exact all.mono (List.cons_subset.mpr ⟨own, List.Subset.refl _⟩)

end BlockMemory

namespace LinkedList

open BlockMemory

variable {α : Type} {l l' : LinkedList α} {mem mem' : BlockMemory (Node α)} {p : Pointer}
variable {nodes : List (Nat × α)} {owners : List Pointer} {x : α}

/-- The list runs through these nodes, and there are no other blocks. -/
structure Owns (l : LinkedList α) (nodes : List (Nat × α)) : Prop extends l.Holds nodes where
  owned : l.mem.Owned ((nodes.map Prod.fst).map some)

theorem empty_owns : (empty : LinkedList α).Owns [] where
  toHolds := empty_holds
  owned := empty_owned _

/-- A granted node belongs to the new tail. -/
theorem pushBack_owned (pushed : l.pushBack x true = .ok (true, l'))
    (owned : l.mem.Owned owners)
    : l'.mem.Owned (l'.tail :: owners) := by
  obtain ⟨⟨mem, n⟩, allocated, rest⟩ := of_bind pushed
  have made := handed_realloc allocated
  cases n with
  | none => cases rest
  | some a =>
      have own := made.owned owners (owned_none_cons.mpr owned)
      obtain ⟨mem', written, linked⟩ := of_bind rest
      have own' := own.store written
      split at linked
      case h_1 =>
        obtain ⟨-, rfl⟩ := Prod.mk.inj (Except.ok.inj linked)
        exact own'
      case h_2 =>
        obtain ⟨last, read, joined⟩ := of_bind linked
        obtain ⟨mem'', rewritten, done⟩ := of_map joined
        obtain ⟨-, rfl⟩ := Prod.mk.inj done
        exact own'.store rewritten

/-- The only new block is that of the new node. -/
theorem Owns.pushBack (owns : l.Owns nodes) (x : α)
    : ∃ l' a, l.pushBack x true = .ok (true, l') ∧ l'.Owns (nodes ++ [(a, x)]) := by
  obtain ⟨l', a, pushed, holds⟩ := pushBack_granted owns.toHolds x
  refine ⟨l', a, pushed, holds, (pushBack_owned pushed owns.owned).mono ?_⟩
  have tail : l'.tail = some a := by simp [holds.tail]
  simp [tail]

/-- The block of the first node goes with it. -/
theorem Owns.popFront {a : Nat} (owns : l.Owns ((a, x) :: nodes))
    : ∃ l', l.popFront = .ok (some (x, l')) ∧ l'.Owns nodes := by
  obtain ⟨l', popped, holds⟩ := popFront_cons owns.toHolds
  refine ⟨l', popped, holds, ?_⟩
  have start : l.head = some a := owns.way.1
  have taken := popped
  rw [LinkedList.popFront, start] at taken
  obtain ⟨node, read, unlinked⟩ := of_bind taken
  obtain ⟨mem, freed, done⟩ := of_map unlinked
  obtain ⟨-, rfl⟩ := Prod.mk.inj (Option.some.inj done)
  exact owned_none_cons.mp ((handed_free freed).owned _ owns.owned)

/-- As many blocks are live as there are nodes. -/
theorem Owns.liveBlocks (owns : l.Owns nodes) : l.mem.liveBlocks = nodes.length := by
  rw [owns.owned.liveBlocks_eq owns.distinct, List.length_map]
  intro a inside
  obtain ⟨cells, live⟩ := owns.way.live inside
  exact Option.isSome_iff_exists.mpr ⟨cells, live⟩

-----------------------------------------------------------------------------------------
-- Freeing
-----------------------------------------------------------------------------------------

/-- Frees the nodes from a pointer on. The pointer to the next node is read before its node is
released, and every turn leaves fewer live blocks.
-/
def freeFrom (mem : BlockMemory (Node α)) (p : Pointer) : Except Fault (BlockMemory (Node α)) :=
  match p with
  | none => .ok mem
  | some a =>
      if live : (mem.block a).isSome then
        have := liveBlocks_release live
        (mem.load (some a) 0).bind (fun node => freeFrom (mem.update a none) node.next)
      else
        .error .released
termination_by mem.liveBlocks

/-- A turn of the walk: load, free, and on with the next node. -/
theorem freeFrom_some (mem : BlockMemory (Node α)) (a : Nat)
    : freeFrom mem (some a)
      = (mem.load (some a) 0).bind (fun node =>
          (mem.free (some a)).bind (fun mem => freeFrom mem node.next)) := by
  rw [freeFrom]
  split
  case isTrue live =>
    obtain ⟨cells, stored⟩ := Option.isSome_iff_exists.mp live
    rw [free_live stored]
    rfl
  case isFalse gone =>
    rw [load, Option.not_isSome_iff_eq_none.mp gone]
    rfl

/-- Frees all nodes; head and tail are null then. -/
def freeAll (l : LinkedList α) : Except Fault (LinkedList α) :=
  (freeFrom l.mem l.head).map (fun mem => ⟨mem, none, none⟩)

/-- The walk along distinct nodes that own all blocks ends and leaves no block, by induction on
the nodes.
-/
theorem Segment.freeFrom (way : Segment mem p nodes none)
    (distinct : (nodes.map Prod.fst).Nodup) (owned : mem.Owned ((nodes.map Prod.fst).map some))
    : ∃ mem', LinkedList.freeFrom mem p = .ok mem' ∧ mem'.Owned [] := by
  induction nodes generalizing mem p with
  | nil =>
      obtain rfl : p = none := way
      exact ⟨mem, by rw [LinkedList.freeFrom], owned⟩
  | cons node nodes ih =>
      obtain ⟨a, x⟩ := node
      obtain ⟨rfl, next, stored, rest⟩ := way
      obtain ⟨alone, distinct⟩ := List.nodup_cons.mp distinct
      have freed := free_live stored
      have kept : Segment (mem.update a none) next nodes none := by
        apply rest.frame
        intro b inside
        have other : b ≠ a := fun same => alone (same ▸ inside)
        rw [update_block (lt_next stored), if_neg other]
      obtain ⟨mem', walked, nothing⟩ :=
        ih kept distinct (owned_none_cons.mp ((handed_free freed).owned _ owned))
      refine ⟨mem', ?_, nothing⟩
      have read : mem.load (some a) 0 = .ok ⟨x, next⟩ := load_live (i := 0) stored rfl
      rw [freeFrom_some, bind_ok read, bind_ok freed]
      exact walked

theorem Owns.freeAll (owns : l.Owns nodes)
    : ∃ l', l.freeAll = .ok l' ∧ l'.Owns [] := by
  obtain ⟨mem, freed, nothing⟩ := owns.way.freeFrom owns.distinct owns.owned
  refine ⟨⟨mem, none, none⟩, by rw [LinkedList.freeAll, freed]; rfl, ⟨rfl, List.nodup_nil, rfl⟩,
    nothing⟩

end LinkedList

end QKeySys.Library
