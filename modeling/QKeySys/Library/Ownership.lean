import QKeySys.Library.BlockMemory

/-! Ownership of blocks: the pointers of a program that between them hold every live block. An
operation that succeeds hands its block on to another pointer, leaves none behind and touches no
other, which is the absence of leaks and of interference.
-/

namespace QKeySys.Library.BlockMemory

variable {α : Type} {mem mem' mem'' last : BlockMemory α} {p p' p'' q : Pointer}
variable {owners owners' : List Pointer} {a : Nat} {cells : List (Option α)}

/-- Every live block is behind one of the pointers. -/
def Owned (mem : BlockMemory α) (owners : List Pointer) : Prop :=
  ∀ a, mem.block a ≠ none → some a ∈ owners

theorem empty_owned (owners : List Pointer) : (empty : BlockMemory α).Owned owners :=
  fun _ live => absurd rfl live

/-- More pointers own no fewer blocks. -/
theorem Owned.mono (owned : mem.Owned owners) (more : owners ⊆ owners') : mem.Owned owners' :=
  fun a live => more (owned a live)

theorem Owned.swap (owned : mem.Owned (p :: q :: owners)) : mem.Owned (q :: p :: owners) :=
  owned.mono (List.Perm.swap q p owners).subset

/-- The null pointer owns nothing. -/
theorem owned_none_cons : mem.Owned (none :: owners) ↔ mem.Owned owners := by
  refine ⟨fun owned a live => ?_, fun owned => owned.mono (List.subset_cons_self ..)⟩
  rcases List.mem_cons.mp (owned a live) with own | other
  · cases own
  · exact other

/-- What only the null pointer owns is not live. -/
theorem Owned.noneLive (owned : mem.Owned [none]) : ∀ a, mem.block a = none := by
  intro a
  by_contra live
  simpa using owned a live

/-- A pointer to a block that is live or was released. -/
def Used (mem : BlockMemory α) (p : Pointer) : Prop := ∀ a, p = some a → a < mem.next

theorem used_none (mem : BlockMemory α) : mem.Used none := by simp [Used]

theorem Used.later (used : mem.Used p) (next : mem.next ≤ mem'.next) : mem'.Used p :=
  fun a same => Nat.lt_of_lt_of_le (used a same) next

/-- From `mem` to `mem'` the block behind `p` was handed on to `p'`: no other block was touched,
and none was left behind.
-/
structure Handed (mem mem' : BlockMemory α) (p p' : Pointer) : Prop
    extends Touches mem mem' p p' where
  used : mem.Used p → mem'.Used p'
  owned : ∀ owners, mem.Owned (p :: owners) → mem'.Owned (p' :: owners)

theorem Handed.refl (mem : BlockMemory α) (p : Pointer) : Handed mem mem p p :=
  ⟨.refl mem p, id, fun _ owned => owned⟩

theorem Handed.trans (first : Handed mem mem' p p') (second : Handed mem' mem'' p' p'')
    : Handed mem mem'' p p'' where
  toTouches := first.toTouches.trans second.toTouches
  used before := second.used (first.used before)
  owned owners owned := second.owned owners (first.owned owners owned)

/-- The block that a pointer got is not behind another one that was used before. -/
theorem Handed.fresh (handed : Handed mem mem' none p') (before : mem.Used q)
    : ∀ a, p' = some a → some a ≠ q := by
  intro a same other
  rcases handed.moved with null | new
  · cases null.symm.trans same
  · exact absurd (new a same) (Nat.not_le.mpr (before a other.symm))

/-- Work on one pointer while another one owns a block that is new before and gone after it. -/
theorem Handed.around (first : Handed mem mem' none q) (second : Handed mem' mem'' p p')
    (third : Handed mem'' last q none)
    : Handed mem last p p' where
  next := Nat.le_trans first.next (Nat.le_trans second.next third.next)
  others b used other := by
    have apart : some b ≠ q := by
      rcases first.moved with rfl | new
      · simp
      · exact fun same => absurd (new b same.symm) (Nat.not_le.mpr used)
    have used' := Nat.lt_of_lt_of_le used first.next
    rw [third.others b (Nat.lt_of_lt_of_le used' second.next) apart,
      second.others b used' other, first.others b used (by simp)]
  moved := second.moved.imp_right (fun new b same => Nat.le_trans first.next (new b same))
  used before := (second.used (before.later first.next)).later third.next
  owned owners owned := by
    have made := first.owned (p :: owners) (owned_none_cons.mpr owned)
    have used := second.owned (q :: owners) (made.mono (by simp))
    exact owned_none_cons.mp (third.owned (p' :: owners) (used.mono (by simp)))

/-- New contents of a block leave it with its owner. -/
theorem handed_update (live : mem.block a = some cells) (cells' : List (Option α))
    : Handed mem (mem.update a (some cells')) (some a) (some a) where
  toTouches := update_touches (lt_next live) _
  used before := before.later (Nat.le_refl _)
  owned owners owned b live' := by
    rw [update_block (lt_next live)] at live'
    split at live'
    case isTrue same => exact owned b (by simp [same, live])
    case isFalse => exact owned b live'

/-- A released block has no owner. -/
theorem handed_release (live : mem.block a = some cells)
    : Handed mem (mem.update a none) (some a) none where
  next := Nat.le_refl _
  others := (update_touches (lt_next live) none).others
  moved := .inr (by simp)
  used _ := used_none _
  owned owners owned b live' := by
    rw [update_block (lt_next live)] at live'
    split at live'
    case isTrue => exact absurd rfl live'
    case isFalse other =>
      rcases List.mem_cons.mp (owned b live') with own | later
      · exact absurd (Option.some.inj own) other
      · exact List.mem_cons_of_mem _ later

/-- A new block belongs to the pointer that is returned. -/
theorem handed_extend (mem : BlockMemory α) (cells : List (Option α))
    : Handed mem (mem.extend cells) none (some mem.next) where
  toTouches := alloc_touches
  used _ b same := Option.some.inj same ▸ Nat.lt_succ_self _
  owned owners owned b live := by
    rw [extend_block] at live
    split at live
    case isTrue same => simp [same]
    case isFalse => exact List.mem_cons_of_mem _ (owned_none_cons.mp owned b live)

/-- A pointer to a released block may be kept. -/
theorem Handed.dangling (released : Handed mem mem' p none) : Handed mem mem' p p where
  next := released.next
  others := released.others
  moved := .inl rfl
  used before := before.later released.next
  owned owners owned :=
    (owned_none_cons.mp (released.owned owners owned)).mono (List.subset_cons_self ..)

theorem handed_store {i : Int} {x : α} (stored : mem.store p i x = .ok mem')
    : Handed mem mem' p p := by
  cases p with
  | none => cases stored
  | some a =>
      unfold store at stored
      cases live : mem.block a with
      | none => simp [live] at stored
      | some cells =>
          simp only [live] at stored
          split at stored
          case isFalse => cases stored
          case isTrue inside =>
            obtain rfl := Except.ok.inj stored
            exact handed_update live _

theorem handed_free (freed : mem.free p = .ok mem') : Handed mem mem' p none := by
  cases p with
  | none =>
      obtain rfl := Except.ok.inj freed
      exact .refl _ _
  | some a =>
      unfold free at freed
      cases live : mem.block a with
      | none => simp [live] at freed
      | some cells =>
          simp only [live] at freed
          obtain rfl := Except.ok.inj freed
          exact handed_release live

/-- When `realloc` returns the null pointer, the old pointer is kept. -/
theorem handed_realloc {length : Nat} {granted : Bool}
    (moved : mem.realloc p length granted = .ok (mem', q))
    : Handed mem mem' p (if q = none then p else q) := by
  cases p with
  | none =>
      simp only [realloc] at moved
      split at moved
      case isTrue =>
        obtain ⟨rfl, rfl⟩ := Prod.mk.inj (Except.ok.inj moved)
        exact handed_extend mem _
      case isFalse =>
        obtain ⟨rfl, rfl⟩ := Prod.mk.inj (Except.ok.inj moved)
        exact .refl _ _
  | some a =>
      unfold realloc at moved
      cases live : mem.block a with
      | none => simp [live] at moved
      | some cells =>
          simp only [live] at moved
          split at moved
          case isTrue =>
            obtain ⟨rfl, rfl⟩ := Prod.mk.inj (Except.ok.inj moved)
            exact (handed_release live).dangling
          case isFalse =>
            split at moved
            case isTrue =>
              obtain ⟨rfl, rfl⟩ := Prod.mk.inj (Except.ok.inj moved)
              exact (handed_release live).trans (handed_extend (mem.update a none) _)
            case isFalse =>
              obtain ⟨rfl, rfl⟩ := Prod.mk.inj (Except.ok.inj moved)
              exact .refl _ _

end QKeySys.Library.BlockMemory
