import Mathlib.Logic.Function.Basic

/-! Memory made of blocks of cells that can be released: loads and stores that fault outside
of live blocks, `realloc` and `free`. Nothing here names a program; a model supplies the type
of the cells.
-/

namespace QKeySys.Library

/-- What goes wrong with a pointer: its block has been released, or the access is outside of
the block or reads a cell that was never written.
-/
inductive Fault where
  | released
  | outside
  deriving DecidableEq, Repr

/-- A pointer to the start of a block; `none` is the null pointer. -/
abbrev Pointer := Option Nat

/-- The live blocks by address; a cell is empty until it is written. Addresses are not
reused, so that a pointer to a released block stays recognisable.
-/
structure BlockMemory (α : Type) where
  block : Nat → Option (List (Option α))
  next : Nat
  fresh : ∀ a, next ≤ a → block a = none

namespace BlockMemory

variable {α : Type} {mem : BlockMemory α} {a : Nat} {cells : List (Option α)}

def empty : BlockMemory α where
  block := fun _ => none
  next := 0
  fresh := by simp

theorem lt_next (live : mem.block a = some cells) : a < mem.next := by
  rcases Nat.lt_or_ge a mem.next with used | beyond
  · exact used
  · simp [mem.fresh a beyond] at live

/-- Changes or releases the block at an address, if the address is in use. -/
def update (mem : BlockMemory α) (a : Nat) (content : Option (List (Option α)))
    : BlockMemory α where
  block b := if b = a ∧ a < mem.next then content else mem.block b
  next := mem.next
  fresh b beyond := by
    rw [if_neg (by omega)]
    exact mem.fresh b beyond

/-- Adds a block at a new address. -/
def extend (mem : BlockMemory α) (cells : List (Option α)) : BlockMemory α where
  block := Function.update mem.block mem.next (some cells)
  next := mem.next + 1
  fresh b beyond := by
    rw [Function.update_of_ne (by omega)]
    exact mem.fresh b (by omega)

theorem update_block (used : a < mem.next) (content : Option (List (Option α))) (b : Nat)
    : (mem.update a content).block b = if b = a then content else mem.block b := by
  simp [update, used]

@[simp]
theorem update_next (content : Option (List (Option α)))
    : (mem.update a content).next = mem.next := rfl

@[simp]
theorem extend_block (b : Nat)
    : (mem.extend cells).block b = if b = mem.next then some cells else mem.block b := by
  simp [extend, Function.update_apply]

@[simp]
theorem extend_next : (mem.extend cells).next = mem.next + 1 := rfl

/-- Reads the cell at an index of a block. -/
def load (mem : BlockMemory α) (p : Pointer) (i : Int) : Except Fault α :=
  match p with
  | none => .error .outside
  | some a =>
      match mem.block a with
      | none => .error .released
      | some cells =>
          if i < 0 then .error .outside
          else
            match cells[i.toNat]? with
            | some (some x) => .ok x
            | _ => .error .outside

/-- Writes the cell at an index of a block. -/
def store (mem : BlockMemory α) (p : Pointer) (i : Int) (x : α)
    : Except Fault (BlockMemory α) :=
  match p with
  | none => .error .outside
  | some a =>
      match mem.block a with
      | none => .error .released
      | some cells =>
          if 0 ≤ i ∧ i < cells.length then
            .ok (mem.update a (some (cells.set i.toNat (some x))))
          else
            .error .outside

/-- `free`: nothing for the null pointer. -/
def free (mem : BlockMemory α) (p : Pointer) : Except Fault (BlockMemory α) :=
  match p with
  | none => .ok mem
  | some a =>
      match mem.block a with
      | none => .error .released
      | some _ => .ok (mem.update a none)

/-- The cells of a block that is made shorter or longer. -/
def resize (cells : List (Option α)) (length : Nat) : List (Option α) :=
  cells.take length ++ List.replicate (length - cells.length) none

/-- `realloc` to a block of the given length. Length zero releases the block and returns the
null pointer; a refused request returns it and leaves the block alone.
-/
def realloc (mem : BlockMemory α) (p : Pointer) (length : Nat) (granted : Bool)
    : Except Fault (BlockMemory α × Pointer) :=
  match p with
  | none =>
      if granted ∧ length ≠ 0 then .ok (mem.extend (resize [] length), some mem.next)
      else .ok (mem, none)
  | some a =>
      match mem.block a with
      | none => .error .released
      | some cells =>
          if length = 0 then .ok (mem.update a none, none)
          else if granted then
            .ok ((mem.update a none).extend (resize cells length),
              some mem.next)
          else .ok (mem, none)

/-- From `mem` to `mem'` only the block behind `p` was touched, which is now behind `p'`. -/
structure Touches (mem mem' : BlockMemory α) (p p' : Pointer) : Prop where
  next : mem.next ≤ mem'.next
  others : ∀ b, b < mem.next → some b ≠ p → mem'.block b = mem.block b
  moved : p' = p ∨ ∀ b, p' = some b → mem.next ≤ b

theorem Touches.refl (mem : BlockMemory α) (p : Pointer) : Touches mem mem p p :=
  ⟨Nat.le_refl _, fun _ _ _ => rfl, .inl rfl⟩

theorem Touches.trans {mem mem' mem'' : BlockMemory α} {p p' p'' : Pointer}
    (first : Touches mem mem' p p') (second : Touches mem' mem'' p' p'')
    : Touches mem mem'' p p'' where
  next := Nat.le_trans first.next second.next
  others b used other := by
    have apart : some b ≠ p' := by
      rcases first.moved with rfl | new
      · exact other
      · intro same
        exact absurd (new b same.symm) (Nat.not_le.mpr used)
    rw [second.others b (Nat.lt_of_lt_of_le used first.next) apart, first.others b used other]
  moved := by
    rcases second.moved with rfl | new
    · exact first.moved
    · exact .inr (fun b same => Nat.le_trans first.next (new b same))

/-- A live block that was not touched is still there. -/
theorem Touches.live {mem' : BlockMemory α} {p p' : Pointer} (touches : Touches mem mem' p p')
    (live : mem.block a = some cells) (other : some a ≠ p)
    : mem'.block a = some cells :=
  (touches.others a (lt_next live) other).trans live

/-- The pointer of an untouched block stays different from that of the touched one. -/
theorem Touches.apart {mem' : BlockMemory α} {p p' : Pointer} (touches : Touches mem mem' p p')
    (live : mem.block a = some cells) (other : some a ≠ p)
    : some a ≠ p' := by
  rcases touches.moved with rfl | new
  · exact other
  · intro same
    exact absurd (new a same.symm) (Nat.not_le.mpr (lt_next live))

/-- Changing or releasing the block behind a pointer touches nothing else. -/
theorem update_touches (used : a < mem.next) (content : Option (List (Option α)))
    : Touches mem (mem.update a content) (some a) (some a) where
  next := Nat.le_refl _
  others b _ other := by
    rw [update_block used, if_neg (fun same => other (congrArg some same))]
  moved := .inl rfl

theorem load_live (live : mem.block a = some cells) {i : Nat} {x : α}
    (written : cells[i]? = some (some x))
    : mem.load (some a) i = .ok x := by
  simp [load, live, written]

theorem store_live (live : mem.block a = some cells) {i : Nat} (inside : i < cells.length)
    (x : α)
    : mem.store (some a) i x = .ok (mem.update a (some (cells.set i (some x)))) := by
  simp [store, live, inside]

theorem free_live (live : mem.block a = some cells)
    : mem.free (some a) = .ok (mem.update a none) := by
  simp [free, live]

/-- A released block can be neither written nor released again. -/
theorem store_released (gone : mem.block a = none) (i : Int) (x : α)
    : mem.store (some a) i x = .error .released := by
  simp [store, gone]

theorem free_released (gone : mem.block a = none)
    : mem.free (some a) = .error .released := by
  simp [free, gone]

/-- Shrinking to nothing releases the block. -/
theorem realloc_zero (live : mem.block a = some cells) (granted : Bool)
    : mem.realloc (some a) 0 granted = .ok (mem.update a none, none) := by
  simp [realloc, live]

/-- A granted `realloc` of a live block moves its cells to a new block of the new length. -/
theorem realloc_granted (live : mem.block a = some cells) {length : Nat}
    (some_length : length ≠ 0)
    : mem.realloc (some a) length true
      = .ok ((mem.update a none).extend (resize cells length), some mem.next) := by
  simp [realloc, live, some_length]

theorem realloc_refused (live : mem.block a = some cells) {length : Nat}
    (some_length : length ≠ 0)
    : mem.realloc (some a) length false = .ok (mem, none) := by
  simp [realloc, live, some_length]

/-- A granted `realloc` touches nothing but the block it moves. -/
theorem extend_touches (used : a < mem.next)
    : Touches mem ((mem.update a none).extend cells) (some a) (some mem.next) where
  next := Nat.le_succ _
  others b below other := by
    rw [extend_block, if_neg (by simpa using Nat.ne_of_lt below), update_block used,
      if_neg (fun same => other (congrArg some same))]
  moved := .inr (fun b same => Nat.le_of_eq (Option.some.inj same))

theorem alloc_touches : Touches mem (mem.extend cells) none (some mem.next) where
  next := Nat.le_succ _
  others b below _ := by rw [extend_block, if_neg (Nat.ne_of_lt below)]
  moved := .inr (fun b same => Nat.le_of_eq (Option.some.inj same))

/-- The cells that fit are kept. -/
theorem resize_getElem? {length i : Nat} (inside : i < length) (within : i < cells.length)
    : (resize cells length)[i]? = cells[i]? := by
  rw [resize, List.getElem?_append_left (by simp; omega), List.getElem?_take_of_lt inside]

@[simp]
theorem resize_length (length : Nat) : (resize cells length).length = length := by
  simp [resize]
  omega

end BlockMemory

/-- What follows a successful step goes on with its result. -/
theorem bind_ok {ε α β : Type} {first : Except ε α} {result : α} (ran : first = .ok result)
    (rest : α → Except ε β)
    : first.bind rest = rest result := by
  rw [ran]
  rfl

theorem bind_error {ε α β : Type} {first : Except ε α} {fault : ε}
    (failed : first = .error fault) (rest : α → Except ε β)
    : first.bind rest = .error fault := by
  rw [failed]
  rfl

/-- A sequence that succeeds had a first step that did. -/
theorem of_bind {ε α β : Type} {first : Except ε α} {rest : α → Except ε β} {final : β}
    (ran : first.bind rest = .ok final)
    : ∃ result, first = .ok result ∧ rest result = .ok final := by
  cases first with
  | error fault => cases ran
  | ok result => exact ⟨result, rfl, ran⟩

theorem of_map {ε α β : Type} {first : Except ε α} {f : α → β} {final : β}
    (ran : first.map f = .ok final)
    : ∃ result, first = .ok result ∧ f result = final := by
  cases first with
  | error fault => cases ran
  | ok result => exact ⟨result, rfl, Except.ok.inj ran⟩

theorem ok_of_toOption {ε α : Type} {first : Except ε α} {result : α}
    (ran : first.toOption = some result)
    : first = .ok result := by
  cases first with
  | error fault => cases ran
  | ok result' => exact congrArg Except.ok (Option.some.inj ran)

/-- Runs a body for the indices below `n`, in order. -/
def forLoop {ε σ : Type} : (n : Nat) → (body : Nat → σ → Except ε σ) → σ → Except ε σ
  | 0, _, s => .ok s
  | n + 1, body, s => (forLoop n body s).bind (body n)

/-- A loop whose body always succeeds and keeps an invariant does so, by induction on the
number of turns.
-/
theorem forLoop_ok {ε σ : Type} (n : Nat) (body : Nat → σ → Except ε σ) (s : σ)
    (inv : Nat → σ → Prop) (start : inv 0 s)
    (turn : ∀ i, i < n → ∀ s, inv i s → ∃ s', body i s = .ok s' ∧ inv (i + 1) s')
    : ∃ s', forLoop n body s = .ok s' ∧ inv n s' := by
  induction n with
  | zero => exact ⟨s, rfl, start⟩
  | succ n ih =>
      obtain ⟨middle, ran, holds⟩ := ih (fun i less => turn i (Nat.lt_succ_of_lt less))
      obtain ⟨s', last, holds'⟩ := turn n (Nat.lt_succ_self n) middle holds
      exact ⟨s', by rw [forLoop, ran]; exact last, holds'⟩

/-- Whatever a successful loop returns satisfies an invariant that successful turns keep. -/
theorem forLoop_inv {ε σ : Type} {n : Nat} {body : Nat → σ → Except ε σ} {s s' : σ}
    (inv : Nat → σ → Prop) (start : inv 0 s)
    (turn : ∀ i, i < n → ∀ s s', inv i s → body i s = .ok s' → inv (i + 1) s')
    (ran : forLoop n body s = .ok s')
    : inv n s' := by
  induction n generalizing s' with
  | zero =>
      obtain rfl := Except.ok.inj ran
      exact start
  | succ n ih =>
      obtain ⟨middle, earlier, last⟩ := of_bind ran
      have holds := ih (fun i less => turn i (Nat.lt_succ_of_lt less)) earlier
      exact turn n (Nat.lt_succ_self n) middle s' holds last

end QKeySys.Library
