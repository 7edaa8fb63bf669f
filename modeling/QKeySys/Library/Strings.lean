import QKeySys.Library.BlockMemory

/-! Strings with a terminator: the prefix test with a length, pointers into a string, and the
buffers that hold one. Nothing here names a program; a model supplies the characters and the
terminator.
-/

namespace QKeySys.Library.Strings

variable {α : Type} {s t name : List α} {n : Nat}

-----------------------------------------------------------------------------------------
-- Characters before the terminator
-----------------------------------------------------------------------------------------

/-- `strncmp(s, t, n) == 0`. The terminator is compared as well, so that a string which ends
within the `n` characters only equals itself.
-/
def samePrefix [DecidableEq α] (n : Nat) (s t : List α) : Bool := s.take n = t.take n

/-- The string at `s + n`. A pointer past the terminator leads to none. -/
def offset (s : List α) (n : Nat) : Except Fault (List α) :=
  if n ≤ s.length then .ok (s.drop n) else .error .outside

/-- The test with the length of a name asks whether the string begins with it. -/
theorem samePrefix_name [DecidableEq α]
    : samePrefix name.length s name = true ↔ ∃ v, s = name ++ v := by
  rw [samePrefix, decide_eq_true_iff, List.take_length]
  constructor
  · intro begins
    refine ⟨s.drop name.length, ?_⟩
    calc
      s = s.take name.length ++ s.drop name.length := (List.take_append_drop _ s).symm
      _ = name ++ s.drop name.length := by rw [begins]
  · rintro ⟨v, rfl⟩
    exact List.take_left

/-- The test with one more than the length of a name reaches its terminator: only the name
itself passes.
-/
theorem samePrefix_terminated [DecidableEq α]
    : samePrefix (name.length + 1) s name = true ↔ s = name := by
  rw [samePrefix, decide_eq_true_iff, List.take_of_length_le (Nat.le_succ name.length)]
  constructor
  · intro begins
    have short : s.length ≤ name.length + 1 := by
      by_contra long
      have lengths := congrArg List.length begins
      rw [List.length_take] at lengths
      omega
    rwa [List.take_of_length_le short] at begins
  · rintro rfl
    exact List.take_of_length_le (Nat.le_succ s.length)

theorem offset_name (v : List α) : offset (name ++ v) name.length = .ok v := by
  simp [offset]

-----------------------------------------------------------------------------------------
-- Buffers
-----------------------------------------------------------------------------------------

/-- The string that a buffer holds; without a terminator the read runs out of the buffer. -/
def read [DecidableEq α] (nul : α) (buffer : List α) : Except Fault (List α) :=
  if nul ∈ buffer then .ok (buffer.takeWhile (· ≠ nul)) else .error .outside

/-- Writes characters from the start of a buffer on. -/
def write (buffer chars : List α) : Except Fault (List α) :=
  if chars.length ≤ buffer.length then .ok (chars ++ buffer.drop chars.length)
  else .error .outside

/-- `snprintf` with room for `cap` characters: what fits, and the terminator. -/
def print (nul : α) (buffer : List α) (cap : Nat) (text : List α) : Except Fault (List α) :=
  write buffer (text.take (cap - 1) ++ [nul])

/-- A terminated string is read back. -/
theorem read_terminated [DecidableEq α] {nul : α} (clean : nul ∉ s) (rest : List α)
    : read nul (s ++ nul :: rest) = .ok s := by
  have all : ∀ a ∈ s, decide (a ≠ nul) = true := by
    intro a inside
    exact decide_eq_true (fun same => clean (same ▸ inside))
  rw [read, if_pos (by simp), List.takeWhile_append_of_pos all]
  simp

/-- What `snprintf` leaves in a buffer with room for it. -/
theorem print_ok (nul : α) {buffer : List α} {cap : Nat} (some_room : 0 < cap)
    (room : cap ≤ buffer.length) (text : List α)
    : ∃ rest, print nul buffer cap text = .ok (text.take (cap - 1) ++ nul :: rest) := by
  refine ⟨buffer.drop (text.take (cap - 1) ++ [nul]).length, ?_⟩
  rw [print, write, if_pos]
  · rw [List.append_assoc, List.singleton_append]
  · rw [List.length_append, List.length_take, List.length_singleton]
    omega

-----------------------------------------------------------------------------------------
-- Occurrences
-----------------------------------------------------------------------------------------

/-- The last place of a character. -/
def lastIdx? [DecidableEq α] (c : α) : List α → Option Nat
  | [] => none
  | a :: s => ((lastIdx? c s).map (· + 1)).or (if a = c then some 0 else none)

end QKeySys.Library.Strings
