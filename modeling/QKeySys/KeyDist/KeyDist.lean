import QKeySys.KeyPool.KeyInfo
import QKeySys.Library.Strings

/-! Key distribution: the keys that are handed out, the cipher text and its reading back. A
string that is only read is given by its characters, a buffer by all its bytes.
-/

namespace QKeySys.KeyDist

open QKeySys.Library QKeySys.KeyPool

/-- The bytes of a buffer, as characters. -/
abbrev Buffer := List Char

/-- The terminator of a string. -/
def nul : Char := Char.ofNat 0

/-- Prints a text into an output buffer with room for `cap` bytes. A null pointer and no room
are refused.
-/
def answer (out : Option Buffer) (cap : Nat) (text : CString)
    : Except Fault (Int × Option Buffer) :=
  match out with
  | none => .ok (-1, none)
  | some buffer =>
      if cap = 0 then .ok (-1, some buffer)
      else (Strings.print nul buffer cap text).map (fun buffer => (0, some buffer))

/-- `qks_keydist_get_quantum_key` -/
def getQuantumKey (out : Option Buffer) (cap : Nat) (roleHint : Option CString)
    : Except Fault (Int × Option Buffer) :=
  answer out cap ("QK_".toList ++ roleHint.getD "X".toList)

/-- `qks_keydist_get_agreed_key` -/
def getAgreedKey (out : Option Buffer) (cap : Nat) (sessionNo : Int)
    : Except Fault (Int × Option Buffer) :=
  answer out cap ("K_AGREE_".toList ++ decimal sessionNo)

/-- `CIPH(k+q)` -/
def cipherText (k q : CString) : CString := "CIPH(".toList ++ k ++ '+' :: q ++ [')']

/-- `qks_keydist_encrypt` -/
def encrypt (agreedKey quantumKey : Option CString) (outCipher : Option Buffer) (cap : Nat)
    : Except Fault (Int × Option Buffer) :=
  answer outCipher cap (cipherText (agreedKey.getD "K".toList) (quantumKey.getD "QK".toList))

/-- What `qks_keydist_decrypt` copies: from behind the first `+` up to the last `)`, as far as
it fits. Without these two in order there is nothing.
-/
def recovered (cipher : CString) (cap : Nat) : Option CString :=
  match cipher.idxOf? '+', Strings.lastIdx? ')' cipher with
  | some p, some q =>
      if q > p then
        let len := q - (p + 1)
        some ((cipher.drop (p + 1)).take (if len ≥ cap then cap - 1 else len))
      else
        none
  | _, _ => none

/-- `qks_keydist_decrypt`, which does not use the agreed key. -/
def decrypt (_agreedKey : Option CString) (cipher outQuantumKey : Option Buffer) (cap : Nat)
    : Except Fault (Int × Option Buffer) :=
  match outQuantumKey with
  | none => .ok (-1, none)
  | some buffer =>
      if cap = 0 then .ok (-1, some buffer)
      else
        match cipher with
        | none => answer (some buffer) cap "QK_RECOVERED".toList
        | some cipher =>
            (Strings.read nul cipher).bind (fun cipher =>
              match recovered cipher cap with
              | some key =>
                  (Strings.write buffer (key ++ [nul])).map (fun buffer => (0, some buffer))
              | none => answer (some buffer) cap "QK_RECOVERED".toList)

-----------------------------------------------------------------------------------------
-- Printed texts
-----------------------------------------------------------------------------------------

/-- A text that is printed with some room can be read back as far as it fits. -/
theorem answer_ok {out : Buffer} {cap : Nat} (some_room : 0 < cap) (room : cap ≤ out.length)
    {text : CString} (clean : nul ∉ text)
    : ∃ out',
        answer (some out) cap text = .ok (0, some out')
        ∧ Strings.read nul out' = .ok (text.take (cap - 1)) := by
  obtain ⟨rest, printed⟩ := Strings.print_ok nul some_room room text
  refine ⟨_, ?_, Strings.read_terminated (fun inside => clean (List.mem_of_mem_take inside)) rest⟩
  rw [answer, if_neg (Nat.ne_of_gt some_room), printed]
  rfl

/-- The agreed keys contain neither a terminator nor the sign in front of the quantum key. -/
theorem mem_agreed {c : Char} {sessionNo : Int}
    (inside : c ∈ "K_AGREE_".toList ++ decimal sessionNo)
    : c ≠ nul ∧ c ≠ '+' := by
  rcases List.mem_append.mp inside with mark | number
  · have known : "K_AGREE_".toList.all (fun c => c ≠ nul ∧ c ≠ '+') = true := by decide
    exact of_decide_eq_true (List.all_eq_true.mp known c mark)
  · rcases mem_decimal number with rfl | digit
    · decide
    · constructor <;> rintro rfl <;> cases digit

theorem nul_notMem_cipherText {k q : CString} (clean : nul ∉ k) (clean' : nul ∉ q)
    : nul ∉ cipherText k q := by
  have sign : nul ≠ '+' ∧ nul ≠ ')' ∧ nul ∉ "CIPH(".toList := by decide
  change nul ∉ "CIPH(".toList ++ k ++ '+' :: q ++ [')']
  simp only [List.append_assoc, List.cons_append, List.mem_append, List.mem_cons,
    List.not_mem_nil, or_false, not_or]
  exact ⟨sign.2.2, clean, sign.1, clean', sign.2.1⟩

end QKeySys.KeyDist
