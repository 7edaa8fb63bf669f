import QKeySys.Core.Event
import QKeySys.KeyDist.KeyDist
import QKeySys.KeyPool.Identity
import QKeySys.KeyPool.KeyValue

/-! The worker of a key refill: on either side it gets a quantum key, sends its messages and
passes the key on to the key pool. The two sides store different keys.
-/

namespace QKeySys.KeyDist

open QKeySys.Library QKeySys.KeyPool

-----------------------------------------------------------------------------------------
-- The worker
-----------------------------------------------------------------------------------------

/-- A buffer with an initialiser: all its bytes are zero. -/
def zeroed (size : Nat) : Buffer := List.replicate size nul

/-- The string in a buffer that was filled. -/
def text : Option Buffer → Except Fault CString
  | none => .error .outside
  | some buffer => Strings.read nul buffer

/-- The static counter of the worker, the key pool and, as auxiliary, the messages sent. -/
structure RefillWorker where
  sessionNo : Int
  keypool : Keypool
  sent : List CString

namespace RefillWorker

def init : RefillWorker := ⟨0, .init, []⟩

/-- A key refill on side A. The placeholder of the reception always succeeds. -/
def refillA (env : Env) (s : RefillWorker) : Except Fault RefillWorker := do
  let sessionNo := int32 (s.sessionNo + 1)
  let (_, qk) ← getQuantumKey (some (zeroed 64)) 64 (some "A".toList)
  let qk ← text qk
  let (_, k) ← getAgreedKey (some (zeroed 64)) 64 sessionNo
  let k ← text k
  let (_, cipher) ← encrypt (some k) (some qk) (some (zeroed 128)) 128
  let cipher ← text cipher
  let (_, keypool) ← s.keypool.update env (some qk)
  .ok {
    sessionNo := sessionNo
    keypool := keypool
    sent := s.sent
      ++ ["QK_READY".toList, cipher, "KP_ACK".toList, "FINAL_ACK".toList]
  }

/-- A key refill on side B, which decrypts a text of its own instead of a message. -/
def refillB (env : Env) (s : RefillWorker) : Except Fault RefillWorker := do
  let sessionNo := int32 (s.sessionNo + 1)
  let (_, k) ← getAgreedKey (some (zeroed 64)) 64 sessionNo
  let k ← text k
  let (_, qkOut) ←
    decrypt (some k) (some ("CIPH(K+QK)".toList ++ [nul])) (some (zeroed 64)) 64
  let qkOut ← text qkOut
  let (_, keypool) ← s.keypool.update env (some qkOut)
  .ok {
    sessionNo := sessionNo
    keypool := keypool
    sent := s.sent ++ ["QK_ACK".toList, "DEC_OK".toList, "DONE".toList]
  }

/-- The branch of the worker for `QKS_EVENT_KEY_REFILL`. -/
def refill (env : Env) (role : Core.Role) (s : RefillWorker) : Except Fault RefillWorker :=
  match role with
  | .a => s.refillA env
  | .b => s.refillB env

end RefillWorker

/-- What happens to the key pool of a side: a refill, or another call of its manager. -/
inductive RefillAction where
  | refill
  | manager (call : Call)
  deriving DecidableEq, Repr

namespace RefillWorker

/-- The state after an action, or the fault that it runs into. -/
def act (env : Env) (role : Core.Role) (s : RefillWorker)
    : RefillAction → Except Fault RefillWorker
  | .refill => s.refill env role
  | .manager call =>
      (s.keypool.call env (.manager call)).map (fun keypool => { s with keypool := keypool })

end RefillWorker

/-- Only refills bring keys from outside. -/
def RefillAction.bringsNone : RefillAction → Bool
  | .manager (.addExternalKey _) => false
  | _ => true

/-- All sequences of refills and calls of the manager that run into no fault. -/
def refills (env : Env) (role : Core.Role) : Lts RefillWorker RefillAction where
  init s := s = .init
  next s action s' := action.bringsNone = true ∧ s.act env role action = .ok s'

-----------------------------------------------------------------------------------------
-- One refill
-----------------------------------------------------------------------------------------

/-- `K_AGREE_n` -/
def agreedKey (sessionNo : Int) : CString := "K_AGREE_".toList ++ decimal sessionNo

/-- The key that a refill passes on to the pool of a side. -/
def quantumKey : Core.Role → CString
  | .a => "QK_A".toList
  | .b => "QK".toList

/-- The messages of a refill. -/
def messages (sessionNo : Int) : Core.Role → List CString
  | .a => ["QK_READY".toList, cipherText (agreedKey sessionNo) (quantumKey .a),
      "KP_ACK".toList, "FINAL_ACK".toList]
  | .b => ["QK_ACK".toList, "DEC_OK".toList, "DONE".toList]

/-- A text that fits is printed into a zeroed buffer as it is. -/
theorem answer_zeroed {n : Nat} {s : CString} (fits : s.length < n) (clean : nul ∉ s)
    : ∃ out, answer (some (zeroed n)) n s = .ok (0, some out)
        ∧ text (some out) = .ok s := by
  have some_room : 0 < n := by omega
  have room : n ≤ (zeroed n).length := by simp [zeroed]
  obtain ⟨out, printed, read⟩ := answer_ok some_room room clean
  rw [List.take_of_length_le (by omega)] at read
  exact ⟨out, printed, read⟩

theorem agreedKey_length (n : Int) : (agreedKey (int32 n)).length ≤ 19 := by
  have range : (UInt32.size : Int) = 4294967296 := rfl
  have bounds : -2147483648 ≤ int32 n ∧ int32 n < 2147483648 := by
    rw [int32, Int.bmod_def, range]
    split <;> omega
  have digits := decimal_length (n := int32 n) (k := 10) (by decide) (by omega)
  calc
    (agreedKey (int32 n)).length
        = "K_AGREE_".toList.length + (decimal (int32 n)).length := List.length_append
    _ ≤ 8 + 11 := Nat.add_le_add (by decide) digits

theorem nul_notMem_agreedKey (n : Int) : nul ∉ agreedKey n :=
  fun inside => (mem_agreed inside).1 rfl

/-- The cipher text of every session fits its buffer. -/
theorem cipherText_length (n : Int)
    : (cipherText (agreedKey (int32 n)) (quantumKey .a)).length < 128 := by
  have short := agreedKey_length n
  have marks : "CIPH(".toList.length = 5 ∧ (quantumKey .a).length = 4 := by decide
  change ("CIPH(".toList ++ agreedKey (int32 n) ++ '+' :: quantumKey .a ++ [')']).length < 128
  simp only [List.length_append, List.length_cons, List.length_nil]
  omega

/-- What side B finds in the text that it decrypts, whatever the agreed key. -/
theorem decrypt_placeholder (k : Option CString)
    : decrypt k (some ("CIPH(K+QK)".toList ++ [nul])) (some (zeroed 64)) 64
      = .ok (0, some (quantumKey .b ++ zeroed 62)) := rfl

theorem text_placeholder : text (some (quantumKey .b ++ zeroed 62)) = .ok (quantumKey .b) := by
  decide +kernel

namespace RefillWorker

theorem refillA_eq (env : Env) (s : RefillWorker)
    : s.refillA env
      = (s.keypool.update env (some (quantumKey .a))).map (fun passed => {
          sessionNo := int32 (s.sessionNo + 1)
          keypool := passed.2
          sent := s.sent ++ messages (int32 (s.sessionNo + 1)) .a }) := by
  have short := agreedKey_length (s.sessionNo + 1)
  obtain ⟨qk, given, readQk⟩ : ∃ qk,
      getQuantumKey (some (zeroed 64)) 64 (some "A".toList) = .ok (0, some qk)
      ∧ text (some qk) = .ok (quantumKey .a) :=
    answer_zeroed (by decide) (by decide)
  obtain ⟨k, agreed, readK⟩ :=
    answer_zeroed (n := 64) (by omega) (nul_notMem_agreedKey (int32 (s.sessionNo + 1)))
  obtain ⟨cipher, encrypted, readCipher⟩ :=
    answer_zeroed (n := 128) (cipherText_length (s.sessionNo + 1))
      (nul_notMem_cipherText (nul_notMem_agreedKey _) (by decide))
  rw [refillA]
  refine (bind_ok given _).trans ?_
  refine (bind_ok readQk _).trans ?_
  refine (bind_ok agreed _).trans ?_
  refine (bind_ok readK _).trans ?_
  refine (bind_ok encrypted _).trans ?_
  refine (bind_ok readCipher _).trans ?_
  cases s.keypool.update env (some (quantumKey .a)) <;> rfl

theorem refillB_eq (env : Env) (s : RefillWorker)
    : s.refillB env
      = (s.keypool.update env (some (quantumKey .b))).map (fun passed => {
          sessionNo := int32 (s.sessionNo + 1)
          keypool := passed.2
          sent := s.sent ++ messages (int32 (s.sessionNo + 1)) .b }) := by
  have short := agreedKey_length (s.sessionNo + 1)
  obtain ⟨k, agreed, readK⟩ :=
    answer_zeroed (n := 64) (by omega) (nul_notMem_agreedKey (int32 (s.sessionNo + 1)))
  have decrypted := decrypt_placeholder (some (agreedKey (int32 (s.sessionNo + 1))))
  rw [refillB]
  refine (bind_ok agreed _).trans ?_
  refine (bind_ok readK _).trans ?_
  refine (bind_ok decrypted _).trans ?_
  refine (bind_ok text_placeholder _).trans ?_
  cases s.keypool.update env (some (quantumKey .b)) <;> rfl

/-- A refill counts a session, sends its messages whole and passes its key on. -/
theorem refill_eq (env : Env) (role : Core.Role) (s : RefillWorker)
    : s.refill env role
      = (s.keypool.update env (some (quantumKey role))).map (fun passed => {
          sessionNo := int32 (s.sessionNo + 1)
          keypool := passed.2
          sent := s.sent ++ messages (int32 (s.sessionNo + 1)) role }) := by
  cases role with
  | a => exact refillA_eq env s
  | b => exact refillB_eq env s

end RefillWorker

-----------------------------------------------------------------------------------------
-- All refills
-----------------------------------------------------------------------------------------

/-- A key that the gateway made, by its texts. -/
def FromGateway (keyId keyValue : CString) : Prop :=
  keyId.take 4 = "key_".toList ∧ keyValue.take 6 = "value_".toList

/-- A key that a refill passed on, by its texts. -/
def FromRefill (role : Core.Role) (keyId keyValue : CString) : Prop :=
  keyId.take 4 = "ext_".toList ∧ keyValue = quantumKey role

/-- The two origins of the keys of a side's pool. -/
def Origin (role : Core.Role) (keyId keyValue : CString) : Prop :=
  FromGateway keyId keyValue ∨ FromRefill role keyId keyValue

/-- Every key of the pool comes from the gateway or from a refill. -/
def Sourced (role : Core.Role) (keys : List KeyInfo) : Prop :=
  ∀ key ∈ keys, Origin role key.keyId key.keyValue

variable {env : Env} {role : Core.Role} {self after : KeyManager} {keys : List KeyInfo}

/-- A beginning that fits stays when a text is cut. -/
theorem take_fit {n max : Nat} (fits : n < max) (s : CString)
    : (fit max s).take n = s.take n := by
  rw [fit, List.take_take, Nat.min_eq_left (by omega)]

theorem requestedKey_fromGateway (w : World) (i : Nat)
    : FromGateway (requestedKey env w i).keyId (requestedKey env w i).keyValue := by
  constructor
  · change (fit keyIdMaxLen (fit keyIdMaxLen ("key_".toList ++ _))).take 4 = _
    rw [take_fit (by decide), take_fit (by decide)]
    exact List.take_left' (by decide)
  · change (fit keyValueMaxLen (fit keyValueMaxLen ("value_".toList ++ _ ++ _))).take 6 = _
    rw [take_fit (by decide), take_fit (by decide), List.append_assoc]
    exact List.take_left' (by decide)

theorem externalKey_fromRefill (env : Env) (role : Core.Role) (self : KeyManager)
    : FromRefill role (KeyManager.externalKey env self (quantumKey role)).keyId
        (KeyManager.externalKey env self (quantumKey role)).keyValue := by
  constructor
  · change (fit keyIdMaxLen (fit keyIdMaxLen ("ext_".toList ++ _ ++ _))).take 4 = _
    rw [take_fit (by decide), take_fit (by decide), List.append_assoc]
    exact List.take_left' (by decide)
  · cases role <;> rfl

/-- The manager stores keys of these origins. -/
def Supplied (role : Core.Role) (manager : KeyManager) : Prop :=
  ∃ keys, manager.Stores keys ∧ Sourced role keys

/-- Calls that add no other string keep the origin of the keys. -/
theorem Supplied.call {call : Call} (now : Supplied role self)
    (only : ∀ keyValue, call = .addExternalKey keyValue → keyValue = quantumKey role)
    (ran : self.call env call = .ok after)
    : Supplied role after := by
  obtain ⟨keys, stores, sourced⟩ := now
  obtain ⟨keys', effect⟩ := stores.effect ran
  refine ⟨keys', effect.stores stores,
    effect.texts sourced (fun w i => .inl (requestedKey_fromGateway w i))
      (fun keyValue added => ?_)⟩
  rw [only keyValue added]
  exact .inr (externalKey_fromRefill env role self)

namespace RefillWorker

variable {s s' : RefillWorker}

/-- A refill initialises the pool if need be and adds the side's key. -/
theorem refill_supplied (now : Supplied role s.keypool.manager)
    (ran : s.refill env role = .ok s')
    : Supplied role s'.keypool.manager := by
  rw [refill_eq] at ran
  obtain ⟨⟨result, keypool⟩, passed, rfl⟩ := of_map ran
  refine Keypool.update_keeps ?_ ?_ now passed
  · exact fun self after now called => now.call (by simp) called
  · exact fun self after now called =>
      now.call (fun _ same => (Call.addExternalKey.inj same).symm) called

/-- In every run every key of the pool comes from the gateway or from a refill. -/
theorem supplied (env : Env) (role : Core.Role)
    : (refills env role).Invariant (fun s => Supplied role s.keypool.manager) where
  init s start := by
    obtain rfl := start
    exact ⟨[], .inl (KeyInfoList.init_represents _), by simp [Sourced]⟩
  step s action s' now step := by
    obtain ⟨none_brought, ran⟩ := step
    cases action with
    | refill => exact refill_supplied now ran
    | manager call =>
        obtain ⟨keypool, called, rfl⟩ := of_map ran
        obtain ⟨manager, called', rfl⟩ := of_map called
        refine now.call (fun keyValue same => ?_) called'
        rw [same] at none_brought
        cases none_brought

/-- The messages of the first sessions, in their order. -/
def transcript (role : Core.Role) (n : Nat) : List CString :=
  (List.range n).flatMap (fun i : Nat => messages (int32 (i + 1)) role)

/-- So many refills were made, each with a session number and messages of its own. -/
def Refilled (role : Core.Role) (s : RefillWorker) : Prop :=
  ∃ n : Nat, s.sessionNo = int32 n ∧ s.sent = transcript role n

theorem refilled (env : Env) (role : Core.Role)
    : (refills env role).Invariant (Refilled role) where
  init s start := by
    obtain rfl := start
    exact ⟨0, rfl, rfl⟩
  step s action s' now step := by
    obtain ⟨n, sessions, sent⟩ := now
    obtain ⟨-, ran⟩ := step
    cases action with
    | refill =>
        have ran : s.refill env role = .ok s' := ran
        rw [refill_eq] at ran
        obtain ⟨passed, -, rfl⟩ := of_map ran
        have next : int32 (s.sessionNo + 1) = int32 (n + 1) := by
          rw [sessions, int32, int32, int32, Int.bmod_add_bmod]
        have longer : transcript role (n + 1)
            = transcript role n ++ messages (int32 (n + 1)) role := by
          rw [transcript, List.range_succ, List.flatMap_append, List.flatMap_singleton]
          rfl
        refine ⟨n + 1, next, ?_⟩
        rw [longer, ← sent, ← next]
    | manager call =>
        obtain ⟨keypool, -, rfl⟩ := of_map ran
        exact ⟨n, sessions, sent⟩

end RefillWorker

/-- No refilled key is shared: in every two runs the value of a key that a refill has put into
one pool is that of no key of the other. Two keys of the gateways may have the same value.
-/
theorem refills_disagree (env env' : Env) (a b : RefillWorker)
    (reached : (refills env .a).Reachable a) (reached' : (refills env' .b).Reachable b)
    : ∃ keys keys', a.keypool.manager.Stores keys ∧ b.keypool.manager.Stores keys'
        ∧ Sourced .a keys ∧ Sourced .b keys'
        ∧ ∀ key ∈ keys, ∀ key' ∈ keys',
            key.keyId.take 4 = "ext_".toList ∨ key'.keyId.take 4 = "ext_".toList →
              key.keyValue ≠ key'.keyValue := by
  obtain ⟨keys, stores, sourced⟩ := (RefillWorker.supplied env .a).reachable reached
  obtain ⟨keys', stores', sourced'⟩ := (RefillWorker.supplied env' .b).reachable reached'
  refine ⟨keys, keys', stores, stores', sourced, sourced', ?_⟩
  intro key inside key' inside' refilled same
  have marks : "key_".toList ≠ "ext_".toList := by decide
  have values (role : Core.Role) : (quantumKey role).take 6 ≠ "value_".toList := by
    cases role <;> decide
  rcases sourced key inside with gateway | refill <;>
    rcases sourced' key' inside' with gateway' | refill'
  · rcases refilled with mark | mark
    · exact marks (gateway.1.symm.trans mark)
    · exact marks (gateway'.1.symm.trans mark)
  · exact values .b (by rw [← refill'.2, ← same]; exact gateway.2)
  · exact values .a (by rw [← refill.2, same]; exact gateway'.2)
  · have different : quantumKey .a ≠ quantumKey .b := by decide
    exact different (refill.2.symm.trans (same.trans refill'.2))

/-- An action that runs into no fault, to execute sequences of them. -/
def RefillWorker.step (env : Env) (role : Core.Role) (s : RefillWorker) (action : RefillAction)
    : Option RefillWorker :=
  if action.bringsNone then (s.act env role action).toOption else none

theorem RefillWorker.step_sound (role : Core.Role) (s : RefillWorker) (action : RefillAction)
    (s' : RefillWorker) (taken : s.step env role action = some s')
    : (refills env role).next s action s' := by
  unfold RefillWorker.step at taken
  split at taken
  case isTrue none_brought => exact ⟨none_brought, ok_of_toOption taken⟩
  case isFalse => cases taken

/-- A side after two refills and a check. -/
theorem twoRefills_run (role : Core.Role)
    : (Lts.execute (RefillWorker.step standstill role) .init
        [.refill, .manager .checkAllKeys, .refill]).isSome := by
  cases role <;> decide +kernel

def twoRefills (role : Core.Role) : RefillWorker := Option.get _ (twoRefills_run role)

theorem twoRefills_reachable (role : Core.Role)
    : (refills standstill role).Reachable (twoRefills role) :=
  ⟨.init, rfl, Lts.execute_steps (RefillWorker.step_sound role) (Option.some_get _).symm⟩

theorem twoRefills_disagree
    : ∃ keys keys', (twoRefills .a).keypool.manager.Stores keys
        ∧ (twoRefills .b).keypool.manager.Stores keys'
        ∧ ∀ key ∈ keys, ∀ key' ∈ keys',
            key.keyId.take 4 = "ext_".toList ∨ key'.keyId.take 4 = "ext_".toList →
              key.keyValue ≠ key'.keyValue := by
  obtain ⟨keys, keys', stores, stores', -, -, apart⟩ :=
    refills_disagree standstill standstill (twoRefills .a) (twoRefills .b)
      (twoRefills_reachable .a) (twoRefills_reachable .b)
  exact ⟨keys, keys', stores, stores', apart⟩

end QKeySys.KeyDist
