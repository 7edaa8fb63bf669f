import Mathlib.Data.List.TakeDrop
import QKeySys.KeyPool.Effect
import QKeySys.KeyPool.Facade

/-! The value that is stored for a string that `qks_keypool_update` accepts: the interface and
the keys have a limit of their own each.
-/

namespace QKeySys.KeyPool

open QKeySys.Library

variable {env : Env} {self after : KeyManager} {s s' : Keypool} {qkStr : CString}

-----------------------------------------------------------------------------------------
-- Stored keys over all calls of the interface
-----------------------------------------------------------------------------------------

/-- A call leaves stored keys, in the array or nowhere. -/
theorem stores_call (stores : ∃ keys, self.Stores keys) {call : Call}
    (ran : self.call env call = .ok after)
    : ∃ keys, after.Stores keys := by
  obtain ⟨keys, stores⟩ := stores
  obtain ⟨keys', effect⟩ := stores.effect ran
  exact ⟨keys', effect.stores stores⟩

theorem calls_stores (env : Env)
    : (calls env).Invariant (fun self => ∃ keys, self.Stores keys) where
  init self start := by
    obtain rfl := start
    exact ⟨[], .inl (KeyInfoList.init_represents _)⟩
  step self call after stores ran := stores_call stores ran

namespace Keypool

/-- The initialisation through the interface is a call of the manager, or none. -/
theorem initIfNeeded_steps (ran : s.initIfNeeded env = .ok s')
    : (calls env).Steps s.manager s'.manager := by
  unfold initIfNeeded at ran
  split at ran
  case isTrue =>
    obtain rfl := Except.ok.inj ran
    exact .refl
  case isFalse =>
    obtain ⟨begun, inited, same⟩ := of_bind ran
    obtain rfl := Except.ok.inj same
    exact .single ⟨.init, congrArg (Except.map Prod.snd) inited⟩

/-- A string that is refused leaves the initialisation, and one that is not is added to an
initialised manager.
-/
theorem update_cases {result : Int} (ran : s.update env (some qkStr) = .ok (result, s'))
    : s' = s ∧ result = -1
      ∨ ∃ ready, s.initIfNeeded env = .ok ready
        ∧ (s' = ready ∧ result = -1
          ∨ ready.manager.isInited = true
            ∧ ∃ added after, ready.manager.addExternalKey env qkStr = .ok (added, after)
              ∧ s' = { ready with manager := after }) := by
  by_cases empty : qkStr.length = 0
  · obtain ⟨rfl, rfl⟩ := Prod.mk.inj (Except.ok.inj ((if_pos empty).symm.trans ran))
    exact .inl ⟨rfl, rfl⟩
  obtain ⟨ready, inited, rest⟩ := of_bind ((if_neg empty).symm.trans ran)
  refine .inr ⟨ready, inited, ?_⟩
  by_cases nowhere : (!ready.gKeyManager) = true
  · obtain ⟨rfl, rfl⟩ := Prod.mk.inj (Except.ok.inj ((if_pos nowhere).symm.trans rest))
    exact .inl ⟨rfl, rfl⟩
  by_cases out : (!ready.manager.isInited) = true
  · have rest := (if_neg nowhere).symm.trans rest
    obtain ⟨rfl, rfl⟩ := Prod.mk.inj (Except.ok.inj ((if_pos out).symm.trans rest))
    exact .inl ⟨rfl, rfl⟩
  · have rest := (if_neg out).symm.trans ((if_neg nowhere).symm.trans rest)
    obtain ⟨⟨added, after⟩, made, same⟩ := of_bind rest
    obtain ⟨-, rfl⟩ := Prod.mk.inj (Except.ok.inj same)
    exact .inr ⟨by simpa using out, added, after, made, rfl⟩

theorem update_steps {qkStr : Option CString} {result : Int}
    (ran : s.update env qkStr = .ok (result, s'))
    : (calls env).Steps s.manager s'.manager := by
  cases qkStr with
  | none =>
      obtain ⟨-, rfl⟩ := Prod.mk.inj (Except.ok.inj ran)
      exact .refl
  | some qkStr =>
      rcases update_cases ran with
        ⟨rfl, -⟩ | ⟨ready, begun, ⟨rfl, -⟩ | ⟨-, added, after, made, rfl⟩⟩
      · exact .refl
      · exact initIfNeeded_steps begun
      · exact (initIfNeeded_steps begun).tail
          ⟨.addExternalKey qkStr, congrArg (Except.map Prod.snd) made⟩

theorem execute_steps {payload : Option CString} {result : Int}
    (ran : s.execute env payload = .ok (result, s'))
    : (calls env).Steps s.manager s'.manager := by
  obtain ⟨ready, begun, rest⟩ := of_bind ran
  have path := initIfNeeded_steps begun
  by_cases nowhere : (!ready.gKeyManager) = true
  · obtain ⟨-, rfl⟩ := Prod.mk.inj (Except.ok.inj ((if_pos nowhere).symm.trans rest))
    exact path
  by_cases out : (!ready.manager.isInited) = true
  · have rest := (if_neg nowhere).symm.trans rest
    obtain ⟨-, rfl⟩ := Prod.mk.inj (Except.ok.inj ((if_pos out).symm.trans rest))
    exact path
  have rest := (if_neg out).symm.trans ((if_neg nowhere).symm.trans rest)
  cases payload with
  | some qkStr => exact path.trans (update_steps rest)
  | none =>
      obtain ⟨manager, checked, same⟩ := of_bind rest
      obtain ⟨-, rfl⟩ := Prod.mk.inj (Except.ok.inj same)
      exact path.tail ⟨.checkAllKeys, checked⟩

/-- Every call of the interface is a sequence of calls of the manager. -/
theorem call_steps {call : KeypoolCall} (ran : s.call env call = .ok s')
    : (calls env).Steps s.manager s'.manager := by
  cases call with
  | manager call =>
      obtain ⟨after, called, rfl⟩ := of_map ran
      exact .single ⟨call, called⟩
  | update qkStr =>
      obtain ⟨made, returned, rfl⟩ := of_map ran
      exact update_steps returned
  | execute payload =>
      obtain ⟨made, returned, rfl⟩ := of_map ran
      exact execute_steps returned

end Keypool

section Keeps

variable {holds : KeyManager → Prop}

/-- What an initialisation of the manager keeps the one through the interface keeps. -/
theorem Keypool.initIfNeeded_keeps
    (init : ∀ self after, holds self → self.call env .init = .ok after → holds after)
    (now : holds s.manager) (ran : s.initIfNeeded env = .ok s')
    : holds s'.manager := by
  unfold Keypool.initIfNeeded at ran
  split at ran
  case isTrue =>
    obtain rfl := Except.ok.inj ran
    exact now
  case isFalse =>
    obtain ⟨begun, inited, same⟩ := of_bind ran
    obtain rfl := Except.ok.inj same
    exact init _ _ now (congrArg (Except.map Prod.snd) inited)

/-- What an initialisation and the addition of a string keep an update with it keeps. -/
theorem Keypool.update_keeps
    (init : ∀ self after, holds self → self.call env .init = .ok after → holds after)
    (add
      : ∀ self after, holds self → self.call env (.addExternalKey qkStr) = .ok after →
          holds after)
    (now : holds s.manager) {result : Int} (ran : s.update env (some qkStr) = .ok (result, s'))
    : holds s'.manager := by
  rcases Keypool.update_cases ran with ⟨rfl, -⟩ | ⟨ready, begun, rest⟩
  · exact now
  have started := Keypool.initIfNeeded_keeps init now begun
  rcases rest with ⟨rfl, -⟩ | ⟨-, added, after, made, rfl⟩
  · exact started
  · exact add _ _ started (congrArg (Except.map Prod.snd) made)

end Keeps

/-- What holds in every sequence of calls of the manager holds behind the interface. -/
theorem manager_reachable (reached : (keypools env).Reachable s)
    : (calls env).Reachable s.manager :=
  reached.project Keypool.manager (fun _ start => by rw [show _ = _ from start]; rfl)
    (fun _ _ _ ran => Keypool.call_steps ran)

-----------------------------------------------------------------------------------------
-- The two limits
-----------------------------------------------------------------------------------------

/-- `MAX_KEY_VALUE_LEN` -/
def maxKeyValueLen : Nat := 256

/-- `qks_keypool_update` warns that it cuts the string. -/
def warns (qkStr : CString) : Bool := qkStr.length > maxKeyValueLen

/-- The value is the whole string, or after a warning a proper prefix of it. -/
def WholeUnlessWarned (qkStr value : CString) : Prop :=
  if warns qkStr then value <+: qkStr ∧ value ≠ qkStr else value = qkStr

/-- From `s` to `s'` one key was appended to those stored after the initialisation, and its
value is whole unless there was a warning.
-/
def StoresWhole (env : Env) (s s' : Keypool) (qkStr : CString) : Prop :=
  ∃ ready keys key, s.initIfNeeded env = .ok ready
    ∧ ready.manager.localKeys.Represents ready.manager.world.memory keys
    ∧ s'.manager.localKeys.Represents s'.manager.world.memory (keys ++ [key])
    ∧ WholeUnlessWarned qkStr key.keyValue

/-- After the initialisation, if there is one to make, the list takes a key. -/
def Keypool.hasRoom (env : Env) (s : Keypool) : Prop :=
  ∃ ready, s.initIfNeeded env = .ok ready
    ∧ (ready.manager.localKeys.room ready.manager.world).takes env = true

/-- A string that fits is kept. -/
theorem fit_eq_self {max : Nat} (some_room : 0 < max)
    : fit max qkStr = qkStr ↔ qkStr.length < max := by
  rw [fit, List.take_eq_self_iff]
  omega

/-- Between the two limits a string is cut without a warning. -/
theorem fit_wholeUnlessWarned
    : WholeUnlessWarned qkStr (fit keyValueMaxLen qkStr)
      ↔ qkStr.length < keyValueMaxLen ∨ maxKeyValueLen < qkStr.length := by
  have fits : fit keyValueMaxLen qkStr = qkStr ↔ qkStr.length < keyValueMaxLen :=
    fit_eq_self (by decide)
  have limits : keyValueMaxLen ≤ maxKeyValueLen := by decide
  unfold WholeUnlessWarned
  split
  case isTrue long =>
    have long : maxKeyValueLen < qkStr.length := by simpa [warns] using long
    refine iff_of_true ⟨List.take_prefix _ _, fun same => ?_⟩ (.inr long)
    have short := fits.mp same
    omega
  case isFalse short =>
    have short : qkStr.length ≤ maxKeyValueLen := by simpa [warns] using short
    rw [fits]
    omega

/-- An accepted string is stored whole if and only if the list takes a key and the string is
shorter than the limit of the keys or longer than that of the interface.
-/
theorem storesWhole_iff (stores : ∀ ready, s.initIfNeeded env = .ok ready →
      ∃ keys, ready.manager.Stores keys)
    (ran : s.update env (some qkStr) = .ok (0, s'))
    : StoresWhole env s s' qkStr
      ↔ s.hasRoom env
        ∧ (qkStr.length < keyValueMaxLen ∨ maxKeyValueLen < qkStr.length) := by
  rcases Keypool.update_cases ran with
    ⟨-, failed⟩ | ⟨ready, begun, ⟨-, failed⟩ | ⟨inited, added, after, made, rfl⟩⟩
  case inl => cases failed
  case inr.inl => cases failed
  obtain ⟨keys, now | ⟨-, released⟩⟩ := stores ready begun
  case inr => cases made.symm.trans (KeyManager.addExternalKey_released inited released qkStr)
  rcases KeyManager.addExternalKey_spec env qkStr inited now with
    ⟨w', list', front, key, ran', -, -, represents, origin⟩ | ⟨-, -, failed⟩
  case inr => cases made.symm.trans failed
  obtain ⟨-, rfl⟩ := Prod.mk.inj (Except.ok.inj (made.symm.trans ran'))
  rcases origin with ⟨taken, rfl, rfl⟩ | ⟨refused, rfl⟩
  · rw [and_iff_right ⟨ready, begun, taken⟩, ← fit_wholeUnlessWarned]
    constructor
    · rintro ⟨ready', keys', key', begun', now', represents', whole⟩
      obtain rfl := Except.ok.inj (begun.symm.trans begun')
      obtain rfl := KeyManager.represented_unique now now'
      have same := KeyManager.represented_unique represents represents'
      obtain rfl := List.singleton_injective (List.append_cancel_left same)
      exact whole
    · exact fun whole => ⟨ready, front, _, begun, now, represents, whole⟩
  · -- Nothing was appended: the last key was updated in its place.
    refine iff_of_false ?_ ?_
    · rintro ⟨ready', keys', key', begun', now', represents', -⟩
      obtain rfl := Except.ok.inj (begun.symm.trans begun')
      obtain rfl := KeyManager.represented_unique now now'
      have length :=
        congrArg List.length (KeyManager.represented_unique represents represents')
      simp at length
    · rintro ⟨⟨ready', begun', taken⟩, -⟩
      obtain rfl := Except.ok.inj (begun.symm.trans begun')
      cases refused.symm.trans taken

/-- In every sequence of calls. -/
theorem reachable_stores (reached : (keypools env).Reachable s) {ready : Keypool}
    (begun : s.initIfNeeded env = .ok ready)
    : ∃ keys, ready.manager.Stores keys :=
  (calls_stores env).reachable
    ((manager_reachable reached).steps (Keypool.initIfNeeded_steps begun))

/-- When `qks_keypool_update` returns 0 the key is stored whole, unless there was a warning, if
and only if the list takes a key and the length of the string is not between the two limits.
-/
theorem update_storesWhole_iff (env : Env) (s s' : Keypool) (qkStr : CString)
    (reached : (keypools env).Reachable s)
    (ran : s.update env (some qkStr) = .ok (0, s'))
    : StoresWhole env s s' qkStr
      ↔ s.hasRoom env
        ∧ (qkStr.length < keyValueMaxLen ∨ maxKeyValueLen < qkStr.length) :=
  storesWhole_iff (fun _ begun => reachable_stores reached begun) ran

/-- A first string of one character is stored whole. -/
theorem firstUpdate_storesWhole
    : ∃ s', Keypool.init.update standstill (some ['k']) = .ok (0, s')
        ∧ StoresWhole standstill .init s' ['k'] := by
  have returned : (Keypool.init.update standstill (some ['k'])).map Prod.fst = .ok 0 := by
    decide +kernel
  obtain ⟨⟨result, s'⟩, ran, rfl⟩ := of_map returned
  have room : (Keypool.init.initIfNeeded standstill).map (fun ready =>
      (ready.manager.localKeys.room ready.manager.world).takes standstill) = .ok true := by
    decide +kernel
  obtain ⟨ready, begun, taken⟩ := of_map room
  exact ⟨s', ran, (update_storesWhole_iff standstill .init s' ['k'] (.start rfl) ran).mpr
    ⟨⟨ready, begun, taken⟩, .inl (by decide)⟩⟩

/-- Not every accepted string is stored whole when there is no warning: of 128 characters the
last one is lost.
-/
theorem update_cutsSilently
    : ¬ ∀ env s s' (qkStr : CString), (keypools env).Reachable s → qkStr ≠ [] →
        s.update env (some qkStr) = .ok (0, s') → StoresWhole env s s' qkStr := by
  intro whole
  have returned : (Keypool.init.update standstill (some (List.replicate 128 'k'))).map Prod.fst
      = .ok 0 := by
    decide +kernel
  obtain ⟨⟨result, s'⟩, ran, rfl⟩ := of_map returned
  have stored := whole standstill .init s' _ (.start rfl) (by simp) ran
  have reached : (keypools standstill).Reachable .init := .start rfl
  obtain ⟨-, short | long⟩ :=
    (storesWhole_iff (fun _ begun => reachable_stores reached begun) ran).mp stored
  · rw [List.length_replicate] at short
    exact absurd short (by decide)
  · rw [List.length_replicate] at long
    exact absurd long (by decide)

end QKeySys.KeyPool
