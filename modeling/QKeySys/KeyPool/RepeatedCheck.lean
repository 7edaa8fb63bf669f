import QKeySys.KeyPool.CheckEffect
import QKeySys.KeyPool.Facade
import QKeySys.KeyPool.Lifecycle

/-! Two checks of all keys at one reading of the clock, by the polling thread or through the
interface: when the second one changes nothing.
-/

namespace QKeySys.KeyPool

open QKeySys.Library

variable {env : Env} {self : KeyManager} {keys : List KeyInfo} {t : Int}

/-- The calls that check all keys: that of the polling thread and that of the interface. -/
def KeypoolCall.checks : KeypoolCall → Bool
  | .manager .checkAllKeys | .execute none => true
  | _ => false

/-- Two checks through an interface that points to the manager, in any order, succeed and the
second one leaves the keys that the first one left, without requesting any.
-/
def ChecksOnce (env : Env) (self : KeyManager) : Prop :=
  ∀ first second : KeypoolCall, first.checks = true → second.checks = true →
    ∃ once twice keys', (⟨self, true, true⟩ : Keypool).call env first = .ok once
      ∧ once.call env second = .ok twice
      ∧ once.manager.Stores keys' ∧ twice.manager.Stores keys'
      ∧ twice.manager.world.serials = once.manager.world.serials

/-- The keys that are to stay at time `t`, with their statuses updated. -/
def staying (config : KeyConfig) (t : Int) (keys : List KeyInfo) : List KeyInfo :=
  kept (keys.map (fun key => updateKeyStatus key config t))

/-- An initialised manager with any keys while the clock stands still at time `t`, at which
the expiry of a new key does not overflow. No allocation of a check fails for want of memory.
-/
structure StandsStill (env : Env) (pool : KeyManager) (t : Int) (keys : List KeyInfo)
    : Prop where
  inited : pool.isInited = true
  represents : pool.localKeys.Represents pool.world.memory keys
  validity : 0 < pool.config.keyValidity
  inRange : int64 (t + pool.config.keyValidity) = t + pool.config.keyValidity
  standing : ∀ n, pool.world.readings ≤ n → env.clock n = t
  allocates
    : let r := (pool.localKeys.room pool.world).shrink env (staying pool.config t keys).length
      let n := KeyManager.needed pool.config (staying pool.config t keys)
      (Room.empty r.reallocs).takesAll env n ∧ (KeyManager.afterBatch env r n).takesAll env n

/-- Through an interface that points to an initialised manager every check is one of the
manager.
-/
theorem Keypool.call_checks {s : Keypool} {call : KeypoolCall} (checks : call.checks = true)
    (called : s.initCalled = true) (points : s.gKeyManager = true)
    (inited : s.manager.isInited = true)
    : s.call env call
      = (s.manager.checkAllKeys env).map (fun manager => { s with manager := manager }) := by
  cases call with
  | manager call => cases call <;> first | rfl | cases checks
  | update qkStr => cases checks
  | execute payload =>
      cases payload with
      | some qkStr => cases checks
      | none =>
          rw [Keypool.call, Keypool.execute_eq (if_pos called) points, if_pos inited]
          cases s.manager.checkAllKeys env <;> rfl

/-- So two of them are two checks of the manager. -/
theorem checksOnce_iff (inited : self.isInited = true)
    : ChecksOnce env self
      ↔ ∃ once twice keys', self.checkAllKeys env = .ok once
          ∧ once.checkAllKeys env = .ok twice ∧ once.Stores keys' ∧ twice.Stores keys'
          ∧ twice.world.serials = once.world.serials := by
  constructor
  · intro both
    obtain ⟨once, twice, keys', first, second, stores⟩ :=
      both (.manager .checkAllKeys) (.manager .checkAllKeys) rfl rfl
    obtain ⟨once, checked, rfl⟩ := of_map first
    obtain ⟨twice, again, rfl⟩ := of_map second
    exact ⟨once, twice, keys', checked, again, stores⟩
  · rintro ⟨once, twice, keys', checked, again, stores⟩ first second checks checks'
    have inited' : once.isInited = true :=
      (KeyManager.checkAllKeys_sameLife checked).isInited.trans inited
    refine ⟨⟨once, true, true⟩, ⟨twice, true, true⟩, keys', ?_, ?_, stores⟩
    · rw [Keypool.call_checks checks rfl rfl inited]
      exact congrArg (Except.map _) checked
    · rw [Keypool.call_checks checks' rfl rfl inited']
      exact congrArg (Except.map _) again

/-- A key keeps its status in an update that finds it. -/
theorem updateKeyStatus_eq_self {key : KeyInfo} {config : KeyConfig}
    (found : statusAt key config t = key.status)
    : updateKeyStatus key config t = key := by
  rw [updateKeyStatus, found]

/-- What one update at time `t` has found, the next one finds too. -/
theorem statusAt_staying {config : KeyConfig} {key : KeyInfo}
    (inside : key ∈ staying config t keys)
    : statusAt key config t = key.status := by
  obtain ⟨updated, -⟩ := mem_kept.mp inside
  obtain ⟨key', -, rfl⟩ := List.mem_map.mp updated
  rfl

/-- Enough new valid keys were requested for the keys that stay. -/
theorem needed_append {config : KeyConfig} {new : List KeyInfo}
    (valid : ∀ key ∈ new, key.status = .valid)
    (number : new.length = KeyManager.needed config keys)
    : KeyManager.needed config (keys ++ new) = 0 := by
  have before := needed_eq config keys
  have behind := needed_eq config (keys ++ new)
  rw [validCount_append, validCount_of_valid valid] at behind
  omega

namespace StandsStill

theorem survivors_eq (now : StandsStill env self t keys)
    : KeyManager.survivors env self keys = staying self.config t keys := by
  rw [KeyManager.survivors, refreshed_standing (fun i _ => now.standing _ (by omega))]
  rfl

/-- The new keys of a check are as many as it needs, and stay valid at its time. -/
theorem checkAdds_new (now : StandsStill env self t keys)
    : (KeyManager.checkAdds env self keys).length
        = KeyManager.needed self.config (staying self.config t keys)
      ∧ ∀ key ∈ KeyManager.checkAdds env self keys,
          key.status = .valid ∧ statusAt key self.config t = .valid := by
  have allocates := now.allocates
  rw [← now.survivors_eq] at allocates ⊢
  rw [KeyManager.checkAdds_eq_requested allocates]
  refine ⟨requested_length _, fun key inside => ?_⟩
  obtain ⟨i, -, rfl⟩ := mem_requested.mp inside
  refine ⟨rfl, statusAt_eq_valid.mpr ?_⟩
  have created : (requestedKey env (self.afterUpdate keys) i).createTs = t :=
    now.standing _ (Nat.le_trans (Nat.le_add_right _ _) (Nat.le_add_right _ _))
  have validity := now.validity
  rw [getExpireTime, created, now.inRange]
  omega

/-- The check after one that kept a key, or had none to keep, changes nothing. -/
theorem checksOnce_of_kept (now : StandsStill env self t keys)
    (some_kept : staying self.config t keys ≠ [] ∨ keys = [])
    : ChecksOnce env self := by
  obtain ⟨w', list', added, ran, later, -, -, represents, origin⟩ :=
    KeyManager.checkAllKeys_spec env now.inited now.represents (by rwa [now.survivors_eq])
  rw [now.survivors_eq] at represents
  obtain ⟨number, new⟩ := origin ▸ now.checkAdds_new
  have same : ∀ key ∈ staying self.config t keys ++ added,
      statusAt key self.config t = key.status ∧ key.status ≠ .deleted := by
    intro key inside
    rcases List.mem_append.mp inside with old | fresh
    · exact ⟨statusAt_staying old, (mem_kept.mp old).2⟩
    · obtain ⟨valid, stays⟩ := new key fresh
      exact ⟨stays.trans valid.symm, by simp [valid]⟩
  let once : KeyManager := { self with world := w', localKeys := list' }
  have settled : KeyManager.survivors env once (staying self.config t keys ++ added)
      = staying self.config t keys ++ added := by
    have standing (i : Nat) : env.clock (w'.readings + i) = t :=
      now.standing _ (Nat.le_trans later.readings (Nat.le_add_right _ _))
    rw [KeyManager.survivors, refreshed_standing (fun i _ => standing i),
      List.map_congr_left (fun key inside => updateKeyStatus_eq_self (same key inside).1),
      List.map_id', kept, List.filter_eq_self]
    exact fun key inside => by simpa using (same key inside).2
  have inited : once.isInited = true := now.inited
  obtain ⟨w'', list'', again, serials, represents'⟩ :=
    KeyManager.checkAllKeys_settled env inited represents settled
      (needed_append (fun key fresh => (new key fresh).1) number)
  exact (checksOnce_iff now.inited).mpr
    ⟨_, _, _, ran, again, .inl represents, .inl represents', serials⟩

/-- The check after one that deleted every key and requested none changes nothing. -/
theorem checksOnce_of_enough (now : StandsStill env self t keys)
    (none_left : staying self.config t keys = []) (some_keys : keys ≠ [])
    (enough : self.config.validThreshold ≤ 0)
    : ChecksOnce env self := by
  obtain ⟨w', list', ran, released⟩ := KeyManager.checkAllKeys_empties env now.inited
    now.represents (now.survivors_eq.trans none_left) some_keys enough
  let once : KeyManager := { self with world := w', localKeys := list' }
  have inited : once.isInited = true := now.inited
  have again := KeyManager.checkAllKeys_idle env inited released enough
  exact (checksOnce_iff now.inited).mpr
    ⟨_, _, [], ran, again, .inr ⟨rfl, released⟩, .inr ⟨rfl, released⟩, rfl⟩

/-- A check that deletes every key and is to request some fails. -/
theorem not_checksOnce (now : StandsStill env self t keys)
    (none_left : staying self.config t keys = []) (some_keys : keys ≠ [])
    (few : 0 < self.config.validThreshold)
    : ¬ ChecksOnce env self := by
  intro both
  obtain ⟨once, twice, keys', ran, -⟩ := (checksOnce_iff now.inited).mp both
  have all := now.allocates.1
  have number : KeyManager.needed self.config [] = self.config.validThreshold.toNat := by
    simp [KeyManager.needed]
  rw [none_left, number] at all
  exact KeyManager.checkAllKeys_fails now.inited now.represents
    (now.survivors_eq.trans none_left) some_keys few all ran

end StandsStill

theorem staying_ne_nil {config : KeyConfig}
    : staying config t keys ≠ [] ↔ ∃ key ∈ keys, statusAt key config t ≠ .deleted := by
  simp [staying, kept, List.filter_eq_nil_iff, updateKeyStatus]

/-- The second check changes nothing if and only if the first one keeps a key, or has none to
keep, or none is to be requested: a first check that deletes all keys stores new ones in the
released block.
-/
theorem checkAllKeys_once_iff (now : StandsStill env self t keys)
    : ChecksOnce env self
      ↔ (∃ key ∈ keys, statusAt key self.config t ≠ .deleted) ∨ keys = []
        ∨ self.config.validThreshold ≤ 0 := by
  rw [← staying_ne_nil]
  constructor
  · intro both
    by_contra neither
    obtain ⟨none_left, neither⟩ := not_or.mp neither
    obtain ⟨some_keys, few⟩ := not_or.mp neither
    exact now.not_checksOnce (not_not.mp none_left) some_keys (Int.not_le.mp few) both
  · rintro (some_left | empty | enough)
    · exact now.checksOnce_of_kept (.inl some_left)
    · exact now.checksOnce_of_kept (.inr empty)
    · by_cases none_left : staying self.config t keys = [] ∧ keys ≠ []
      · exact now.checksOnce_of_enough none_left.1 none_left.2 enough
      · exact now.checksOnce_of_kept ((not_and_or.mp none_left).imp_right not_not.mp)

/-- Two checks at the time of the initialisation. -/
theorem firstPool_checksOnce : ChecksOnce standstill firstPool := by
  refine (checkAllKeys_once_iff (t := 1000) {
    inited := rfl
    represents := firstPool_represents
    validity := by decide
    inRange := by decide
    standing := fun _ _ => rfl
    allocates := by decide +kernel
  }).mpr (.inl (by decide +kernel))

/-- A second check does not always leave what the first one left: after the pause the first
one runs into the released block.
-/
theorem firstPool_notChecksOnce
    : ¬ ∀ env self t keys, StandsStill env self t keys → 0 ≤ self.config.freezeDuration →
        ChecksOnce env self := by
  intro always
  have both := always longPause firstPool 2000 firstKeys {
    inited := rfl
    represents := firstPool_represents
    validity := by decide
    inRange := by decide
    standing := fun n later => if_neg (Nat.not_lt.mpr later)
    allocates := by decide +kernel
  } (by decide)
  obtain ⟨once, twice, keys', ran, -⟩ := (checksOnce_iff rfl).mp both
  have fault : (firstPool.checkAllKeys longPause).isOk = false := by decide +kernel
  rw [ran] at fault
  cases fault

end QKeySys.KeyPool
