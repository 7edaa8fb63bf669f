import QKeySys.KeyPool.ListSafety
import QKeySys.KeyPool.Validity

/-! The exact effect of a check of all keys at one reading of the clock: which keys stay, with
which status, and how many new ones there are.
-/

namespace QKeySys.KeyPool

open QKeySys.Library

variable {env : Env} {self : KeyManager} {keys : List KeyInfo} {t : Int}

/-- The keys that are to stay at time `t`, each with the status it is to have. -/
def remaining (config : KeyConfig) (t : Int) (keys : List KeyInfo) : List KeyInfo :=
  (keys.filter
    (fun key => t < key.createTs + config.keyValidity + config.freezeDuration)).map
    (fun key => {
      key with status := if t < key.createTs + config.keyValidity then .valid else .frozen
    })

/-- How many keys are valid. -/
def validCount (keys : List KeyInfo) : Int :=
  (keys.countP (fun key => key.status = .valid) : Nat)

/-- An initialised manager with keys that are valid or frozen, and a check of them that reads
time `t` throughout. No sum of times overflows, and no allocation fails for want of memory.
-/
structure CheckedAt (env : Env) (pool : KeyManager) (t : Int) (keys : List KeyInfo)
    : Prop where
  inited : pool.isInited = true
  represents : pool.localKeys.Represents pool.world.memory keys
  statuses : ∀ key ∈ keys, key.status ≠ .deleted
  validity : 0 < pool.config.keyValidity
  freeze : 0 ≤ pool.config.freezeDuration
  inRange
    : ∀ key ∈ keys,
        int64 (key.createTs + pool.config.keyValidity)
          = key.createTs + pool.config.keyValidity
        ∧ int64 (key.createTs + pool.config.keyValidity + pool.config.freezeDuration)
          = key.createTs + pool.config.keyValidity + pool.config.freezeDuration
  standing
    : ∀ i, i < keys.length + KeyManager.needed pool.config (remaining pool.config t keys) →
        env.clock (pool.world.readings + i) = t
  allocates
    : let r := (pool.localKeys.room pool.world).shrink env
        (remaining pool.config t keys).length
      let n := KeyManager.needed pool.config (remaining pool.config t keys)
      (Room.empty r.reallocs).takesAll env n ∧ (KeyManager.afterBatch env r n).takesAll env n

/-- A check at time `t` leaves the keys that are to stay, in their order, and behind them the
new ones that make up for the missing valid keys.
-/
def ChecksExactly (env : Env) (self : KeyManager) (t : Int) (keys : List KeyInfo) : Prop :=
  let stay := remaining self.config t keys
  ∃ after new, self.checkAllKeys env = .ok after ∧ after.Stores (stay ++ new)
    ∧ (new.length : Int) = max 0 (self.config.validThreshold - validCount stay)
    ∧ (∀ key ∈ new, key.status = .valid ∧ key.createTs = t)
    ∧ validCount (stay ++ new) = max self.config.validThreshold (validCount stay)

namespace CheckedAt

/-- At one reading of the clock the keys are updated alike. -/
theorem refreshed_eq (now : CheckedAt env self t keys)
    : refreshed env self.config self.world.readings keys
      = keys.map (fun key => updateKeyStatus key self.config t) :=
  refreshed_standing (fun i less => now.standing i (by omega))

/-- A key is kept exactly before its delete time, and valid exactly before its expiry. -/
theorem status_eq (now : CheckedAt env self t keys) {key : KeyInfo} (inside : key ∈ keys)
    : statusAt key self.config t
      = if t < key.createTs + self.config.keyValidity + self.config.freezeDuration then
          if t < key.createTs + self.config.keyValidity then .valid else .frozen
        else .deleted := by
  obtain ⟨expire, delete⟩ := now.inRange key inside
  have freeze := now.freeze
  rw [statusAt, getDeleteTime, getExpireTime, expire, delete]
  split_ifs <;> first | rfl | omega

/-- The keys that the check keeps are those that are to stay. -/
theorem survivors_eq (now : CheckedAt env self t keys)
    : KeyManager.survivors env self keys = remaining self.config t keys := by
  rw [KeyManager.survivors, now.refreshed_eq, kept, List.filter_map, remaining]
  have same : keys.filter
      ((fun key => decide (key.status ≠ .deleted)) ∘ (updateKeyStatus · self.config t))
      = keys.filter (fun key =>
        decide (t < key.createTs + self.config.keyValidity + self.config.freezeDuration)) := by
    refine List.filter_congr (fun key inside => ?_)
    simp only [Function.comp_apply, updateKeyStatus, now.status_eq inside]
    split_ifs with stays early <;> simp [stays]
  rw [same]
  refine List.map_congr_left (fun key inside => ?_)
  obtain ⟨stored, stays⟩ := List.mem_filter.mp inside
  rw [updateKeyStatus, now.status_eq stored, if_pos (by simpa using stays)]

/-- With enough memory the check adds all keys that it requests. -/
theorem checkAdds_eq (now : CheckedAt env self t keys)
    : KeyManager.checkAdds env self keys
      = requested env (self.afterUpdate keys)
        (KeyManager.needed self.config (remaining self.config t keys)) := by
  have allocates := now.allocates
  rw [← now.survivors_eq] at allocates ⊢
  exact KeyManager.checkAdds_eq_requested allocates

/-- The requested keys are valid and created at the time of the check. -/
theorem added_new (now : CheckedAt env self t keys) {key : KeyInfo}
    (inside : key ∈ requested env (self.afterUpdate keys)
      (KeyManager.needed self.config (remaining self.config t keys)))
    : key.status = .valid ∧ key.createTs = t := by
  obtain ⟨i, less, rfl⟩ := mem_requested.mp inside
  refine ⟨rfl, ?_⟩
  have reading := now.standing (keys.length + i) (by omega)
  rwa [← Nat.add_assoc] at reading

end CheckedAt

theorem validCount_append (keys keys' : List KeyInfo)
    : validCount (keys ++ keys') = validCount keys + validCount keys' := by
  simp [validCount]

/-- All of some keys that are valid count. -/
theorem validCount_of_valid {keys : List KeyInfo} (valid : ∀ key ∈ keys, key.status = .valid)
    : validCount keys = keys.length := by
  rw [validCount, List.countP_eq_length.mpr (fun key inside => by simpa using valid key inside)]

theorem needed_eq (config : KeyConfig) (keys : List KeyInfo)
    : (KeyManager.needed config keys : Int)
      = max 0 (config.validThreshold - validCount keys) := by
  rw [KeyManager.needed, Int.toNat_eq_max, max_comm]
  rfl

namespace CheckedAt

/-- A check that keeps a key, or has none to keep, has its exact effect. -/
theorem exact_of_kept (now : CheckedAt env self t keys)
    (some_kept : remaining self.config t keys ≠ [] ∨ keys = [])
    : ChecksExactly env self t keys := by
  obtain ⟨w', list', added, ran, -, -, -, represents, origin⟩ :=
    KeyManager.checkAllKeys_spec env now.inited now.represents (by rwa [now.survivors_eq])
  rw [now.survivors_eq] at represents
  rw [now.checkAdds_eq] at origin
  have new (key : KeyInfo) (inside : key ∈ added) : key.status = .valid ∧ key.createTs = t :=
    now.added_new (origin ▸ inside)
  have number : (added.length : Int)
      = max 0 (self.config.validThreshold - validCount (remaining self.config t keys)) := by
    rw [origin, requested_length, needed_eq]
  refine ⟨_, added, ran, .inl represents, number, new, ?_⟩
  rw [validCount_append, validCount_of_valid (fun key inside => (new key inside).1), number]
  omega

/-- A check that deletes all keys has its exact effect when it is to request none. -/
theorem exact_of_enough (now : CheckedAt env self t keys)
    (none_left : remaining self.config t keys = []) (some_keys : keys ≠ [])
    (enough : self.config.validThreshold ≤ 0)
    : ChecksExactly env self t keys := by
  obtain ⟨w', list', ran, released⟩ := KeyManager.checkAllKeys_empties env now.inited
    now.represents (now.survivors_eq.trans none_left) some_keys enough
  have none_valid : validCount (remaining self.config t keys) = 0 := by rw [none_left]; rfl
  refine ⟨_, [], ran, .inr ⟨by rw [none_left]; rfl, released⟩, ?_, by simp, ?_⟩
  · rw [none_valid, List.length_nil]
    omega
  · rw [List.append_nil, none_valid]
    omega

/-- A check that deletes all keys and is to request some never has its exact effect, since it
leaves a released list if any.
-/
theorem not_exact (now : CheckedAt env self t keys)
    (none_left : remaining self.config t keys = []) (some_keys : keys ≠ [])
    (some_needed : 0 < self.config.validThreshold)
    : ¬ ChecksExactly env self t keys := by
  rintro ⟨after, new, ran, stores, number, -⟩
  obtain ⟨w', list', rfl, -, released⟩ := KeyManager.checkAllKeys_nothing now.inited
    now.represents (now.survivors_eq.trans none_left) some_keys ran
  rcases stores with represents | ⟨nothing, -⟩
  · exact released.not_wellFormed represents.wellFormed
  · have none_valid : validCount (remaining self.config t keys) = 0 := by rw [none_left]; rfl
    rw [none_left, List.nil_append] at nothing
    rw [nothing, none_valid, List.length_nil] at number
    omega

end CheckedAt

/-- The check has its exact effect if and only if it keeps a key, or there is none to keep, or
none is to be requested: a check that deletes all keys stores new ones in the released block.
-/
theorem checkAllKeys_exact_iff (now : CheckedAt env self t keys)
    : ChecksExactly env self t keys
      ↔ remaining self.config t keys ≠ [] ∨ keys = []
        ∨ self.config.validThreshold ≤ 0 := by
  by_cases none_left : remaining self.config t keys = []
  · by_cases some_keys : keys = []
    · exact iff_of_true (now.exact_of_kept (.inr some_keys)) (.inr (.inl some_keys))
    · rcases lt_or_ge 0 self.config.validThreshold with some_needed | enough
      · refine iff_of_false (now.not_exact none_left some_keys some_needed) ?_
        rintro (some_left | empty | enough)
        · exact some_left none_left
        · exact some_keys empty
        · exact absurd some_needed (Int.not_lt.mpr enough)
      · exact iff_of_true (now.exact_of_enough none_left some_keys enough) (.inr (.inr enough))
  · exact iff_of_true (now.exact_of_kept (.inl none_left)) (.inl none_left)

-----------------------------------------------------------------------------------------
-- Checks of the keys of the initialisation
-----------------------------------------------------------------------------------------

/-- The three keys that `KeyManager_Init` requests at time 1000. -/
def firstKeys : List KeyInfo := requested standstill .init 3

/-- The manager after its initialisation at time 1000, with room for one more key. -/
def firstPool : KeyManager where
  world := {
    World.init with
    memory := BlockMemory.empty.extend (firstKeys.map some ++ [none])
    readings := 3, reallocs := 2, creations := 1, serials := 3
  }
  localKeys := ⟨some 0, 3, 4⟩
  config := defaultConfig
  isInited := true
  isRunning := true
  seq := 0

theorem firstPool_represents
    : firstPool.localKeys.Represents firstPool.world.memory firstKeys := by
  constructor
  case wellFormed =>
    refine ⟨by decide, by decide, by decide, by decide, fun a data => ?_⟩
    obtain rfl : 0 = a := Option.some.inj data
    exact ⟨_, rfl, by decide⟩
  case size => rfl
  case contents =>
    intro a cells data live i key found
    obtain rfl : 0 = a := Option.some.inj data
    obtain rfl : firstKeys.map some ++ [none] = cells := Option.some.inj live
    have inside := (List.getElem?_eq_some_iff.mp found).1
    rw [List.getElem?_append_left (by simpa using inside), List.getElem?_map, found]
    rfl

/-- A check at the time of the initialisation. -/
theorem firstPool_checksExactly : ChecksExactly standstill firstPool 1000 firstKeys := by
  refine (checkAllKeys_exact_iff {
    inited := rfl
    represents := firstPool_represents
    statuses := by decide +kernel
    validity := by decide
    freeze := by decide
    inRange := by decide +kernel
    standing := fun _ _ => rfl
    allocates := by decide +kernel
  }).mpr (.inl (by decide +kernel))

/-- A check does not always have its exact effect: after the pause all three keys are past
their delete time, and the first new one is stored into the block that was released.
-/
theorem firstPool_faults
    : ¬ ∀ env self t keys, CheckedAt env self t keys → ChecksExactly env self t keys := by
  intro always
  obtain ⟨after, new, ran, -⟩ := always longPause firstPool 2000 firstKeys {
    inited := rfl
    represents := firstPool_represents
    statuses := by decide +kernel
    validity := by decide
    freeze := by decide
    inRange := by decide +kernel
    standing := by decide +kernel
    allocates := by decide +kernel
  }
  have fault : (firstPool.checkAllKeys longPause).isOk = false := by decide +kernel
  rw [ran] at fault
  cases fault

end QKeySys.KeyPool
