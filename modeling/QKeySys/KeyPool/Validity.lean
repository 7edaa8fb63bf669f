import Mathlib
import QKeySys.KeyPool.Effect

/-! The status of a key over all sequences of calls: with a clock that never goes backwards, a
key that was found frozen stays so, and a key that was only marked as deleted may come back.
-/

namespace QKeySys.KeyPool

open QKeySys.Library

variable {env : Env} {config : KeyConfig} {w w' w'' : World} {self after : KeyManager}
  {keys keys' keys'' : List KeyInfo}

-----------------------------------------------------------------------------------------
-- Stored keys
-----------------------------------------------------------------------------------------

/-- The stored keys are numbered in their order, and the frozen ones are past their expiry in
every later reading of the clock.
-/
structure Sound (env : Env) (config : KeyConfig) (w : World) (keys : List KeyInfo) : Prop where
  ordered : keys.Pairwise (fun key key' => key.serial < key'.serial)
  numbered : ∀ key ∈ keys, key.serial < w.serials
  frozen
    : ∀ key ∈ keys, key.status = .frozen →
        ∀ n, w.readings ≤ n → getExpireTime key config ≤ env.clock n

/-- Every valid key is new since `w`, or it was a valid key then. -/
def Retires (w : World) (keys keys' : List KeyInfo) : Prop :=
  ∀ key' ∈ keys', key'.serial < w.serials → key'.status = .valid →
    ∃ key ∈ keys, key.serial = key'.serial ∧ key.status = .valid

theorem Sound.nil (env : Env) (config : KeyConfig) (w : World) : Sound env config w [] := by
  constructor <;> simp

theorem Retires.nil (w : World) (keys : List KeyInfo) : Retires w keys [] := by simp [Retires]

theorem Retires.refl (w : World) (keys : List KeyInfo) : Retires w keys keys :=
  fun key inside _ valid => ⟨key, inside, rfl, valid⟩

-----------------------------------------------------------------------------------------
-- What the functions do to stored keys
-----------------------------------------------------------------------------------------

theorem Sound.later (now : Sound env config w keys) (later : Later w w')
    : Sound env config w' keys where
  ordered := now.ordered
  numbered key inside := Nat.lt_of_lt_of_le (now.numbered key inside) later.serials
  frozen key inside cold n reading :=
    now.frozen key inside cold n (Nat.le_trans later.readings reading)

theorem Sound.sublist (now : Sound env config w keys) (some_of : keys'.Sublist keys)
    : Sound env config w keys' where
  ordered := now.ordered.sublist some_of
  numbered key inside := now.numbered key (some_of.subset inside)
  frozen key inside := now.frozen key (some_of.subset inside)

/-- New keys join the stored ones. -/
theorem Sound.append (now : Sound env config w keys) {added : List KeyInfo}
    (fresh : Fresh w w' added) (later : Later w w')
    : Sound env config w' (keys ++ added) where
  ordered := by
    refine List.pairwise_append.mpr ⟨now.ordered, fresh.ordered, ?_⟩
    intro key inside key' new
    exact Nat.lt_of_lt_of_le (now.numbered key inside) (fresh.since key' new).1
  numbered key inside := by
    rcases List.mem_append.mp inside with old | new
    · exact Nat.lt_of_lt_of_le (now.numbered key old) later.serials
    · exact (fresh.since key new).2
  frozen key inside cold n reading := by
    rcases List.mem_append.mp inside with old | new
    · exact now.frozen key old cold n (Nat.le_trans later.readings reading)
    · rw [fresh.valid key new] at cold
      cases cold

theorem Retires.append (now : Retires w keys keys') {added : List KeyInfo}
    (fresh : Fresh w w' added)
    : Retires w keys (keys' ++ added) := by
  intro key inside old valid
  rcases List.mem_append.mp inside with kept | new
  · exact now key kept old valid
  · exact absurd old (Nat.not_lt.mpr (fresh.since key new).1)

/-- A status found at a time of the clock is frozen only past the expiry. -/
theorem expired_of_status (clock : Monotone env.clock) (key : KeyInfo) {m n : Nat}
    (found : (updateKeyStatus key config (env.clock m)).status ≠ .valid) (later : m ≤ n)
    : getExpireTime key config ≤ env.clock n := by
  have late := mt statusAt_eq_valid.mpr found
  exact Int.le_trans (by omega) (clock later)

/-- Keys that keep their numbers in their places stay ordered. -/
theorem ordered_of_same (ordered : keys.Pairwise (fun key key' => key.serial < key'.serial))
    (same : ∀ (i : Nat) (key' : KeyInfo), keys'[i]? = some key' →
      ∃ key, keys[i]? = some key ∧ key.serial = key'.serial)
    : keys'.Pairwise (fun key key' => key.serial < key'.serial) := by
  rw [List.pairwise_iff_getElem] at ordered ⊢
  intro i j less less' before
  obtain ⟨key, found, number⟩ := same i _ (List.getElem?_eq_getElem less)
  obtain ⟨key', found', number'⟩ := same j _ (List.getElem?_eq_getElem less')
  obtain ⟨less, rfl⟩ := List.getElem?_eq_some_iff.mp found
  obtain ⟨less', rfl⟩ := List.getElem?_eq_some_iff.mp found'
  rw [← number, ← number']
  exact ordered i j less less' before

/-- The status update keeps the stored keys sound, with the clock read once for each key. -/
theorem Sound.refreshed (clock : Monotone env.clock) (now : Sound env config w keys)
    (later : Later w w') (readings : w.readings + keys.length ≤ w'.readings)
    : Sound env config w' (refreshed env config w.readings keys) where
  ordered := by
    refine ordered_of_same now.ordered (fun i key' found => ?_)
    rw [KeyPool.refreshed, List.getElem?_mapIdx] at found
    obtain ⟨key, there, rfl⟩ := Option.map_eq_some_iff.mp found
    exact ⟨key, there, rfl⟩
  numbered key inside := by
    obtain ⟨i, key, found, rfl⟩ := mem_refreshed.mp inside
    exact Nat.lt_of_lt_of_le (now.numbered key (List.mem_of_getElem? found)) later.serials
  frozen key inside cold n reading := by
    obtain ⟨i, key, found, rfl⟩ := mem_refreshed.mp inside
    have less := (List.getElem?_eq_some_iff.mp found).1
    exact expired_of_status clock key (m := w.readings + i) (by simp [cold]) (by omega)

/-- A key that an update finds valid was not frozen, and not deleted if deleted keys are past
their expiry.
-/
theorem valid_of_update {key : KeyInfo} {m : Nat}
    (found : (updateKeyStatus key config (env.clock m)).status = .valid)
    (frozen : key.status = .frozen → getExpireTime key config ≤ env.clock m)
    (deleted : key.status = .deleted → getExpireTime key config ≤ env.clock m)
    : key.status = .valid := by
  have early : env.clock m < getExpireTime key config := statusAt_eq_valid.mp found
  cases status : key.status with
  | valid => rfl
  | frozen => exact absurd early (Int.not_lt.mpr (frozen status))
  | deleted => exact absurd early (Int.not_lt.mpr (deleted status))

theorem Retires.refreshed (now : Sound env config w keys)
    (dead : ∀ (i : Nat) (key : KeyInfo), keys[i]? = some key → key.status = .deleted →
      getExpireTime key config ≤ env.clock (w.readings + i))
    : Retires w keys (refreshed env config w.readings keys) := by
  intro key' inside _ valid
  obtain ⟨i, key, found, rfl⟩ := mem_refreshed.mp inside
  have stored := List.mem_of_getElem? found
  refine ⟨key, stored, rfl, valid_of_update valid ?_ (dead i key found)⟩
  intro cold
  exact now.frozen key stored cold _ (Nat.le_add_right _ _)

/-- Marking keys as deleted keeps the stored keys sound and makes none valid. -/
theorem Sound.marked (now : Sound env config w keys) (marked : Marked keys keys')
    : Sound env config w keys' ∧ Retires w keys keys' := by
  have origin (key' : KeyInfo) (inside : key' ∈ keys')
      : ∃ key ∈ keys, key' = key ∨ key' = { key with status := .deleted } := by
    obtain ⟨i, found⟩ := List.mem_iff_getElem?.mp inside
    obtain ⟨key, found', change⟩ := marked i key' found
    exact ⟨key, List.mem_of_getElem? found', change⟩
  refine ⟨⟨?_, ?_, ?_⟩, ?_⟩
  · refine ordered_of_same now.ordered (fun i key' found => ?_)
    obtain ⟨key, there, rfl | rfl⟩ := marked i key' found
    · exact ⟨key', there, rfl⟩
    · exact ⟨key, there, rfl⟩
  · intro key' inside
    obtain ⟨key, stored, rfl | rfl⟩ := origin key' inside
    · exact now.numbered key' stored
    · exact now.numbered key stored
  · intro key' inside cold
    obtain ⟨key, stored, rfl | rfl⟩ := origin key' inside
    · exact now.frozen key' stored cold
    · cases cold
  · intro key' inside _ valid
    obtain ⟨key, stored, rfl | rfl⟩ := origin key' inside
    · exact ⟨key', stored, rfl, valid⟩
    · cases valid

/-- A key behind the others, with its status just updated. -/
theorem Sound.concat {key : KeyInfo} {m : Nat} (clock : Monotone env.clock)
    (now : Sound env config w keys) (behind : ∀ k ∈ keys, k.serial < key.serial)
    (later : Later w w') (numbered : key.serial < w'.serials) (reading : m ≤ w'.readings)
    : Sound env config w' (keys ++ [updateKeyStatus key config (env.clock m)]) where
  ordered := by
    refine List.pairwise_append.mpr ⟨now.ordered, by simp, fun k inside last same => ?_⟩
    rw [List.mem_singleton.mp same]
    exact behind k inside
  numbered k inside := by
    rcases List.mem_append.mp inside with old | last
    · exact Nat.lt_of_lt_of_le (now.numbered k old) later.serials
    · rw [List.mem_singleton.mp last]
      exact numbered
  frozen k inside cold n read := by
    rcases List.mem_append.mp inside with old | last
    · exact now.frozen k old cold n (Nat.le_trans later.readings read)
    · obtain rfl := List.mem_singleton.mp last
      exact expired_of_status clock key (by simp [cold]) (Nat.le_trans reading read)

-----------------------------------------------------------------------------------------
-- What a call does to stored keys
-----------------------------------------------------------------------------------------

/-- The call updates the status of the stored key at an index, at a reading of the clock. A
key that cannot be appended is not stored, and the last stored one is updated in its place.
-/
def KeyManager.updates (env : Env) (self : KeyManager) (call : Call) (i m : Nat) : Prop :=
  match call with
  | .checkAllKeys => self.isInited = true ∧ m = self.world.readings + i
  | .addExternalKey _ =>
      self.isInited = true ∧ self.localKeys.capacity ≤ self.localKeys.size
        ∧ self.world.grants env self.localKeys.nextCapacity = false
        ∧ (i : Int) + 1 = self.localKeys.size ∧ m = self.world.readings + 1
  | _ => False

/-- Whenever the status of a deleted key is updated, its expiry has passed. -/
def staysDead (env : Env) (self : KeyManager) (call : Call) : Prop :=
  ∀ i m key, self.updates env call i m → self.keyAt i = some key → key.status = .deleted →
    getExpireTime key self.config ≤ env.clock m

/-- The keys stored after a call are sound, and a call under the condition made none of them
valid that was not.
-/
structure Carries (env : Env) (before : KeyManager) (call : Call) (after : KeyManager)
    (keys keys' : List KeyInfo) : Prop where
  stores : after.Stores keys'
  sound : Sound env after.config after.world keys'
  later : Later before.world after.world
  retires : staysDead env before call → Retires before.world keys keys'

/-- The key behind the others after an addition comes after them. -/
theorem front_before {front : List KeyInfo} {key : KeyInfo} {keyValue : CString}
    (sound : Sound env self.config self.world keys)
    (origin
      : (self.localKeys.room self.world).takes env = true ∧ front = keys
            ∧ key = KeyManager.externalKey env self keyValue
          ∨ (self.localKeys.room self.world).takes env = false ∧ keys = front ++ [key])
    : front.Sublist keys ∧ (∀ k ∈ front, k.serial < key.serial)
      ∧ key.serial < self.world.serials + 1 := by
  rcases origin with ⟨-, rfl, rfl⟩ | ⟨-, rfl⟩
  · exact ⟨.refl _, sound.numbered, Nat.lt_succ_self _⟩
  · have numbered := sound.numbered key (by simp)
    have ordered := (List.pairwise_append.mp sound.ordered).2.2
    exact ⟨List.sublist_append_left _ _, fun k inside => ordered k inside key (by simp),
      Nat.lt_succ_of_lt numbered⟩

/-- Every call keeps the stored keys sound. -/
theorem Effect.sound {call : Call} (clock : Monotone env.clock)
    (effect : Effect env self keys call after keys')
    (sound : Sound env self.config self.world keys)
    : Sound env after.config after.world keys' := by
  cases effect with
  | idle => exact sound
  | begun fresh later new => exact (Sound.nil env env.defaultConfig self.world).append new later
  | cleared | reset | stopped => exact .nil _ _ _
  | checked inited now later readings new =>
      let updated : World := {
        self.world with readings := self.world.readings + keys.length }
      have old : Sound env self.config updated
          (refreshed env self.config self.world.readings keys) :=
        sound.refreshed clock ⟨Nat.le_add_right _ _, Nat.le_refl _⟩ (Nat.le_refl _)
      exact (old.sublist (kept_sublist _)).append ⟨new.valid, new.since, new.ordered⟩
        ⟨readings, later.serials⟩
  | @extended keyValue w' list' front key inited now readings serials represents origin =>
      obtain ⟨some_of, before, numbered⟩ := front_before sound origin
      have later : Later self.world w' := ⟨by omega, by omega⟩
      exact (sound.sublist some_of).concat clock before later (serials ▸ numbered)
        (show self.world.readings + 1 ≤ w'.readings by omega)
  | marked calls represents marked => exact (sound.marked marked).1.later calls.later

/-- No call under the condition makes a stored key valid that was not. -/
theorem Effect.retires {call : Call} (effect : Effect env self keys call after keys')
    (sound : Sound env self.config self.world keys) (dead : staysDead env self call)
    : Retires self.world keys keys' := by
  cases effect with
  | idle => exact .refl _ _
  | begun fresh later new => exact (Retires.nil self.world keys).append new
  | cleared | reset | stopped => exact .nil _ _
  | checked inited now later readings new =>
      refine .append (fun key inside => ?_) new
      refine Retires.refreshed sound (fun i key found gone => ?_) key
        ((kept_sublist _).subset inside)
      exact dead i _ key ⟨inited, rfl⟩ ((KeyManager.keyAt_eq now i).trans found) gone
  | @extended keyValue w' list' front key inited now readings serials represents origin =>
      intro key' inside old valid
      rcases List.mem_append.mp inside with earlier | last
      · exact ⟨key', (front_before sound origin).1.subset earlier, rfl, valid⟩
      obtain rfl := List.mem_singleton.mp last
      rcases origin with ⟨-, -, rfl⟩ | ⟨refused, rfl⟩
      · -- The new key is not one that was stored before.
        exact absurd old (Nat.lt_irrefl _)
      · -- The last stored key stands in for the new one.
        refine ⟨key, by simp, rfl, valid_of_update valid (fun cold => ?_) (fun gone => ?_)⟩
        · exact sound.frozen key (by simp) cold _ (Nat.le_succ _)
        · have size := now.size
          obtain ⟨full, refused⟩ := Room.takes_eq_false.mp refused
          refine dead front.length _ key ⟨inited, full, refused, ?_, rfl⟩ ?_ gone
          · simp only [List.length_append, List.length_singleton] at size
            omega
          · rw [KeyManager.keyAt_eq now]
            simp
  | marked calls represents marked => exact (sound.marked marked).2

/-- Every call carries the stored keys over, and no call under the condition makes a key valid
again.
-/
theorem call_carries (clock : Monotone env.clock) (stores : self.Stores keys)
    (sound : Sound env self.config self.world keys) {call : Call}
    (ran : self.call env call = .ok after)
    : ∃ keys', Carries env self call after keys keys' := by
  obtain ⟨keys', effect⟩ := stores.effect ran
  exact ⟨keys', effect.stores stores, effect.sound clock sound, effect.later,
    effect.retires sound⟩

-----------------------------------------------------------------------------------------
-- Runs
-----------------------------------------------------------------------------------------

/-- The stored keys of a state, sound. -/
def Tracked (env : Env) (self : KeyManager) : Prop :=
  ∃ keys, self.Stores keys ∧ Sound env self.config self.world keys

/-- In every run the stored keys stay sound. -/
theorem calls_tracked (clock : Monotone env.clock) : (calls env).Invariant (Tracked env) where
  init self start := by
    obtain rfl := start
    exact ⟨[], .inl (KeyInfoList.init_represents _), .nil _ _ _⟩
  step self call after tracked ran := by
    obtain ⟨keys, stores, sound⟩ := tracked
    obtain ⟨keys', carries⟩ := call_carries clock stores sound ran
    exact ⟨keys', carries.stores, carries.sound⟩

/-- The key with a number has been initialised and is not stored as a valid key. -/
def Retired (env : Env) (serial : Nat) (self : KeyManager) : Prop :=
  serial < self.world.serials
  ∧ ∃ keys, self.Stores keys ∧ Sound env self.config self.world keys
    ∧ ∀ key ∈ keys, key.serial = serial → key.status ≠ .valid

/-- A call under the condition leaves a retired key retired. -/
theorem Retired.call {serial : Nat} {call : Call} (clock : Monotone env.clock)
    (retired : Retired env serial self) (dead : staysDead env self call)
    (ran : self.call env call = .ok after)
    : Retired env serial after := by
  obtain ⟨old, keys, stores, sound, none_valid⟩ := retired
  obtain ⟨keys', carries⟩ := call_carries clock stores sound ran
  refine ⟨Nat.lt_of_lt_of_le old carries.later.serials, keys', carries.stores, carries.sound,
    ?_⟩
  intro key' inside same valid
  obtain ⟨key, stored, number, was_valid⟩ :=
    carries.retires dead key' inside (same ▸ old) valid
  exact none_valid key stored (number.trans same) was_valid

/-- A stored key that is not valid is retired, since no other stored key has its number. -/
theorem Tracked.retired {i : Nat} {key : KeyInfo} (tracked : Tracked env self)
    (found : self.keyAt i = some key) (invalid : key.status ≠ .valid)
    : Retired env key.serial self := by
  obtain ⟨keys, stores, sound⟩ := tracked
  rw [stores.keyAt_eq] at found
  have stored := List.mem_of_getElem? found
  have apart : (keys.map KeyInfo.serial).Nodup :=
    List.pairwise_map.mpr (sound.ordered.imp Nat.ne_of_lt)
  refine ⟨sound.numbered key stored, keys, stores, sound, fun other inside same => ?_⟩
  rwa [List.inj_on_of_nodup_map apart inside stored same]

/-- From every reachable state on, a stored key that is not valid is never stored as a valid
key in any later state, and `KeyManager_GetValidKey` does not return it.
-/
structure NeverValidAgain (system : Lts KeyManager Call) : Prop where
  stays
    : ∀ self after i j key key', system.Reachable self → system.Steps self after →
        self.keyAt i = some key → key.status ≠ .valid →
        after.keyAt j = some key' → key'.serial = key.serial → key'.status ≠ .valid
  notReturned
    : ∀ self after i key key', system.Reachable self → system.Steps self after →
        self.keyAt i = some key → key.status ≠ .valid →
        after.getValidKey = .ok (some key') → key'.serial ≠ key.serial

/-- With a clock that never goes backwards, no key becomes valid again when no call updates
the status of a deleted key before its expiry.
-/
theorem staysDead_neverValidAgain (env : Env) (clock : Monotone env.clock)
    : NeverValidAgain ((calls env).restrict (staysDead env)) := by
  have retired {self after : KeyManager} {i : Nat} {key : KeyInfo}
      (reached : ((calls env).restrict (staysDead env)).Reachable self)
      (path : ((calls env).restrict (staysDead env)).Steps self after)
      (found : self.keyAt i = some key) (invalid : key.status ≠ .valid)
      : Retired env key.serial after := by
    have start := ((calls_tracked clock).reachable reached.of_restrict).retired found invalid
    induction path with
    | refl => exact start
    | tail _ step ih =>
        obtain ⟨call, dead, ran⟩ := step
        exact ih.call clock dead ran
  constructor
  · intro self after i j key key' reached path found invalid later same
    obtain ⟨-, keys, stores, -, none_valid⟩ := retired reached path found invalid
    rw [stores.keyAt_eq] at later
    exact none_valid key' (List.mem_of_getElem? later) same
  · intro self after i key key' reached path found invalid returned same
    obtain ⟨-, keys, stores, -, none_valid⟩ := retired reached path found invalid
    obtain ⟨inside, valid⟩ := stores.getValidKey returned
    exact none_valid key' inside same valid

-----------------------------------------------------------------------------------------
-- A run in which keys marked as deleted are checked before their expiry
-----------------------------------------------------------------------------------------

theorem standstill_neverValidAgain
    : NeverValidAgain ((calls standstill).restrict (staysDead standstill)) :=
  staysDead_neverValidAgain standstill monotone_const

/-- Two of the three requested keys are marked as deleted. -/
def marked : KeyManager :=
  Option.get
    (Lts.execute (KeyManager.step standstill) .initInstance [.init, .simulateKeyExpiry 2])
    (by decide +kernel)

/-- The next check of all keys finds them before their expiry. -/
def rechecked : KeyManager :=
  Option.get (marked.step standstill .checkAllKeys) (by decide +kernel)

/-- Not in every run do keys stay invalid: a key marked as deleted is valid again after the
next check.
-/
theorem rechecked_validAgain
    : ¬ ∀ env, Monotone env.clock → 0 < env.defaultConfig.keyValidity →
        0 ≤ env.defaultConfig.freezeDuration → NeverValidAgain (calls env) := by
  intro never
  have reached : (calls standstill).Reachable marked :=
    ⟨.initInstance, rfl, Lts.execute_steps KeyManager.step_sound (Option.some_get _).symm⟩
  have path : (calls standstill).Steps marked rechecked :=
    .single ⟨.checkAllKeys, KeyManager.step_sound _ _ _ (Option.some_get _).symm⟩
  have deleted : (marked.keyAt 0).map (fun key => (key.serial, key.status))
      = some (0, .deleted) := by decide +kernel
  have valid : (rechecked.keyAt 0).map (fun key => (key.serial, key.status))
      = some (0, .valid) := by decide +kernel
  obtain ⟨key, found, first⟩ := Option.map_eq_some_iff.mp deleted
  obtain ⟨key', later, second⟩ := Option.map_eq_some_iff.mp valid
  obtain ⟨serial, status⟩ := Prod.mk.inj first
  obtain ⟨serial', status'⟩ := Prod.mk.inj second
  exact (never standstill monotone_const (by decide) (by decide)).stays marked rechecked 0 0 key
    key' reached path found (by simp [status]) later (serial'.trans serial.symm) status'

end QKeySys.KeyPool
