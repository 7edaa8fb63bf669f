import QKeySys.KeyPool.ListSafety

/-! What an allocation that fails does to the local list: the addition of an external key and
the replenishment, which are to happen as a whole or not at all.
-/

namespace QKeySys.KeyPool

open QKeySys.Library

variable {env : Env} {self : KeyManager} {keys : List KeyInfo}

-----------------------------------------------------------------------------------------
-- The addition of an external key
-----------------------------------------------------------------------------------------

/-- `KeyManager_AddExternalKey` returns true exactly when it has appended one key with the
value, cut to fit. When the list cannot grow it returns false and leaves the keys alone. It
accesses no entry that does not exist, since it runs into no fault.
-/
def AddsAllOrNothing (env : Env) (self : KeyManager) (keyValue : CString)
    (keys : List KeyInfo) : Prop :=
  ∃ result after keys', self.addExternalKey env keyValue = .ok (result, after)
    ∧ after.localKeys.Represents after.world.memory keys'
    ∧ (result = true
      ↔ ∃ key, key.keyValue = fit keyValueMaxLen keyValue ∧ keys' = keys ++ [key])
    ∧ ((self.localKeys.room self.world).takes env = false → result = false ∧ keys' = keys)

/-- The addition is all or nothing exactly when the list has room or its `realloc` is granted:
otherwise it returns true all the same, or accesses an entry before the first one.
-/
theorem addExternalKey_allOrNothing_iff (env : Env) (keyValue : CString)
    (inited : self.isInited = true)
    (now : self.localKeys.Represents self.world.memory keys)
    : AddsAllOrNothing env self keyValue keys
      ↔ self.localKeys.size < self.localKeys.capacity
        ∨ self.world.grants env self.localKeys.nextCapacity = true := by
  have room : (self.localKeys.room self.world).takes env = true
      ↔ self.localKeys.size < self.localKeys.capacity
        ∨ self.world.grants env self.localKeys.nextCapacity = true := by
    rw [Room.takes, Bool.or_eq_true, decide_eq_true_iff]
    rfl
  rw [← room]
  have spec := KeyManager.addExternalKey_spec env keyValue inited now
  constructor
  · rintro ⟨result, after, keys', ran, represents, reports, restores⟩
    rcases spec with ⟨w', list', front, key, ran', -, -, -, origin⟩ | ⟨-, -, failed⟩
    · rcases origin with ⟨taken, -, -⟩ | ⟨refused, -⟩
      · exact taken
      · obtain ⟨rfl, rfl⟩ := Prod.mk.inj (Except.ok.inj (ran'.symm.trans ran))
        cases (restores refused).1
    · cases failed.symm.trans ran
  · intro taken
    rcases spec with ⟨w', list', front, key, ran, -, -, represents, origin⟩ | ⟨refused, -, -⟩
    · rcases origin with ⟨-, rfl, rfl⟩ | ⟨refused, -⟩
      · refine ⟨true, _, _, ran, represents, iff_of_true rfl ⟨_, rfl, rfl⟩, fun refused => ?_⟩
        cases taken.symm.trans refused
      · cases taken.symm.trans refused
    · cases taken.symm.trans refused

/-- No `realloc` is granted. -/
def outOfMemory : Env := { standstill with grants := fun _ => false }

/-- A manager that `KeyManager_Init` has left without keys, since the gateway failed. -/
def emptyPool : KeyManager :=
  Option.get (KeyManager.initInstance.step outOfMemory .init) (by decide +kernel)

theorem emptyPool_represents : emptyPool.localKeys.Represents emptyPool.world.memory [] := by
  have empty : emptyPool.localKeys = .init := by decide +kernel
  rw [empty]
  exact KeyInfoList.init_represents _

theorem emptyPool_adds : AddsAllOrNothing standstill emptyPool ['k'] [] :=
  (addExternalKey_allOrNothing_iff standstill ['k'] (by decide +kernel)
    emptyPool_represents).mpr (.inr (by decide +kernel))

/-- The addition is not always all or nothing: when nothing can be allocated, a manager
without keys updates the status of the key before the first one.
-/
theorem outOfMemory_faults
    : ¬ ∀ env self keyValue keys, self.isInited = true →
        self.localKeys.Represents self.world.memory keys →
        AddsAllOrNothing env self keyValue keys := by
  intro always
  obtain ⟨result, after, keys', ran, -⟩ :=
    always outOfMemory emptyPool ['k'] [] (by decide +kernel) emptyPool_represents
  have fault : (emptyPool.addExternalKey outOfMemory ['k']).isOk = false := by decide +kernel
  rw [ran] at fault
  cases fault

-----------------------------------------------------------------------------------------
-- The replenishment
-----------------------------------------------------------------------------------------

/-- `KeyManager_CheckAndRequestKeys` appends all the keys that are missing, or none. -/
def ReplenishesAllOrNothing (env : Env) (self : KeyManager) (keys : List KeyInfo) : Prop :=
  ∃ after keys', KeyManager.checkAndRequestKeys env self = .ok after
    ∧ after.localKeys.Represents after.world.memory keys'
    ∧ (0 < KeyManager.needed self.config keys
        ∧ keys' = keys ++ requested env self.world (KeyManager.needed self.config keys)
      ∨ keys' = keys)

/-- The list takes all of `n` new keys or none of them, if the gateway can make them. -/
def growsAsAWhole (env : Env) (r : Room) (n : Nat) : Prop :=
  ¬ (Room.empty r.reallocs).takesAll env n
    ∨ (KeyManager.afterBatch env r n).takesAll env n
    ∨ (KeyManager.afterBatch env r n).refusesAll env n

instance (env : Env) (r : Room) (n : Nat) : Decidable (growsAsAWhole env r n) :=
  inferInstanceAs (Decidable (_ ∨ _ ∨ _))

/-- The keys that are added are all that are requested, or none, by cases on what the gateway
can make.
-/
theorem replenished_whole_iff {w : World} {r : Room} {n : Nat}
    : 0 < n ∧ KeyManager.replenished env w r n = requested env w n
        ∨ KeyManager.replenished env w r n = []
      ↔ growsAsAWhole env r n := by
  rw [growsAsAWhole, KeyManager.replenished]
  by_cases batch : (Room.empty r.reallocs).takesAll env n
  · rw [if_pos batch, Room.accepted_eq_self, Room.accepted_eq_nil, requested_length,
      or_iff_right (not_not.mpr batch)]
    constructor
    · exact Or.imp_left And.right
    · rintro (all | none)
      · rcases Nat.eq_zero_or_pos n with rfl | positive
        · exact .inr (fun i less => absurd less (Nat.not_lt_zero i))
        · exact .inl ⟨positive, all⟩
      · exact .inr none
  · rw [if_neg batch]
    exact iff_of_true (.inr rfl) (.inl batch)

/-- The replenishment is all or nothing exactly when the allocations are: the list of the
gateway cannot be filled, or every growth of the local list that is needed is granted, or the
local list is full and every `realloc` is refused.
-/
theorem checkAndRequestKeys_allOrNothing_iff (env : Env)
    (now : self.localKeys.Represents self.world.memory keys)
    : ReplenishesAllOrNothing env self keys
      ↔ growsAsAWhole env (self.localKeys.room self.world)
          (KeyManager.needed self.config keys) := by
  obtain ⟨w', list', added, ran, -, -, represents, origin⟩ :=
    KeyManager.checkAndRequestKeys_spec env self now
  rw [← replenished_whole_iff (w := self.world), ← origin]
  constructor
  · rintro ⟨after, keys', ran', represents', whole⟩
    obtain rfl := Except.ok.inj (ran.symm.trans ran')
    obtain rfl := KeyManager.represented_unique represents represents'
    exact whole.imp (And.imp_right List.append_cancel_left) (by simp)
  · intro whole
    refine ⟨_, _, ran, represents, whole.imp (And.imp_right (congrArg _)) ?_⟩
    rintro rfl
    exact List.append_nil keys

/-- A manager without keys that is to have three. -/
def unfilledPool : KeyManager := { KeyManager.initInstance with config := defaultConfig }

theorem unfilledPool_replenishes : ReplenishesAllOrNothing standstill unfilledPool [] :=
  (checkAndRequestKeys_allOrNothing_iff standstill
    (KeyInfoList.init_represents _)).mpr (by decide +kernel)

/-- After the lists of the initialisation and that of the next request, no `realloc` is
granted.
-/
def lowMemory : Env := { standstill with grants := fun n => n < 3 }

def startedPool : KeyManager :=
  Option.get (KeyManager.initInstance.step lowMemory .init) (by decide +kernel)

/-- All three keys of the initialisation are marked as deleted; the list has room for one. -/
def expiredPool : KeyManager :=
  Option.get (startedPool.step lowMemory (.simulateKeyExpiry 3)) (by decide +kernel)

theorem expiredPool_intact : expiredPool.Intact := by
  have intact := keepsOne_intact lowMemory
  have started : startedPool.Intact :=
    intact.step .initInstance .init startedPool (intact.init _ rfl)
      ⟨trivial, KeyManager.step_sound _ _ _ (Option.some_get _).symm⟩
  exact intact.step startedPool (.simulateKeyExpiry 3) expiredPool started
    ⟨trivial, KeyManager.step_sound _ _ _ (Option.some_get _).symm⟩

/-- The replenishment is not always all or nothing: of the three keys that `expiredPool`
lacks, the list takes the first and cannot grow for the others.
-/
theorem expiredPool_addsSome
    : ¬ ∀ env self keys, self.localKeys.Represents self.world.memory keys →
        ReplenishesAllOrNothing env self keys := by
  intro always
  obtain ⟨keys, now⟩ := expiredPool_intact
  obtain ⟨after, keys', ran, represents, whole⟩ := always lowMemory expiredPool keys now
  have counted : KeyManager.countValid expiredPool.world expiredPool.localKeys = .ok 0 := by
    decide +kernel
  have none_valid := Except.ok.inj ((KeyManager.countValid_spec now).symm.trans counted)
  have missing : KeyManager.needed expiredPool.config keys = 3 := by
    rw [KeyManager.needed, none_valid]
    decide +kernel
  have before : expiredPool.localKeys.size = 3 := by decide +kernel
  have added : ((KeyManager.checkAndRequestKeys lowMemory expiredPool).map
      (fun after => after.localKeys.size)) = .ok 4 := by decide +kernel
  rw [ran] at added
  have four : (keys'.length : Int) = 4 := represents.size.symm.trans (Except.ok.inj added)
  have three : (keys.length : Int) = 3 := now.size.symm.trans before
  rcases whole with ⟨-, rfl⟩ | rfl
  · rw [List.length_append, requested_length, missing] at four
    omega
  · omega

end QKeySys.KeyPool
