import Mathlib
import QKeySys.KeyPool.Effect
import QKeySys.KeyPool.Lifecycle

/-! The key that `KeyManager_GetValidKey` hands out. It does not read the clock: it relies on
the statuses that the last check of all keys, and what came after it, have stored.
-/

namespace QKeySys.KeyPool

open QKeySys.Library

variable {env : Env} {self after : KeyManager} {keys keys' : List KeyInfo} {start now : Nat}

/-- The manager with the number of readings of the clock before its last initialisation or
check of all keys.
-/
structure Checked where
  manager : KeyManager
  start : Nat

namespace Checked

def init : Checked := ⟨.initInstance, 0⟩

/-- An initialisation and a check start at the next reading, unless they return at once. -/
def startOf (s : Checked) : Call → Nat
  | .init => if s.manager.isInited then s.start else s.manager.world.readings
  | .checkAllKeys => if s.manager.isInited then s.manager.world.readings else s.start
  | _ => s.start

/-- A call of the manager. -/
def call (env : Env) (s : Checked) (call : Call) : Except Fault Checked :=
  (s.manager.call env call).map (fun after => ⟨after, s.startOf call⟩)

end Checked

/-- All sequences of calls that run into no fault. -/
def checkeds (env : Env) : Lts Checked Call where
  init s := s = .init
  next s call s' := s.call env call = .ok s'

/-- The key that is handed out was within its validity at a reading of the clock in or after
the last check; and one is handed out at any time within the validity of a stored key that is
not marked as deleted.
-/
structure HandsOut (env : Env) (s : Checked) (t : Int) : Prop where
  returned
    : ∀ key, s.manager.getValidKey = .ok (some key) →
        ∃ n, s.start ≤ n ∧ n < s.manager.world.readings
          ∧ env.clock n < key.createTs + s.manager.config.keyValidity
  found
    : ∀ i key, s.manager.keyAt i = some key → key.status ≠ .deleted →
        t < key.createTs + s.manager.config.keyValidity →
        ∃ key', s.manager.getValidKey = .ok (some key')

-----------------------------------------------------------------------------------------
-- Statuses and the readings that justify them
-----------------------------------------------------------------------------------------

/-- Among the readings below `now` there is the one at which the key was created, and one that
justifies its status; for a valid key that one is not before `start`.
-/
structure Dated (env : Env) (start now : Nat) (key : KeyInfo) : Prop where
  created : ∃ n, n < now ∧ key.createTs = env.clock n
  valid
    : key.status = .valid →
        ∃ n, start ≤ n ∧ n < now ∧ env.clock n < getExpireTime key env.defaultConfig
  frozen
    : key.status = .frozen → ∃ n, n < now ∧ getExpireTime key env.defaultConfig ≤ env.clock n

namespace Dated

variable {key : KeyInfo} {now' : Nat}

/-- More readings may be looked at. -/
theorem mono {start' : Nat} (dated : Dated env start now key) (earlier : start' ≤ start)
    (later : now ≤ now')
    : Dated env start' now' key where
  created := by
    obtain ⟨n, before, same⟩ := dated.created
    exact ⟨n, Nat.lt_of_lt_of_le before later, same⟩
  valid valid := by
    obtain ⟨n, since, before, early⟩ := dated.valid valid
    exact ⟨n, Nat.le_trans earlier since, Nat.lt_of_lt_of_le before later, early⟩
  frozen cold := by
    obtain ⟨n, before, late⟩ := dated.frozen cold
    exact ⟨n, Nat.lt_of_lt_of_le before later, late⟩

/-- An update dates the status anew. -/
theorem update {start' n : Nat} (dated : Dated env start now key) (later : now ≤ now')
    (since : start' ≤ n) (before : n < now')
    : Dated env start' now' (updateKeyStatus key env.defaultConfig (env.clock n)) where
  created := (dated.mono (Nat.le_refl _) later).created
  valid valid := ⟨n, since, before, statusAt_eq_valid.mp valid⟩
  frozen cold := by
    have cold : statusAt key env.defaultConfig (env.clock n) = .frozen := cold
    refine ⟨n, before, Int.not_lt.mp (fun early => ?_)⟩
    cases cold.symm.trans (statusAt_eq_valid.mpr early)

/-- A mark as deleted needs no date. -/
theorem delete (dated : Dated env start now key)
    : Dated env start now { key with status := .deleted } where
  created := dated.created
  valid valid := by cases valid
  frozen cold := by cases cold

end Dated

/-- No expiry of a key that is created at a reading of the clock overflows, and it is later. -/
structure LongLived (env : Env) : Prop where
  validity : 0 < env.defaultConfig.keyValidity
  inRange
    : ∀ n, int64 (env.clock n + env.defaultConfig.keyValidity)
        = env.clock n + env.defaultConfig.keyValidity

/-- A key that is initialised at a reading of the clock. -/
theorem LongLived.dated (lives : LongLived env) {key : KeyInfo} {n : Nat}
    (created : key.createTs = env.clock n) (valid : key.status = .valid) (since : start ≤ n)
    (before : n < now)
    : Dated env start now key where
  created := ⟨n, before, created⟩
  valid _ := by
    have validity := lives.validity
    refine ⟨n, since, before, ?_⟩
    rw [getExpireTime, created, lives.inRange]
    omega
  frozen cold := by cases valid.symm.trans cold

/-- Keys of a request, when every initialised key took one reading of the clock. -/
theorem LongLived.requested (lives : LongLived env) {w w' : World} {n : Nat}
    {added : List KeyInfo} (some_of : added.Sublist (requested env w n))
    (fresh : Fresh w w' added)
    (stepwise : w'.readings + w.serials = w.readings + w'.serials)
    : ∀ key ∈ added, Dated env w.readings w'.readings key := by
  intro key inside
  obtain ⟨i, -, rfl⟩ := mem_requested.mp (some_of.subset inside)
  have number : w.serials + i < w'.serials := (fresh.since _ inside).2
  exact lives.dated rfl rfl (Nat.le_add_right _ i) (by omega)

-----------------------------------------------------------------------------------------
-- What a call does to the dates
-----------------------------------------------------------------------------------------

namespace Checked

variable {s s' : Checked}

/-- The stored keys are dated, by the configuration that an initialised manager has. -/
structure Grounded (env : Env) (s : Checked) : Prop where
  started : s.start ≤ s.manager.world.readings
  config : s.manager.isInited = true → s.manager.config = env.defaultConfig
  dated
    : ∃ keys, s.manager.Stores keys
        ∧ ∀ key ∈ keys, Dated env s.start s.manager.world.readings key

/-- A call that leaves everything as it is does not start anew. -/
theorem startOf_idles {call : Call} (idles : call.idles s.manager)
    : s.startOf call = s.start := by
  rcases idles with skipped | rfl | ⟨number, rfl⟩
  · cases call <;> simp_all [Call.skipped, startOf]
  · rfl
  · rfl

theorem startOf_le (started : s.start ≤ s.manager.world.readings) (call : Call)
    : s.startOf call ≤ s.manager.world.readings := by
  cases call with
  | init | checkAllKeys =>
      by_cases inited : s.manager.isInited = true <;> simp [startOf, inited, started]
  | addExternalKey | simulateKeyExpiry | getValidKey | reset | stop => exact started

/-- An initialised manager has the default configuration. -/
theorem config_effect {call : Call} (effect : Effect env self keys call after keys')
    (config : self.isInited = true → self.config = env.defaultConfig)
    (inited : after.isInited = true)
    : after.config = env.defaultConfig := by
  cases effect with
  | idle | marked => exact config inited
  | begun | reset => rfl
  | cleared inited | checked inited | extended inited => exact config inited
  | stopped => cases inited

/-- A check dates every key that it keeps, and the new ones. -/
theorem dated_check {added : List KeyInfo} (lives : LongLived env)
    (config : self.config = env.defaultConfig)
    (dated : ∀ key ∈ keys, Dated env start self.world.readings key)
    (origin : added = KeyManager.checkAdds env self keys)
    (new : Fresh self.world after.world added)
    (later : self.world.readings + keys.length ≤ after.world.readings)
    (stepwise
      : after.world.readings + self.world.serials
        = self.world.readings + keys.length + after.world.serials)
    : ∀ key ∈ KeyManager.survivors env self keys ++ added,
        Dated env self.world.readings after.world.readings key := by
  intro key inside
  rcases List.mem_append.mp inside with old | made
  · obtain ⟨i, key, there, rfl⟩ := mem_refreshed.mp ((kept_sublist _).subset old)
    have less := (List.getElem?_eq_some_iff.mp there).1
    rw [config]
    exact (dated key (List.mem_of_getElem? there)).update (by omega) (Nat.le_add_right _ i)
      (by omega)
  · obtain ⟨n, some_of⟩ : ∃ n, added.Sublist (requested env (self.afterUpdate keys) n) :=
      ⟨_, by rw [origin]; exact KeyManager.replenished_sublist _ _⟩
    have made' : Dated env (self.afterUpdate keys).readings after.world.readings key :=
      lives.requested some_of ⟨new.valid, new.since, new.ordered⟩ stepwise key made
    exact made'.mono (Nat.le_add_right _ keys.length) (Nat.le_refl _)

/-- An addition dates the last key, which is the new one if there was room for it. -/
theorem dated_addition {front : List KeyInfo} {key : KeyInfo} {keyValue : CString}
    (lives : LongLived env) (config : self.config = env.defaultConfig)
    (started : start ≤ self.world.readings)
    (dated : ∀ key ∈ keys, Dated env start self.world.readings key)
    (origin
      : (self.localKeys.room self.world).takes env = true ∧ front = keys
            ∧ key = KeyManager.externalKey env self keyValue
          ∨ (self.localKeys.room self.world).takes env = false ∧ keys = front ++ [key])
    : ∀ k ∈ front ++ [updateKeyStatus key self.config (env.clock (self.world.readings + 1))],
        Dated env start (self.world.readings + 2) k := by
  have before : (∀ k ∈ front, k ∈ keys)
      ∧ Dated env start (self.world.readings + 1) key := by
    rcases origin with ⟨-, rfl, rfl⟩ | ⟨-, rfl⟩
    · exact ⟨fun _ => id, lives.dated rfl rfl started (Nat.lt_succ_self _)⟩
    · exact ⟨fun k inside => List.mem_append_left _ inside,
        (dated key (by simp)).mono (Nat.le_refl _) (Nat.le_succ _)⟩
  intro k inside
  rcases List.mem_append.mp inside with old | last
  · exact (dated k (before.1 k old)).mono (Nat.le_refl _) (Nat.le_add_right _ 2)
  · rw [List.mem_singleton.mp last, config]
    exact before.2.update (Nat.le_succ _) (Nat.le_trans started (Nat.le_succ _))
      (Nat.lt_succ_self _)

/-- A mark as deleted leaves the dates of the other keys. -/
theorem dated_marked (marked : Marked keys keys') (dated : ∀ key ∈ keys, Dated env start now key)
    : ∀ key ∈ keys', Dated env start now key := by
  intro key' inside
  obtain ⟨i, found⟩ := List.mem_iff_getElem?.mp inside
  obtain ⟨key, origin, change⟩ := marked i key' found
  have before := dated key (List.mem_of_getElem? origin)
  rcases change with rfl | rfl
  · exact before
  · exact before.delete

/-- Every call leaves dated keys dated. -/
theorem Grounded.dated_effect (now : s.Grounded env) (lives : LongLived env) {call : Call}
    (called : s.manager.call env call = .ok after)
    (dated : ∀ key ∈ keys, Dated env s.start s.manager.world.readings key)
    (effect : Effect env s.manager keys call after keys')
    : ∀ key ∈ keys', Dated env (s.startOf call) after.world.readings key := by
  cases effect with
  | idle idles =>
      rw [startOf_idles idles]
      exact dated
  | begun fresh later new represents some_of =>
      obtain ⟨⟨created, after⟩, begun, rfl⟩ := of_map called
      obtain ⟨-, -, -, -, -, stepwise⟩ := KeyManager.init_begins fresh begun
      rw [startOf, if_neg (by simp [fresh])]
      exact lives.requested some_of new stepwise
  | cleared | reset | stopped => exact fun key inside => by cases inside
  | checked inited represents later readings new represents' origin =>
      have stepwise := KeyManager.checkAllKeys_stepwise inited represents called
      rw [startOf, if_pos inited]
      exact dated_check lives (now.config inited) dated origin new readings stepwise
  | extended inited represents readings serials represents' origin =>
      simp only [readings]
      exact dated_addition lives (now.config inited) now.started dated origin
  | marked calls represents marked =>
      simp only [calls.readings]
      exact dated_marked marked dated

theorem Grounded.call (now : s.Grounded env) (lives : LongLived env) {call : Call}
    (ran : s.call env call = .ok s')
    : s'.Grounded env := by
  obtain ⟨after, called, rfl⟩ := of_map ran
  obtain ⟨keys, stores, dated⟩ := now.dated
  obtain ⟨keys', effect⟩ := stores.effect called
  exact {
    started := Nat.le_trans (startOf_le now.started call) effect.later.readings
    config := config_effect effect now.config
    dated := ⟨keys', effect.stores stores, now.dated_effect lives called dated effect⟩
  }

/-- In every run the stored keys are dated. -/
theorem grounded (lives : LongLived env) : (checkeds env).Invariant (Grounded env) where
  init s start := by
    obtain rfl := start
    exact ⟨Nat.le_refl _, fun inited => (by cases inited), [],
      .inl (KeyInfoList.init_represents _), by simp⟩
  step s call s' now ran := now.call lives ran

/-- The expiry of a dated key is the sum of its two times. -/
theorem getExpireTime_eq (lives : LongLived env) {key : KeyInfo}
    (dated : Dated env start now key)
    : getExpireTime key env.defaultConfig
      = key.createTs + env.defaultConfig.keyValidity := by
  obtain ⟨n, -, same⟩ := dated.created
  rw [getExpireTime, same, lives.inRange]

/-- With dated keys the lookup goes by dates. -/
theorem Grounded.handsOut (now : s.Grounded env) (lives : LongLived env)
    (inited : s.manager.isInited = true) {t : Int}
    (notEarlier : ∀ n, n < s.manager.world.readings → env.clock n ≤ t)
    : HandsOut env s t := by
  obtain ⟨-, config, keys, stores, dated⟩ := now
  have config := config inited
  constructor
  · intro key returned
    obtain ⟨inside, valid⟩ := stores.getValidKey returned
    obtain ⟨n, since, before, early⟩ := (dated key inside).valid valid
    rw [getExpireTime_eq lives (dated key inside), ← config] at early
    exact ⟨n, since, before, early⟩
  · intro i key found stays early
    rw [stores.keyAt_eq] at found
    have inside := List.mem_of_getElem? found
    have valid : key.status = .valid := by
      cases status : key.status with
      | valid => rfl
      | frozen =>
          obtain ⟨n, before, late⟩ := (dated key inside).frozen status
          rw [getExpireTime_eq lives (dated key inside), ← config] at late
          have passed := notEarlier n before
          omega
      | deleted => exact absurd status stays
    rcases stores with represents | ⟨rfl, -⟩
    · rw [KeyManager.getValidKey_spec inited represents]
      obtain ⟨key', first⟩ := Option.isSome_iff_exists.mp
        (List.find?_isSome (p := fun key => key.status = .valid).mpr
          ⟨key, inside, by simpa using valid⟩)
      exact ⟨key', congrArg Except.ok first⟩
    · cases inside

end Checked

/-- With a clock that never goes backwards, in every state of an initialised manager and at
every time since: a key that is handed out was within its validity in or after the last check,
and none is held back that still is.
-/
theorem getValidKey_handsOut (env : Env) (clock : Monotone env.clock) (lives : LongLived env)
    (s : Checked) (reached : (checkeds env).Reachable s) (inited : s.manager.isInited = true)
    (t : Int) (notEarlier : ∀ n, n + 1 = s.manager.world.readings → env.clock n ≤ t)
    : HandsOut env s t := by
  refine ((Checked.grounded lives).reachable reached).handsOut lives inited (fun n before => ?_)
  obtain ⟨last, same⟩ : ∃ last, last + 1 = s.manager.world.readings :=
    ⟨s.manager.world.readings - 1, by omega⟩
  exact Int.le_trans (clock (by omega)) (notEarlier last same)

-----------------------------------------------------------------------------------------
-- A key that expires before the next check
-----------------------------------------------------------------------------------------

/-- The manager after its initialisation at time 1000. -/
def begun : KeyManager :=
  Option.get (KeyManager.initInstance.step standstill .init) (by decide +kernel)

theorem standstill_longLived : LongLived standstill where
  validity := by decide
  inRange _ := by
    change int64 (1000 + 60) = 1000 + 60
    decide

theorem begun_handsOut : HandsOut standstill ⟨begun, 0⟩ 1060 := by
  have ran : Checked.init.call standstill .init = .ok ⟨begun, 0⟩ :=
    congrArg (Except.map _) (ok_of_toOption (Option.some_get _).symm)
  exact getValidKey_handsOut standstill monotone_const standstill_longLived _
    (.next (.start rfl) ran) (by decide +kernel) 1060
    (fun _ _ => show (1000 : Int) ≤ 1060 by decide)

/-- The key that is handed out need not be within its validity any more: a minute after the
initialisation its three keys still count as valid.
-/
theorem begun_expired
    : ¬ ∀ env, Monotone env.clock → LongLived env → ∀ self, (calls env).Reachable self →
        self.isInited = true → ∀ t : Int,
        (∀ n, n + 1 = self.world.readings → env.clock n ≤ t) →
        ∀ key, self.getValidKey = .ok (some key) →
          t < key.createTs + self.config.keyValidity := by
  intro within
  have ran : KeyManager.initInstance.call standstill .init = .ok begun :=
    ok_of_toOption (Option.some_get _).symm
  have returned : begun.getValidKey.map (Option.map KeyInfo.createTs) = .ok (some 1000) := by
    decide +kernel
  obtain ⟨found, handed, created⟩ := of_map returned
  obtain ⟨key, rfl, createTs⟩ := Option.map_eq_some_iff.mp created
  have early := within standstill monotone_const standstill_longLived begun
    (.next (.start rfl) ran) (by decide +kernel) 1060
    (fun _ _ => show (1000 : Int) ≤ 1060 by decide) key handed
  have validity : begun.config.keyValidity = 60 := by decide +kernel
  rw [createTs, validity] at early
  cases early

end QKeySys.KeyPool
