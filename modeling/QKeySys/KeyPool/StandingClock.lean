import QKeySys.KeyPool.Effect
import QKeySys.KeyPool.Lifecycle
import QKeySys.KeyPool.ListSafety

/-! A clock that stands still: no key ever runs out, so that checks delete nothing, keys are
only appended, and no released block is left behind.
-/

namespace QKeySys.KeyPool

open QKeySys.Library

variable {env : Env} {t : Int} {self after : KeyManager} {keys keys' : List KeyInfo}

/-- The clock reads `t` whenever it is read, and a key made at that time is valid then. -/
structure StandsAt (env : Env) (t : Int) : Prop where
  clock : ∀ n, env.clock n = t
  unexpired : t < int64 (t + env.defaultConfig.keyValidity)

/-- No key is marked as deleted for a test. -/
def Call.marksNone : Call → Bool
  | .simulateKeyExpiry _ => false
  | _ => true

/-- The calls that give the keys back. -/
def Call.empties : Call → Bool
  | .reset | .stop => true
  | _ => false

/-- What a standing clock keeps: the list is intact, its keys are valid and all of this time,
and an initialised manager has the standard configuration.
-/
structure Lasting (standard : KeyConfig) (t : Int) (manager : KeyManager)
    (keys : List KeyInfo)
    : Prop where
  represents : manager.localKeys.Represents manager.world.memory keys
  valid : ∀ key ∈ keys, key.status = .valid
  made : ∀ key ∈ keys, key.createTs = t
  config : manager.isInited = true → manager.config = standard
  empty : manager.isInited = false → keys = []

-----------------------------------------------------------------------------------------
-- One call
-----------------------------------------------------------------------------------------

/-- A key of this time is valid at this time. -/
theorem StandsAt.statusAt (standing : StandsAt env t) {key : KeyInfo} (made : key.createTs = t)
    : statusAt key env.defaultConfig t = .valid := by
  rw [statusAt_eq_valid, getExpireTime, made]
  exact standing.unexpired

/-- Its status is the one that an update finds. -/
theorem StandsAt.updateKeyStatus (standing : StandsAt env t) {key : KeyInfo}
    (made : key.createTs = t) (valid : key.status = .valid)
    : updateKeyStatus key env.defaultConfig t = key := by
  rw [KeyPool.updateKeyStatus, standing.statusAt made, ← valid]

theorem requested_createTs (standing : StandsAt env t) {w : World} {n : Nat}
    : ∀ key ∈ requested env w n, key.createTs = t := by
  intro key inside
  obtain ⟨i, -, rfl⟩ := mem_requested.mp inside
  exact standing.clock _

namespace Lasting

/-- A check keeps every key. -/
theorem survivors_eq (now : Lasting env.defaultConfig t self keys) (standing : StandsAt env t)
    (inited : self.isInited = true)
    : KeyManager.survivors env self keys = keys := by
  have updated : refreshed env self.config self.world.readings keys = keys := by
    rw [refreshed_standing (fun i _ => standing.clock _), now.config inited]
    refine (List.map_congr_left (fun key inside => ?_)).trans (List.map_id keys)
    exact standing.updateKeyStatus (now.made key inside) (now.valid key inside)
  rw [KeyManager.survivors, updated, kept, List.filter_eq_self]
  intro key inside
  simp [now.valid key inside]

theorem keepsOne (now : Lasting env.defaultConfig t self keys) (standing : StandsAt env t)
    (call : Call)
    : keepsOne env self call := by
  cases call with
  | checkAllKeys =>
      intro inited some_keys
      have some_left : KeyManager.survivors env self keys ≠ [] := by
        rw [now.survivors_eq standing inited]
        rintro rfl
        exact some_keys now.represents.size
      exact (kept_ne_nil_iff now.represents).mp some_left
  | _ => trivial

/-- New keys that are valid and of this time join the others. -/
theorem append (now : Lasting env.defaultConfig t self keys) {w' : World} {list' : KeyInfoList}
    {added : List KeyInfo} (inited : self.isInited = true)
    (represents : list'.Represents w'.memory (keys ++ added))
    (valid : ∀ key ∈ added, key.status = .valid) (made : ∀ key ∈ added, key.createTs = t)
    {seq : Int}
    : Lasting env.defaultConfig t { self with world := w', localKeys := list', seq := seq }
        (keys ++ added) where
  represents := represents
  valid key inside := (List.mem_append.mp inside).elim (now.valid key) (valid key)
  made key inside := (List.mem_append.mp inside).elim (now.made key) (made key)
  config := now.config
  empty out := absurd (inited.symm.trans out) (by simp)

/-- Without keys there is nothing to be valid. -/
theorem nothing {w' : World} {config : KeyConfig} {inited running : Bool}
    (configured : inited = true → config = env.defaultConfig)
    : Lasting env.defaultConfig t {
        self with
        world := w', localKeys := .init, config := config
        isInited := inited, isRunning := running } [] where
  represents := KeyInfoList.init_represents _
  valid := by simp
  made := by simp
  config := configured
  empty _ := rfl

/-- The initialisation makes keys of this time; one that fails gives them back. -/
theorem init (now : Lasting env.defaultConfig t self keys) (standing : StandsAt env t)
    (fresh : self.isInited = false) (ran : self.call env .init = .ok after)
    : ∃ keys', Lasting env.defaultConfig t after keys' ∧ keys <+: keys' := by
  obtain ⟨⟨created, after'⟩, begun, rfl⟩ := of_map ran
  obtain ⟨-, inited, -, empty, -⟩ := KeyManager.init_begins fresh begun
  obtain ⟨keys', effect⟩ := KeyManager.Stores.effect (.inl now.represents) ran
  rw [now.empty fresh]
  cases effect with
  | idle idles => simp_all [Call.idles, Call.skipped]
  | begun fresh later new represents some_of =>
      refine ⟨keys', ⟨represents, new.valid, ?_, fun _ => rfl, fun out => ?_⟩, List.nil_prefix⟩
      · exact fun key inside => requested_createTs standing key (some_of.subset inside)
      · have size := represents.size
        have nothing := congrArg KeyInfoList.size (empty (inited.symm.trans out))
        exact List.length_eq_zero_iff.mp (Int.ofNat_eq_zero.mp (size.symm.trans nothing))

/-- A check only appends keys of this time. -/
theorem check (now : Lasting env.defaultConfig t self keys) (standing : StandsAt env t)
    (inited : self.isInited = true)
    : ∃ after keys', self.checkAllKeys env = .ok after ∧ Lasting env.defaultConfig t after keys'
        ∧ keys <+: keys' := by
  obtain ⟨w', list', added, ran, -, -, new, represents, origin⟩ :=
    KeyManager.checkAllKeys_spec env inited now.represents
      (kept_of_keepsOne now.represents inited (now.keepsOne standing .checkAllKeys))
  rw [now.survivors_eq standing inited] at represents
  refine ⟨_, _, ran, now.append inited represents new.valid (fun key inside => ?_),
    List.prefix_append _ _⟩
  rw [origin] at inside
  exact requested_createTs standing key ((KeyManager.replenished_sublist _ _).subset inside)

/-- An addition appends a key of this time, or updates the last key to the status it has. -/
theorem addition (now : Lasting env.defaultConfig t self keys) (standing : StandsAt env t)
    (inited : self.isInited = true) (keyValue : CString)
    : (∃ made after keys', self.addExternalKey env keyValue = .ok (made, after)
        ∧ Lasting env.defaultConfig t after keys' ∧ keys <+: keys')
      ∨ (self.localKeys.room self.world).takes env = false ∧ keys = []
        ∧ self.addExternalKey env keyValue = .error .outside := by
  rcases KeyManager.addExternalKey_spec env keyValue inited now.represents with
    ⟨w', list', front, key, ran, -, -, represents, origin⟩ | failed
  case inr => exact .inr failed
  refine .inl ⟨true, _, front ++ [key], ran, ?_⟩
  have made : key.createTs = t := by
    rcases origin with ⟨-, -, rfl⟩ | ⟨-, rfl⟩
    · exact standing.clock _
    · exact now.made key (by simp)
  have valid : key.status = .valid := by
    rcases origin with ⟨-, -, rfl⟩ | ⟨-, rfl⟩
    · rfl
    · exact now.valid key (by simp)
  rw [now.config inited, standing.clock, standing.updateKeyStatus made valid] at represents
  rcases origin with ⟨-, rfl, -⟩ | ⟨-, rfl⟩
  · exact ⟨now.append inited represents (by simpa using valid) (by simpa using made),
      List.prefix_append _ _⟩
  · exact ⟨⟨represents, now.valid, now.made, now.config,
      fun out => absurd (inited.symm.trans out) (by simp)⟩, List.prefix_rfl⟩

/-- Every call succeeds and only appends keys or gives them back, unless it adds a key to an
empty list for which there is no memory.
-/
theorem call (now : Lasting env.defaultConfig t self keys) (standing : StandsAt env t)
    {call : Call} (marks : call.marksNone = true)
    : (∃ after keys', self.call env call = .ok after ∧ Lasting env.defaultConfig t after keys'
        ∧ (call.empties = false → keys <+: keys'))
      ∨ (self.localKeys.room self.world).takes env = false ∧ keys = []
        ∧ self.call env call = .error .outside
        ∧ ∃ keyValue, call = .addExternalKey keyValue := by
  by_cases skipped : call.skipped self = true
  · exact .inl ⟨self, keys, KeyManager.call_skipped skipped, now, fun _ => List.prefix_rfl⟩
  cases call with
  | init =>
      have fresh : self.isInited = false := by simpa [Call.skipped] using skipped
      obtain ⟨created, w', list', new, ran, -⟩ := KeyManager.init_spec env fresh
      have ran := congrArg (Except.map Prod.snd) ran
      obtain ⟨keys', lasting, appended⟩ := now.init standing fresh ran
      exact .inl ⟨_, keys', ran, lasting, fun _ => appended⟩
  | checkAllKeys =>
      have inited : self.isInited = true := by simpa [Call.skipped] using skipped
      obtain ⟨after, keys', ran, lasting, appended⟩ := now.check standing inited
      exact .inl ⟨after, keys', ran, lasting, fun _ => appended⟩
  | addExternalKey keyValue =>
      have inited : self.isInited = true := by simpa [Call.skipped] using skipped
      rcases now.addition standing inited keyValue with
        ⟨made, after, keys', ran, lasting, appended⟩ | ⟨refused, nothing, failed⟩
      · exact .inl ⟨after, keys', congrArg (Except.map Prod.snd) ran, lasting,
          fun _ => appended⟩
      · exact .inr
          ⟨refused, nothing, congrArg (Except.map Prod.snd) failed, keyValue, rfl⟩
  | simulateKeyExpiry => cases marks
  | getValidKey =>
      have inited : self.isInited = true := by simpa [Call.skipped] using skipped
      have ran := KeyManager.getValidKey_spec inited now.represents
      exact .inl ⟨self, keys, congrArg (Except.map _) ran, now, fun _ => List.prefix_rfl⟩
  | reset =>
      obtain ⟨w', ran, -⟩ := KeyManager.reset_spec env now.represents
      exact .inl ⟨_, [], ran, nothing (fun _ => rfl), fun keeps => by cases keeps⟩
  | stop =>
      have inited : self.isInited = true := by simpa [Call.skipped] using skipped
      obtain ⟨w', ran, -⟩ := KeyManager.stop_spec inited now.represents
      exact .inl ⟨_, [], ran, nothing (fun out => by cases out), fun keeps => by cases keeps⟩

/-- Before the first call there are no keys. -/
theorem start (standard : KeyConfig) (t : Int) : Lasting standard t .initInstance [] where
  represents := KeyInfoList.init_represents _
  valid := by simp
  made := by simp
  config out := by cases out
  empty _ := rfl

end Lasting

end QKeySys.KeyPool
