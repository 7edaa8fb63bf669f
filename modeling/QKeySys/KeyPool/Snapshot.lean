import QKeySys.KeyPool.ListSafety
import QKeySys.KeyPool.Memory

/-! A reader's copy of the local keys: over all sequences of calls no block is leaked, and what
the manager does later does not show in the copy.
-/

namespace QKeySys.KeyPool

open QKeySys.Library BlockMemory

variable {env : Env} {w w' : World} {list list' outList : KeyInfoList} {self after : KeyManager}
variable {keys copied : List KeyInfo}

-----------------------------------------------------------------------------------------
-- What a reader calls
-----------------------------------------------------------------------------------------

namespace KeyManager

/-- `KeyManager_GetLocalKeys`: the list of the caller is initialised, not released, and stays
as it is when the manager is not initialised.
-/
def getLocalKeys (env : Env) (self : KeyManager) (outList : KeyInfoList)
    : Except Fault (KeyManager × KeyInfoList) :=
  if !self.isInited then
    .ok (self, outList)
  else do
    let (w, outList) ← addAll env self.world .init self.localKeys
    .ok ({ self with world := w }, outList)

end KeyManager

/-- The manager and the list of a caller that reads the local keys. -/
structure Reader where
  manager : KeyManager
  outList : KeyInfoList

/-- The calls of the manager and those of the reader, for its own list. -/
inductive ReaderCall where
  | manager (call : Call)
  | getLocalKeys
  | free
  deriving DecidableEq, Repr

namespace Reader

def init : Reader := ⟨.initInstance, .init⟩

/-- The state after a call, or the fault that the call runs into. -/
def call (env : Env) (s : Reader) : ReaderCall → Except Fault Reader
  | .manager call =>
      (s.manager.call env call).map (fun manager => { s with manager := manager })
  | .getLocalKeys =>
      (s.manager.getLocalKeys env s.outList).map (fun (manager, outList) => ⟨manager, outList⟩)
  | .free =>
      (s.outList.free s.manager.world).map
        (fun (w, outList) => ⟨{ s.manager with world := w }, outList⟩)

/-- The reader asks for the keys when its list has no block. -/
def freesFirst (s : Reader) : ReaderCall → Prop
  | .getLocalKeys => s.outList.data = none
  | _ => True

/-- The reader frees its list first, and no check deletes all keys. -/
def freesFirstKeepsOne (env : Env) (s : Reader) : ReaderCall → Prop
  | .manager call => keepsOne env s.manager call
  | .getLocalKeys => s.outList.data = none
  | .free => True

/-- Only the manager is called. -/
def leavesCopy (_ : Reader) : ReaderCall → Prop
  | .manager _ => True
  | _ => False

end Reader

/-- All sequences of calls that run into no fault. -/
def readers (env : Env) : Lts Reader ReaderCall where
  init s := s = .init
  next s call s' := s.call env call = .ok s'

-----------------------------------------------------------------------------------------
-- The blocks
-----------------------------------------------------------------------------------------

namespace KeyManager

/-- The copying loop leaves an intact list behind, whatever it copies. -/
theorem addAll_intact {newKeys : KeyInfoList} (now : list.Represents w.memory keys)
    (ran : addAll env w list newKeys = .ok (w', list'))
    : ∃ keys', list'.Represents w'.memory keys' := by
  refine forLoop_inv (fun _ state => ∃ keys', state.2.Represents state.1.memory keys')
    ⟨keys, now⟩ (fun _ _ state state' earlier step => ?_) ran
  obtain ⟨key, -, rest⟩ := of_bind step
  obtain ⟨⟨w₁, list₁, added⟩, stored, same⟩ := of_bind rest
  obtain rfl := Except.ok.inj same
  obtain ⟨keys', represents⟩ := earlier
  obtain ⟨w₂, list₂, result, taken, -, -, -, outcome⟩ := represents.add env key
  cases stored.symm.trans taken
  rcases outcome with ⟨-, -, more⟩ | ⟨-, -, memory, rfl⟩
  · exact ⟨_, more⟩
  · exact ⟨keys', memory ▸ represents⟩

/-- A copy is made in a new block and changes nothing else. -/
theorem getLocalKeys_inited (inited : self.isInited = true)
    (ran : self.getLocalKeys env outList = .ok (after, list'))
    : ∃ w', after = { self with world := w' }
        ∧ addAll env self.world .init self.localKeys = .ok (w', list') := by
  obtain ⟨⟨w', list''⟩, copied, same⟩ := of_bind ((if_neg (by simp [inited])).symm.trans ran)
  obtain ⟨rfl, rfl⟩ := Prod.mk.inj (Except.ok.inj same)
  exact ⟨w', rfl, copied⟩

end KeyManager

namespace Reader

variable {s s' : Reader}

/-- Every live block belongs to the manager's list or to the reader's, which is another one and
intact.
-/
structure Separate (s : Reader) : Prop where
  empty : s.manager.isInited = false → s.manager.localKeys = .init
  used : s.manager.world.memory.Used s.manager.localKeys.data
  owned : s.manager.world.memory.Owned [s.manager.localKeys.data, s.outList.data]
  apart : ∀ a, s.outList.data = some a → some a ≠ s.manager.localKeys.data
  intact : ∃ keys, s.outList.Represents s.manager.world.memory keys

/-- What the manager does leaves the reader's list alone. -/
theorem Separate.manager (now : s.Separate) {call : Call}
    (ran : s.manager.call env call = .ok after)
    : Separate { s with manager := after }
      ∧ ∀ keys, s.outList.Represents s.manager.world.memory keys →
          s.outList.Represents after.world.memory keys := by
  have handed := KeyManager.call_handed (fun out => by rw [now.empty out]; rfl) ran
  have kept (keys : List KeyInfo) (copy : s.outList.Represents s.manager.world.memory keys)
      : s.outList.Represents after.world.memory keys :=
    copy.frame handed.toTouches now.apart
  obtain ⟨keys, copy⟩ := now.intact
  refine ⟨?_, kept⟩
  constructor
  case empty => exact KeyManager.call_empty now.empty ran
  case used => exact handed.used now.used
  case owned => exact handed.owned _ now.owned
  case apart =>
    intro a data
    obtain ⟨cells, live, -⟩ := copy.wellFormed.live a data
    exact handed.toTouches.apart live (now.apart a data)
  case intact => exact ⟨keys, kept keys copy⟩

/-- A copy is a new list beside that of the manager. -/
theorem Separate.getLocalKeys (now : s.Separate) (freed : s.outList.data = none)
    (ran : s.manager.getLocalKeys env s.outList = .ok (after, outList))
    : Separate ⟨after, outList⟩ := by
  cases inited : s.manager.isInited with
  | false =>
      have skipped : (!s.manager.isInited) = true := by simp [inited]
      obtain ⟨rfl, rfl⟩ := Prod.mk.inj (Except.ok.inj ((if_pos skipped).symm.trans ran))
      exact now
  | true =>
      obtain ⟨w', rfl, copied⟩ := KeyManager.getLocalKeys_inited inited ran
      have handed := KeyManager.addAll_handed copied
      have owned := now.owned
      rw [freed] at owned
      have shared := handed.owned [s.manager.localKeys.data] owned.swap
      constructor
      case empty => exact fun out => (by cases inited.symm.trans out)
      case used => exact now.used.later handed.next
      case owned => exact shared.swap
      case apart => exact handed.fresh now.used
      case intact =>
        exact KeyManager.addAll_intact (KeyInfoList.init_represents _) copied

/-- Freeing the copy runs into no fault and leaves the manager's list alone. -/
theorem Separate.free (now : s.Separate)
    : ∃ w', s.outList.free s.manager.world = .ok (w', .init)
        ∧ Separate ⟨{ s.manager with world := w' }, .init⟩
        ∧ ∀ keys, s.manager.localKeys.Represents s.manager.world.memory keys →
            s.manager.localKeys.Represents w'.memory keys := by
  obtain ⟨keys, copy⟩ := now.intact
  obtain ⟨w', freed, -, touches⟩ := copy.wellFormed.free
  have handed := (KeyInfoList.free_handed freed).1
  have left := handed.owned [s.manager.localKeys.data] now.owned.swap
  refine ⟨w', freed, ?_, fun keys' represents => represents.frame touches ?_⟩
  · constructor
    case empty => exact now.empty
    case used => exact now.used.later handed.next
    case owned => exact left.swap
    case apart => simp [KeyInfoList.init]
    case intact => exact ⟨[], KeyInfoList.init_represents _⟩
  · exact fun a data same => now.apart a same.symm data.symm

/-- Every call of a reader that frees its list first keeps the two lists separate. -/
theorem separate (env : Env) : ((readers env).restrict freesFirst).Invariant Separate where
  init s start := by
    obtain rfl := start
    constructor
    case empty => exact fun _ => rfl
    case used => exact used_none _
    case owned => exact empty_owned _
    case apart => simp [init, KeyInfoList.init]
    case intact => exact ⟨[], KeyInfoList.init_represents _⟩
  step s call s' now step := by
    obtain ⟨freed, ran⟩ := step
    cases call with
    | manager call =>
        obtain ⟨after, called, rfl⟩ := of_map ran
        exact (now.manager called).1
    | getLocalKeys =>
        obtain ⟨⟨after, outList⟩, copied, rfl⟩ := of_map ran
        exact now.getLocalKeys freed copied
    | free =>
        obtain ⟨w', released, separate, -⟩ := now.free
        obtain ⟨⟨w₁, outList⟩, ran', rfl⟩ := of_map ran
        cases ran'.symm.trans released
        exact separate

/-- What the manager does, however often it is called, does not show in the copy. -/
theorem Separate.kept (now : s.Separate)
    (later : ((readers env).restrict leavesCopy).Steps s s')
    : s'.Separate ∧ s'.outList = s.outList
      ∧ ∀ keys, s.outList.Represents s.manager.world.memory keys →
          s.outList.Represents s'.manager.world.memory keys := by
  induction later with
  | refl => exact ⟨now, rfl, fun _ copy => copy⟩
  | tail _ step ih =>
      obtain ⟨call, only, ran⟩ := step
      obtain ⟨separate, same, kept⟩ := ih
      cases call with
      | manager call =>
          obtain ⟨after, called, rfl⟩ := of_map ran
          obtain ⟨separate', kept'⟩ := separate.manager called
          rw [same] at kept'
          exact ⟨separate', same, fun keys copy => kept' keys (kept keys copy)⟩
      | getLocalKeys => cases only
      | free => cases only

/-- The keys that find room in a new list, started in `w`. -/
def copyOf (env : Env) (w : World) (keys : List KeyInfo) : List KeyInfo :=
  (Room.empty w.reallocs).accepted env keys

/-- A copy of an intact list holds its keys, as far as memory for them is granted. -/
theorem getLocalKeys_spec (env : Env) (s : Reader) (inited : s.manager.isInited = true)
    (now : s.manager.localKeys.Represents s.manager.world.memory keys)
    : ∃ s', s.call env .getLocalKeys = .ok s'
        ∧ s'.manager.localKeys = s.manager.localKeys
        ∧ s'.manager.localKeys.Represents s'.manager.world.memory keys
        ∧ s'.outList.Represents s'.manager.world.memory (copyOf env s.manager.world keys) := by
  obtain ⟨w', outList, copied, -, copy, represents, -⟩ :=
    KeyManager.addAll_spec env (KeyInfoList.init_represents s.manager.world.memory) now
      (by simp [KeyInfoList.init])
  refine ⟨⟨{ s.manager with world := w' }, outList⟩, ?_, rfl, represents, copy⟩
  simp only [call, KeyManager.getLocalKeys]
  rw [if_neg (by simp [inited]), copied]
  rfl

/-- While no check deletes all keys, the manager's list stays intact beside a reader. -/
theorem separate_intact (env : Env)
    : ((readers env).restrict (freesFirstKeepsOne env)).Invariant
        (fun s => s.Separate ∧ s.manager.Intact) where
  init s start := by
    obtain rfl := start
    exact ⟨(separate env).init _ rfl, [], KeyInfoList.init_represents _⟩
  step s call s' now step := by
    obtain ⟨allowed, ran⟩ := step
    have freed : s.freesFirst call := by
      cases call with
      | manager call => trivial
      | getLocalKeys => exact allowed
      | free => trivial
    refine ⟨(separate env).step s call s' now.1 ⟨freed, ran⟩, ?_⟩
    cases call with
    | manager call =>
        obtain ⟨after, called, rfl⟩ := of_map ran
        rcases intact_call now.2 call allowed with ⟨after', called', intact⟩ | failed
        · cases called.symm.trans called'
          exact intact
        · cases called.symm.trans failed
    | getLocalKeys =>
        cases inited : s.manager.isInited with
        | false =>
            have skipped : (!s.manager.isInited) = true := by simp [inited]
            obtain ⟨made, copied, rfl⟩ := of_map ran
            cases (if_pos skipped).symm.trans copied
            exact now.2
        | true =>
            obtain ⟨keys, represents⟩ := now.2
            obtain ⟨s'', ran', -, represents', -⟩ := getLocalKeys_spec env s inited represents
            cases ran.symm.trans ran'
            exact ⟨keys, represents'⟩
    | free =>
        obtain ⟨keys, represents⟩ := now.2
        obtain ⟨w', released, -, kept⟩ := now.1.free
        obtain ⟨⟨w₁, outList⟩, ran', rfl⟩ := of_map ran
        cases ran'.symm.trans released
        exact ⟨keys, kept keys represents⟩

end Reader

/-- In every sequence of calls of the manager and of a reader that frees its list before it asks
again, every live block belongs to one of the two lists. None is left when the manager is not
initialised and the reader has freed its list.
-/
theorem readers_leakNothing (env : Env) (s : Reader)
    (reached : ((readers env).restrict Reader.freesFirst).Reachable s)
    : s.manager.world.memory.Owned [s.manager.localKeys.data, s.outList.data]
      ∧ (s.manager.isInited = false → s.outList.data = none →
          ∀ a, s.manager.world.memory.block a = none) := by
  have now := (Reader.separate env).reachable reached
  refine ⟨now.owned, fun out freed => ?_⟩
  have owned := now.owned
  rw [now.empty out, freed] at owned
  exact (owned_none_cons.mp owned).noneLive

namespace Reader

instance (s : Reader) : (call : ReaderCall) → Decidable (s.freesFirst call)
  | .manager _ => .isTrue trivial
  | .getLocalKeys => inferInstanceAs (Decidable (s.outList.data = none))
  | .free => .isTrue trivial

/-- A call that runs into no fault, to execute sequences of calls. -/
def step (env : Env) (s : Reader) (call : ReaderCall) : Option Reader :=
  (s.call env call).toOption

theorem guardedStep_sound {env : Env} (s : Reader) (call : ReaderCall) (s' : Reader)
    (taken : Lts.guardedStep (step env) freesFirst s call = some s')
    : ((readers env).restrict freesFirst).next s call s' := by
  unfold Lts.guardedStep at taken
  split at taken
  case isTrue met => exact ⟨met, ok_of_toOption taken⟩
  case isFalse => cases taken

/-- A reader that frees its copy after the manager was stopped. -/
def outlasting : Reader :=
  Option.get (Lts.execute (Lts.guardedStep (step standstill) freesFirst) init
    [.manager .init, .getLocalKeys, .manager .stop, .free]) (by decide +kernel)

end Reader

/-- No block is left, of the three that were made. -/
theorem outlasting_leakNothing
    : Reader.outlasting.manager.world.memory.next = 3
      ∧ ∀ a, Reader.outlasting.manager.world.memory.block a = none :=
  ⟨by decide +kernel, (readers_leakNothing standstill Reader.outlasting
    ⟨.init, rfl, Lts.execute_steps Reader.guardedStep_sound (Option.some_get _).symm⟩).2
    (by decide +kernel) (by decide +kernel)⟩

/-- In every such run in which no check deletes all keys, a reader gets a copy of the keys, as
far as memory is granted, that no later call of the manager changes and that can be freed
without a fault and without a change of the manager's keys.
-/
theorem readers_isolated (env : Env) (s : Reader)
    (reached : ((readers env).restrict (Reader.freesFirstKeepsOne env)).Reachable s)
    (inited : s.manager.isInited = true) (freed : s.outList.data = none)
    : ∃ keys s₁, s.manager.localKeys.Represents s.manager.world.memory keys
        ∧ s.call env .getLocalKeys = .ok s₁
        ∧ s₁.manager.localKeys.Represents s₁.manager.world.memory keys
        ∧ ∀ s₂, ((readers env).restrict Reader.leavesCopy).Steps s₁ s₂ →
            s₂.outList.Represents s₂.manager.world.memory
              (Reader.copyOf env s.manager.world keys)
            ∧ ∃ s₃, s₂.call env .free = .ok s₃ ∧ s₃.outList = .init
              ∧ ∀ keys', s₂.manager.localKeys.Represents s₂.manager.world.memory keys' →
                  s₃.manager.localKeys.Represents s₃.manager.world.memory keys' := by
  obtain ⟨separate, keys, now⟩ := (Reader.separate_intact env).reachable reached
  obtain ⟨s₁, copied, -, represents, copy⟩ := Reader.getLocalKeys_spec env s inited now
  refine ⟨keys, s₁, now, copied, represents, fun s₂ later => ?_⟩
  have separate₁ : s₁.Separate := by
    obtain ⟨⟨after, outList⟩, made, rfl⟩ := of_map copied
    exact separate.getLocalKeys freed made
  obtain ⟨separate₂, same, kept⟩ := separate₁.kept later
  refine ⟨same ▸ kept _ copy, ?_⟩
  obtain ⟨w', released, -, left⟩ := separate₂.free
  exact ⟨_, congrArg (Except.map _) released, rfl, left⟩

/-- The reader beside a manager that was just initialised. -/
def Reader.beginning : Reader :=
  Option.get (Reader.init.call standstill (.manager .init)).toOption (by decide +kernel)

theorem beginning_isolated
    : ∃ keys s₁,
        Reader.beginning.manager.localKeys.Represents Reader.beginning.manager.world.memory keys
        ∧ Reader.beginning.call standstill .getLocalKeys = .ok s₁
        ∧ s₁.manager.localKeys.Represents s₁.manager.world.memory keys
        ∧ ∀ s₂, ((readers standstill).restrict Reader.leavesCopy).Steps s₁ s₂ →
            s₂.outList.Represents s₂.manager.world.memory
              (Reader.copyOf standstill Reader.beginning.manager.world keys)
            ∧ ∃ s₃, s₂.call standstill .free = .ok s₃ ∧ s₃.outList = .init
              ∧ ∀ keys', s₂.manager.localKeys.Represents s₂.manager.world.memory keys' →
                  s₃.manager.localKeys.Represents s₃.manager.world.memory keys' :=
  have started : Reader.init.call standstill (.manager .init) = .ok Reader.beginning :=
    ok_of_toOption (Option.some_get _).symm
  readers_isolated standstill Reader.beginning
    (.next (.start rfl) (show Reader.freesFirstKeepsOne _ _ (.manager .init) ∧ _ from
      ⟨trivial, started⟩))
    (by decide +kernel) (by decide +kernel)

end QKeySys.KeyPool
