import QKeySys.KeyPool.Lifecycle
import QKeySys.Library.Ownership

/-! The memory of the key pool: what each function does to the blocks, whether or not requests
for memory are granted.
-/

namespace QKeySys.KeyPool

open QKeySys.Library BlockMemory

variable {env : Env} {w w' : World} {list list' : KeyInfoList} {self after : KeyManager}

-----------------------------------------------------------------------------------------
-- The dynamic array
-----------------------------------------------------------------------------------------

namespace KeyInfoList

theorem append_handed {key : KeyInfo} {result : Int}
    (ran : append w list key = .ok (w', list', result))
    : Handed w.memory w'.memory list.data list'.data := by
  obtain ⟨memory, stored, same⟩ := of_map ran
  cases same
  exact handed_store stored

/-- `realloc` hands the block to the pointer that it returns, if it is not `NULL`. -/
theorem realloc_handed {p q : Pointer} {count : Int}
    (ran : w.realloc env p count = .ok (w', q))
    : Handed w.memory w'.memory p (if q = none then p else q) := by
  obtain ⟨result, moved, same⟩ := of_map ran
  cases same
  exact handed_realloc moved

theorem add_handed {key : KeyInfo} {result : Int}
    (ran : add env w list key = .ok (w', list', result))
    : Handed w.memory w'.memory list.data list'.data := by
  unfold add at ran
  split at ran
  case isFalse => exact append_handed ran
  case isTrue =>
    obtain ⟨⟨w₁, newData⟩, moved, rest⟩ := of_bind ran
    have handed := realloc_handed moved
    cases newData with
    | none =>
        cases rest
        exact handed
    | some a => exact handed.trans (append_handed rest)

theorem free_handed (ran : free w list = .ok (w', list'))
    : Handed w.memory w'.memory list.data none ∧ list' = .init := by
  obtain ⟨memory, freed, same⟩ := of_map ran
  cases same
  exact ⟨handed_free freed, rfl⟩

end KeyInfoList

-----------------------------------------------------------------------------------------
-- The gateway
-----------------------------------------------------------------------------------------

/-- A turn of the gateway works on its own list, which it releases when it fails. -/
theorem requestTurn_handed {i : Nat} {state state' : World × KeyInfoList × Int}
    (ran : requestTurn env i state = .ok state')
    : Handed state.1.memory state'.1.memory state.2.1.data state'.2.1.data := by
  obtain ⟨w, outKeys, result⟩ := state
  by_cases stopped : result ≠ 0
  · obtain rfl := Except.ok.inj ((if_pos stopped).symm.trans ran)
    exact .refl w.memory _
  · obtain ⟨⟨w₁, list₁, added⟩, stored, rest⟩ := of_bind ((if_neg stopped).symm.trans ran)
    have handed := KeyInfoList.add_handed stored
    by_cases failed : added ≠ 0
    · obtain ⟨⟨w₂, list₂⟩, freed, same⟩ := of_bind ((if_pos failed).symm.trans rest)
      obtain rfl := Except.ok.inj same
      obtain ⟨released, rfl⟩ := KeyInfoList.free_handed freed
      exact handed.trans released
    · obtain rfl := Except.ok.inj ((if_neg failed).symm.trans rest)
      exact handed

theorem requestNewKeys_handed {needCount result : Int}
    (ran : requestNewKeys env w needCount list = .ok (w', list', result))
    : Handed w.memory w'.memory list.data list'.data := by
  unfold requestNewKeys at ran
  split at ran
  case isTrue =>
    cases ran
    exact .refl _ _
  case isFalse =>
    exact forLoop_inv
      (fun _ state => Handed w.memory state.1.memory list.data state.2.1.data) (.refl _ _)
      (fun _ _ _ _ earlier step => earlier.trans (requestTurn_handed step)) ran

-----------------------------------------------------------------------------------------
-- The manager
-----------------------------------------------------------------------------------------

namespace KeyManager

theorem addAll_handed {newKeys : KeyInfoList}
    (ran : addAll env w list newKeys = .ok (w', list'))
    : Handed w.memory w'.memory list.data list'.data := by
  refine forLoop_inv (fun _ state => Handed w.memory state.1.memory list.data state.2.data)
    (.refl _ _) (fun _ _ state state' earlier step => ?_) ran
  obtain ⟨key, -, rest⟩ := of_bind step
  obtain ⟨⟨w₁, list₁, added⟩, stored, same⟩ := of_bind rest
  obtain rfl := Except.ok.inj same
  exact earlier.trans (KeyInfoList.add_handed stored)

/-- A request hands on the block of the local list; the list of new keys is gone after it. -/
theorem checkAndRequestKeys_handed (ran : checkAndRequestKeys env self = .ok after)
    : Handed self.world.memory after.world.memory self.localKeys.data after.localKeys.data := by
  obtain ⟨validCount, -, rest⟩ := of_bind ran
  by_cases few : validCount < self.config.validThreshold
  · obtain ⟨⟨w₁, newKeys, result⟩, asked, rest⟩ := of_bind ((if_pos few).symm.trans rest)
    have made := requestNewKeys_handed asked
    obtain ⟨w₂, list, used, rest⟩ : ∃ w₂ list,
        Handed w₁.memory w₂.memory self.localKeys.data list.data
        ∧ (newKeys.free w₂).map
          (fun freed => { self with world := freed.1, localKeys := list }) = .ok after := by
      by_cases succeeded : result = 0
      · obtain ⟨⟨w₂, list⟩, copied, rest⟩ := of_bind ((if_pos succeeded).symm.trans rest)
        exact ⟨w₂, list, addAll_handed copied, rest⟩
      · exact ⟨w₁, self.localKeys, .refl _ _, (if_neg succeeded).symm.trans rest⟩
    obtain ⟨⟨w₃, none_left⟩, freed, rfl⟩ := of_map rest
    exact made.around used (KeyInfoList.free_handed freed).1
  · obtain rfl := Except.ok.inj ((if_neg few).symm.trans rest)
    exact .refl _ _

theorem updateAll_handed {config : KeyConfig} (ran : updateAll env config w list = .ok w')
    : Handed w.memory w'.memory list.data list.data := by
  refine forLoop_inv (fun _ state => Handed w.memory state.memory list.data list.data)
    (.refl _ _) (fun _ _ state state' earlier step => ?_) ran
  obtain ⟨key, -, rest⟩ := of_bind step
  obtain ⟨memory, stored, rfl⟩ := of_map rest
  exact earlier.trans (handed_store stored)

theorem compact_handed {n : Nat} (ran : compact w list = .ok (w', n))
    : Handed w.memory w'.memory list.data list.data := by
  refine forLoop_inv (fun _ state => Handed w.memory state.1.memory list.data list.data)
    (.refl _ _) (fun _ _ state state' earlier step => ?_) ran
  obtain ⟨key, -, rest⟩ := of_bind step
  by_cases stays : key.status ≠ .deleted
  · obtain ⟨memory, stored, rfl⟩ := of_map ((if_pos stays).symm.trans rest)
    exact earlier.trans (handed_store stored)
  · obtain rfl := Except.ok.inj ((if_neg stays).symm.trans rest)
    exact earlier

theorem deleteExpiredKeys_handed (ran : deleteExpiredKeys env w list = .ok (w', list'))
    : Handed w.memory w'.memory list.data list'.data := by
  by_cases empty : list.size = 0
  · obtain ⟨rfl, rfl⟩ := Prod.mk.inj (Except.ok.inj ((if_pos empty).symm.trans ran))
    exact .refl _ _
  · obtain ⟨⟨w₁, n⟩, compacted, -⟩ := of_bind ((if_neg empty).symm.trans ran)
    rw [deleteExpiredKeys_eq empty compacted] at ran
    have handed := compact_handed compacted
    split at ran
    case isTrue =>
      obtain ⟨⟨w₂, block⟩, moved, same⟩ := of_map ran
      have handed' := KeyInfoList.realloc_handed moved
      obtain ⟨rfl, rfl⟩ := Prod.mk.inj same
      cases block with
      | none => exact handed.trans handed'
      | some a => exact handed.trans handed'
    case isFalse =>
      obtain ⟨rfl, rfl⟩ := Prod.mk.inj (Except.ok.inj ran)
      exact handed

theorem checkAllKeys_handed (ran : self.checkAllKeys env = .ok after)
    : Handed self.world.memory after.world.memory self.localKeys.data after.localKeys.data := by
  by_cases out : (!self.isInited) = true
  · obtain rfl := Except.ok.inj ((if_pos out).symm.trans ran)
    exact .refl _ _
  · obtain ⟨w₁, updated, rest⟩ := of_bind ((if_neg out).symm.trans ran)
    obtain ⟨⟨w₂, list⟩, deleted, asked⟩ := of_bind rest
    exact (updateAll_handed updated).trans
      ((deleteExpiredKeys_handed deleted).trans (checkAndRequestKeys_handed asked))

theorem addLocked_handed {keyValue : CString} (ran : self.addLocked env keyValue = .ok after)
    : Handed self.world.memory after.world.memory self.localKeys.data after.localKeys.data := by
  obtain ⟨⟨w₁, list, result⟩, stored, rest⟩ := of_bind ran
  obtain ⟨key, -, rest⟩ := of_bind rest
  obtain ⟨memory, kept, rfl⟩ := of_map rest
  exact (KeyInfoList.add_handed stored).trans (handed_store kept)

theorem addExternalKey_handed {keyValue : CString} {added : Bool}
    (ran : self.addExternalKey env keyValue = .ok (added, after))
    : Handed self.world.memory after.world.memory self.localKeys.data after.localKeys.data := by
  by_cases out : (!self.isInited) = true
  · obtain ⟨-, rfl⟩ := Prod.mk.inj (Except.ok.inj ((if_pos out).symm.trans ran))
    exact .refl _ _
  · obtain ⟨after', locked, same⟩ := of_map ((if_neg out).symm.trans ran)
    obtain ⟨-, rfl⟩ := Prod.mk.inj same
    exact addLocked_handed locked

theorem simulateKeyExpiry_handed {number : Int}
    (ran : self.simulateKeyExpiry number = .ok after)
    : Handed self.world.memory after.world.memory self.localKeys.data after.localKeys.data := by
  by_cases out : number ≤ 0 ∨ self.isInited = false
  · obtain rfl := Except.ok.inj ((if_pos out).symm.trans ran)
    exact .refl _ _
  · obtain ⟨⟨w', count⟩, marked, rfl⟩ := of_map ((if_neg out).symm.trans ran)
    refine forLoop_inv (fun _ state => Handed self.world.memory state.1.memory
      self.localKeys.data self.localKeys.data) (.refl _ _)
      (fun _ _ state state' earlier step => ?_) marked
    by_cases more : state.2 < number
    · obtain ⟨key, -, rest⟩ := of_bind ((if_pos more).symm.trans step)
      by_cases valid : key.status = .valid
      · obtain ⟨memory, stored, rfl⟩ := of_map ((if_pos valid).symm.trans rest)
        exact earlier.trans (handed_store stored)
      · obtain rfl := Except.ok.inj ((if_neg valid).symm.trans rest)
        exact earlier
    · obtain rfl := Except.ok.inj ((if_neg more).symm.trans step)
      exact earlier

theorem reset_handed (ran : self.reset env = .ok after)
    : Handed self.world.memory after.world.memory self.localKeys.data after.localKeys.data := by
  obtain ⟨⟨w', list⟩, freed, rfl⟩ := of_map ran
  exact (KeyInfoList.free_handed freed).1

theorem stop_handed (ran : self.stop = .ok after)
    : Handed self.world.memory after.world.memory self.localKeys.data after.localKeys.data := by
  by_cases out : (!self.isInited) = true
  · obtain rfl := Except.ok.inj ((if_pos out).symm.trans ran)
    exact .refl _ _
  · obtain ⟨⟨w', list⟩, freed, rfl⟩ := of_map ((if_neg out).symm.trans ran)
    obtain ⟨handed, rfl⟩ := KeyInfoList.free_handed freed
    exact handed

/-- `KeyManager_Init` begins with a new list: it would leak a block that the old one has. -/
theorem init_handed {created : Bool}
    (idle : self.isInited = false → self.localKeys.data = none)
    (ran : self.init env = .ok (created, after))
    : Handed self.world.memory after.world.memory self.localKeys.data after.localKeys.data := by
  by_cases again : self.isInited = true
  · obtain ⟨-, rfl⟩ := Prod.mk.inj (Except.ok.inj ((if_pos again).symm.trans ran))
    exact .refl _ _
  · obtain ⟨asked, requested, rest⟩ := of_bind ((if_neg again).symm.trans ran)
    have handed := checkAndRequestKeys_handed requested
    rw [idle (eq_false_of_ne_true again)]
    by_cases succeeded : env.creates asked.world.creations = true
    · obtain ⟨-, rfl⟩ := Prod.mk.inj (Except.ok.inj ((if_pos succeeded).symm.trans rest))
      exact handed
    · obtain ⟨⟨w₂, list'⟩, freed, made⟩ := of_map ((if_neg succeeded).symm.trans rest)
      obtain ⟨-, rfl⟩ := Prod.mk.inj made
      obtain ⟨released, rfl⟩ := KeyInfoList.free_handed freed
      exact handed.trans released

/-- A call that runs into no fault hands on the block of the list, or has no list to begin
with.
-/
theorem call_handed {call : Call} (idle : self.isInited = false → self.localKeys.data = none)
    (ran : self.call env call = .ok after)
    : Handed self.world.memory after.world.memory self.localKeys.data after.localKeys.data := by
  cases call with
  | init =>
      obtain ⟨⟨created, made⟩, begun, rfl⟩ := of_map ran
      exact init_handed idle begun
  | checkAllKeys => exact checkAllKeys_handed ran
  | addExternalKey keyValue =>
      obtain ⟨⟨added, made⟩, stored, rfl⟩ := of_map ran
      exact addExternalKey_handed stored
  | simulateKeyExpiry number => exact simulateKeyExpiry_handed ran
  | getValidKey =>
      obtain ⟨found, -, rfl⟩ := of_map ran
      exact .refl _ _
  | reset => exact reset_handed ran
  | stop => exact stop_handed ran

/-- A manager that a call leaves uninitialised has an empty list. -/
theorem call_empty {call : Call} (now : self.isInited = false → self.localKeys = .init)
    (ran : self.call env call = .ok after)
    : after.isInited = false → after.localKeys = .init := by
  have stays (same : SameLife self after) (inited : self.isInited = true)
      : after.isInited = false → after.localKeys = .init := by
    intro out
    cases inited.symm.trans (same.isInited.symm.trans out)
  by_cases skipped : call.skipped self = true
  · obtain rfl := Except.ok.inj (ran.symm.trans (call_skipped skipped))
    exact now
  cases call with
  | init =>
      have fresh : self.isInited = false := by simpa [Call.skipped] using skipped
      obtain ⟨⟨created, made⟩, begun, rfl⟩ := of_map ran
      obtain ⟨-, inited, -, empty, -⟩ := init_begins fresh begun
      exact fun out => empty (inited.symm.trans out)
  | checkAllKeys =>
      exact stays (checkAllKeys_sameLife ran) (by simpa [Call.skipped] using skipped)
  | addExternalKey keyValue =>
      obtain ⟨⟨added, made⟩, stored, rfl⟩ := of_map ran
      exact stays (addExternalKey_sameLife stored) (by simpa [Call.skipped] using skipped)
  | simulateKeyExpiry number =>
      exact stays (simulateKeyExpiry_sameLife ran) (by simpa [Call.skipped] using skipped)
  | getValidKey =>
      obtain ⟨found, -, rfl⟩ := of_map ran
      exact now
  | reset => exact fun _ => (reset_sameLife ran).2
  | stop =>
      have inited : self.isInited = true := by simpa [Call.skipped] using skipped
      exact fun _ => (stop_ends inited ran).2.2.1

/-- The only list is the local one: every live block belongs to it, and it is empty when the
manager is not initialised.
-/
structure Sole (manager : KeyManager) : Prop where
  empty : manager.isInited = false → manager.localKeys = .init
  owned : manager.world.memory.Owned [manager.localKeys.data]

/-- Without its list the manager has no block. -/
theorem Sole.noneLive (now : self.Sole) (out : self.isInited = false)
    : ∀ a, self.world.memory.block a = none := by
  have owned := now.owned
  rw [now.empty out] at owned
  exact owned.noneLive

end KeyManager

/-- In every sequence of calls the local list is the only one. -/
theorem calls_sole (env : Env) : (calls env).Invariant KeyManager.Sole where
  init self start := by
    obtain rfl := start
    exact ⟨fun _ => rfl, empty_owned _⟩
  step self call after now ran := by
    have handed := KeyManager.call_handed (fun out => by rw [now.empty out]; rfl) ran
    exact ⟨KeyManager.call_empty now.empty ran, handed.owned _ now.owned⟩

end QKeySys.KeyPool
