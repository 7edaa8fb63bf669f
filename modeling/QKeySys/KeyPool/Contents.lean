import Mathlib.Data.List.Basic
import QKeySys.KeyPool.KeyManager

/-! What the loops and functions of the key manager do to an array that stands for a list of
keys, stated on that list.
-/

namespace QKeySys.KeyPool

open QKeySys.Library

variable {env : Env} {w : World} {list : KeyInfoList} {keys : List KeyInfo}

/-- The keys after the status update, where the clock is read once for each key. -/
def refreshed (env : Env) (config : KeyConfig) (start : Nat) (keys : List KeyInfo)
    : List KeyInfo :=
  keys.mapIdx (fun i key => updateKeyStatus key config (env.clock (start + i)))

/-- The keys that `KeyManager_DeleteExpiredKeys` keeps. -/
def kept (keys : List KeyInfo) : List KeyInfo :=
  keys.filter (fun key => key.status ≠ .deleted)

theorem kept_sublist (keys : List KeyInfo) : (kept keys).Sublist keys := List.filter_sublist

theorem mem_kept {key : KeyInfo} : key ∈ kept keys ↔ key ∈ keys ∧ key.status ≠ .deleted := by
  simp [kept]

theorem mem_refreshed {config : KeyConfig} {start : Nat} {key' : KeyInfo}
    : key' ∈ refreshed env config start keys
      ↔ ∃ i key, keys[i]? = some key
          ∧ updateKeyStatus key config (env.clock (start + i)) = key' := by
  simp only [refreshed, List.mem_iff_getElem?, List.getElem?_mapIdx, Option.map_eq_some_iff]

@[simp]
theorem refreshed_length (config : KeyConfig) (start : Nat)
    : (refreshed env config start keys).length = keys.length := by
  simp [refreshed]

/-- While the clock stands still the keys are updated alike. -/
theorem refreshed_standing {config : KeyConfig} {start : Nat} {t : Int}
    (standing : ∀ i, i < keys.length → env.clock (start + i) = t)
    : refreshed env config start keys = keys.map (fun key => updateKeyStatus key config t) := by
  refine List.ext_getElem? (fun i => ?_)
  rw [refreshed, List.getElem?_mapIdx, List.getElem?_map]
  cases found : keys[i]? with
  | none => rfl
  | some key =>
      have less := (List.getElem?_eq_some_iff.mp found).1
      rw [Option.map_some, Option.map_some, standing i less]

/-- The keys after one more turn of the status update. -/
theorem refreshed_turn (config : KeyConfig) (start : Nat) {i : Nat} (less : i < keys.length)
    : ((refreshed env config start keys).take i ++ keys.drop i).set i
        (updateKeyStatus keys[i] config (env.clock (start + i)))
      = (refreshed env config start keys).take (i + 1) ++ keys.drop (i + 1) := by
  have length : ((refreshed env config start keys).take i).length = i := by
    simp
    omega
  rw [List.set_append_right _ _ (by omega), length, Nat.sub_self,
    List.drop_eq_getElem_cons less, List.set_cons_zero, List.take_add_one]
  simp [refreshed, less]

/-- From `w` to `w'` clock readings and initialised keys were only added. -/
structure Later (w w' : World) : Prop where
  readings : w.readings ≤ w'.readings
  serials : w.serials ≤ w'.serials

theorem Later.refl (w : World) : Later w w := ⟨Nat.le_refl _, Nat.le_refl _⟩

theorem Later.trans {w w' w'' : World} (first : Later w w') (second : Later w' w'')
    : Later w w'' :=
  ⟨Nat.le_trans first.readings second.readings, Nat.le_trans first.serials second.serials⟩

theorem KeyInfoList.SameCalls.later {w w' : World} (calls : KeyInfoList.SameCalls w w')
    : Later w w' :=
  ⟨Nat.le_of_eq calls.readings.symm, Nat.le_of_eq calls.serials.symm⟩

/-- The keys were initialised from `w` to `w'`, in their order. -/
structure Fresh (w w' : World) (keys : List KeyInfo) : Prop where
  valid : ∀ key ∈ keys, key.status = .valid
  since : ∀ key ∈ keys, w.serials ≤ key.serial ∧ key.serial < w'.serials
  ordered : keys.Pairwise (fun key key' => key.serial < key'.serial)

theorem Fresh.nil (w w' : World) : Fresh w w' [] := by constructor <;> simp

/-- Some of the new keys are new, and they stay so. -/
theorem Fresh.sublist {w w' w'' : World} {fresh some' : List KeyInfo} (now : Fresh w w' fresh)
    (some_of : some'.Sublist fresh) (later : Later w' w'')
    : Fresh w w'' some' where
  valid key inside := now.valid key (some_of.subset inside)
  since key inside := by
    obtain ⟨after, before⟩ := now.since key (some_of.subset inside)
    exact ⟨after, Nat.lt_of_lt_of_le before later.serials⟩
  ordered := now.ordered.sublist some_of

/-- New keys are new from every earlier point on. -/
theorem Fresh.earlier {w w' w'' : World} (now : Fresh w' w'' keys) (later : Later w w')
    : Fresh w w'' keys where
  valid := now.valid
  since key inside :=
    ⟨Nat.le_trans later.serials (now.since key inside).1, (now.since key inside).2⟩
  ordered := now.ordered

/-- The next new key comes after the earlier ones. -/
theorem Fresh.concat {w w' w'' : World} (now : Fresh w w' keys) {key : KeyInfo}
    (valid : key.status = .valid) (serial : key.serial = w'.serials) (later : Later w w')
    (next : w'.serials < w''.serials)
    : Fresh w w'' (keys ++ [key]) where
  valid other inside := by
    rcases List.mem_append.mp inside with earlier | last
    · exact now.valid other earlier
    · rw [List.mem_singleton.mp last, valid]
  since other inside := by
    rcases List.mem_append.mp inside with earlier | last
    · exact ⟨(now.since other earlier).1, Nat.lt_trans (now.since other earlier).2 next⟩
    · rw [List.mem_singleton.mp last, serial]
      exact ⟨later.serials, next⟩
  ordered := by
    refine List.pairwise_append.mpr ⟨now.ordered, by simp, ?_⟩
    intro earlier inside last same
    rw [List.mem_singleton.mp same, serial]
    exact (now.since earlier inside).2

namespace KeyManager

/-- The counting loop counts. -/
theorem countValid_spec (now : list.Represents w.memory keys)
    : countValid w list = .ok (keys.countP (fun key => key.status = .valid) : Nat) := by
  have size : list.size.toNat = keys.length := by simp [now.size]
  have ran : ∃ count, countValid w list = .ok count
      ∧ count = ((keys.take list.size.toNat).countP (·.status = .valid) : Nat) := by
    refine forLoop_ok _ _ _
      (fun i (count : Int) => count = ((keys.take i).countP (·.status = .valid) : Nat))
      rfl (fun i less count counted => ?_)
    have found : keys[i]? = some keys[i] := List.getElem?_eq_getElem (size ▸ less)
    refine ⟨_, by rw [countTurn, now.load found]; rfl, ?_⟩
    rw [List.take_add_one, found, counted, List.countP_append]
    by_cases valid : keys[i].status = .valid <;> simp [valid]
  obtain ⟨count, ran, counted⟩ := ran
  rw [ran, counted, size, List.take_length]

/-- After `i` turns of the status update, started in `w`, the first `i` keys are refreshed. -/
structure Updating (env : Env) (config : KeyConfig) (w : World) (list : KeyInfoList)
    (keys : List KeyInfo) (i : Nat) (w' : World) : Prop where
  readings : w'.readings = w.readings + i
  serials : w'.serials = w.serials
  reallocs : w'.reallocs = w.reallocs
  represents
    : list.Represents w'.memory
        ((refreshed env config w.readings keys).take i ++ keys.drop i)

/-- One more key is refreshed, at the next reading of the clock. -/
theorem Updating.turn {config : KeyConfig} {i : Nat} {w' : World}
    (now : Updating env config w list keys i w') (less : i < keys.length)
    : ∃ w'', updateTurn env config list i w' = .ok w''
        ∧ Updating env config w list keys (i + 1) w'' := by
  obtain ⟨readings, serials, reallocs, represents⟩ := now
  have length : ((refreshed env config w.readings keys).take i).length = i := by
    rw [List.length_take, refreshed_length]
    omega
  have found : ((refreshed env config w.readings keys).take i ++ keys.drop i)[i]?
      = some keys[i] := by
    rw [List.getElem?_append_right (Nat.le_of_eq length), length, Nat.sub_self,
      List.drop_eq_getElem_cons less]
    rfl
  obtain ⟨memory, stored, -, represents'⟩ :=
    represents.store (List.getElem?_eq_some_iff.mp found).1
      (updateKeyStatus keys[i] config (env.clock (w.readings + i)))
  rw [refreshed_turn config w.readings less] at represents'
  refine ⟨{ w' with readings := w'.readings + 1, memory := memory }, ?_, ?_, serials,
    reallocs, represents'⟩
  · rw [updateTurn, represents.load found]
    rw [← readings] at stored
    exact congrArg (Except.map _) stored
  · rw [readings, Nat.add_assoc]

/-- The update loop reads the clock once for each key. -/
theorem updateAll_spec (env : Env) (config : KeyConfig) (now : list.Represents w.memory keys)
    : ∃ w', updateAll env config w list = .ok w'
        ∧ w'.readings = w.readings + keys.length ∧ w'.serials = w.serials
        ∧ w'.reallocs = w.reallocs
        ∧ list.Represents w'.memory (refreshed env config w.readings keys) := by
  have size : list.size.toNat = keys.length := by simp [now.size]
  have start : Updating env config w list keys 0 w := ⟨rfl, rfl, rfl, now⟩
  obtain ⟨w', ran, updated⟩ := forLoop_ok list.size.toNat (updateTurn env config list) w
    (Updating env config w list keys) start (fun i less w' inv => inv.turn (size ▸ less))
  have all : (refreshed env config w.readings keys).length = list.size.toNat := by simp [size]
  refine ⟨w', ran, size ▸ updated.readings, updated.serials, updated.reallocs, ?_⟩
  have represents := updated.represents
  rwa [List.take_of_length_le (Nat.le_of_eq all),
    List.drop_of_length_le (Nat.le_of_eq size.symm), List.append_nil] at represents

/-- The keys that stay, one more key looked at. -/
theorem kept_turn {i : Nat} (less : i < keys.length)
    : kept (keys.take (i + 1))
      = kept (keys.take i) ++ (if keys[i].status ≠ .deleted then [keys[i]] else []) := by
  rw [List.take_add_one, List.getElem?_eq_getElem less, kept, List.filter_append]
  by_cases gone : keys[i].status = .deleted <;> simp [kept, gone]

/-- After `i` turns of the compaction, started in `w`, the keys that stay of the first `i` are
in front and counted, and the keys not looked at yet are still in their places.
-/
structure Compacting (w : World) (list : KeyInfoList) (keys : List KeyInfo) (i : Nat)
    (state : World × Nat) (current : List KeyInfo) : Prop where
  calls : KeyInfoList.SameCalls w state.1
  reallocs : state.1.reallocs = w.reallocs
  represents : list.Represents state.1.memory current
  counted : state.2 = (kept (keys.take i)).length
  front : current.take state.2 = kept (keys.take i)
  back : current.drop i = keys.drop i
  length : current.length = keys.length

/-- One more key is moved to the front or passed over. -/
theorem Compacting.turn {i : Nat} {state : World × Nat} {current : List KeyInfo}
    (now : Compacting w list keys i state current) (less : i < keys.length)
    : ∃ state' current', compactTurn list i state = .ok state'
        ∧ Compacting w list keys (i + 1) state' current' := by
  obtain ⟨w', newSize⟩ := state
  obtain ⟨calls, reallocs, represents, counted, front, back, length⟩ := now
  simp only at calls reallocs represents counted front
  have behind : newSize ≤ i := by
    rw [counted]
    exact Nat.le_trans (kept_sublist _).length_le (List.length_take_le i keys)
  have found : current[i]? = some keys[i] := by
    have first := congrArg (fun rest => rest[0]?) back
    simpa [less] using first
  have onward : current.drop (i + 1) = keys.drop (i + 1) := by
    rw [← List.drop_drop, back, List.drop_drop]
  by_cases stays : keys[i].status ≠ .deleted
  · obtain ⟨memory, stored, -, represents'⟩ :=
      represents.store (i := newSize) (by omega) keys[i]
    refine ⟨({ w' with memory := memory }, newSize + 1), current.set newSize keys[i], ?_,
      ⟨calls.readings, calls.creations, calls.serials⟩, reallocs, represents', ?_, ?_, ?_,
      by simpa using length⟩
    · rw [compactTurn, represents.load found]
      exact (if_pos stays).trans (congrArg (Except.map _) stored)
    · rw [kept_turn less, if_pos stays]
      simp [counted]
    · rw [kept_turn less, if_pos stays, ← front, List.take_add_one,
        List.take_set_of_le (Nat.le_refl _), List.getElem?_set_self (by omega)]
      rfl
    · rw [List.drop_set, if_pos (by omega), onward]
  · refine ⟨(w', newSize), current, ?_, calls, reallocs, represents, ?_, ?_, onward, length⟩
    · rw [compactTurn, represents.load found]
      exact if_neg stays
    · rw [kept_turn less, if_neg stays, List.append_nil, counted]
    · rw [kept_turn less, if_neg stays, front, List.append_nil]

/-- The compaction moves the keys that stay to the front and counts them. -/
theorem compact_spec (now : list.Represents w.memory keys)
    : ∃ w' current, compact w list = .ok (w', (kept keys).length)
        ∧ KeyInfoList.SameCalls w w' ∧ w'.reallocs = w.reallocs
        ∧ list.Represents w'.memory current
        ∧ current.take (kept keys).length = kept keys
        ∧ current.length = keys.length := by
  have size : list.size.toNat = keys.length := by simp [now.size]
  obtain ⟨⟨w', newSize⟩, ran, current, done⟩ :=
    forLoop_ok list.size.toNat (compactTurn list) (w, 0)
      (fun i state => ∃ current, Compacting w list keys i state current)
      ⟨keys, .refl w, rfl, now, rfl, rfl, rfl, rfl⟩
      (fun i less state ⟨current, inv⟩ => by
        obtain ⟨state', current', ran, inv'⟩ := inv.turn (size ▸ less)
        exact ⟨state', ran, current', inv'⟩)
  obtain ⟨calls, reallocs, represents, counted, front, -, length⟩ := done
  simp only [size, List.take_length] at counted front
  exact ⟨w', current, by rw [compact, ran, counted], calls, reallocs, represents,
    counted ▸ front, length⟩

/-- Shrinking to nothing gives the block back and leaves the pointer to it. -/
theorem shrink_nothing (env : Env) (now : list.Represents w.memory keys)
    (room : 0 < list.capacity)
    : ∃ w', w.realloc env list.data 0 = .ok (w', none) ∧ KeyInfoList.SameCalls w w'
        ∧ w'.reallocs = w.reallocs + 1
        ∧ KeyInfoList.Released w'.memory { list with size := 0 } := by
  obtain ⟨a, cells, data, live, -⟩ := now.block room
  have used := BlockMemory.lt_next live
  refine ⟨{ w with memory := w.memory.update a none, reallocs := w.reallocs + 1 }, ?_,
    ⟨rfl, rfl, rfl⟩, rfl, rfl, room, a, data, used, ?_⟩
  · have length : World.bytes 0 / sizeofKeyInfo = 0 := rfl
    rw [World.realloc, length, data, BlockMemory.realloc_zero live]
    rfl
  · rw [BlockMemory.update_block used, if_pos rfl]

/-- The list cut to `n` keys, in the block that `realloc` has returned if there is one. -/
def cut (list : KeyInfoList) (n : Int) : Option Nat → KeyInfoList
  | some a => { data := some a, size := n, capacity := n }
  | none => { list with size := n }

/-- Cutting a list to some of its keys keeps those, in a new block or in the old one; cutting
it to none releases the block.
-/
theorem shrink_spec (env : Env) (now : list.Represents w.memory keys) {n : Nat}
    (fewer : n < keys.length)
    : ∃ w' block, w.realloc env list.data n = .ok (w', block) ∧ KeyInfoList.SameCalls w w'
        ∧ (cut list n block).room w' = (list.room w).shrink env n
        ∧ (n = 0 ∧ (cut list n block).Released w'.memory
          ∨ 0 < n ∧ (cut list n block).Represents w'.memory (keys.take n)) := by
  have size := now.size
  have fits := now.wellFormed.fits
  have isInt := now.wellFormed.isInt
  have less : (n : Int) < (list.room w).size := by
    simp only [KeyInfoList.room]
    omega
  rw [Room.shrink, if_pos less]
  rcases Nat.eq_zero_or_pos n with rfl | positive
  · obtain ⟨w', moved, calls, counted, released⟩ := shrink_nothing env now (by omega)
    refine ⟨w', none, moved, calls, ?_, .inl ⟨rfl, released⟩⟩
    rw [if_neg (fun some_left => some_left.1 rfl), KeyInfoList.room, counted]
    rfl
  · have shrunk := now.take (Nat.le_of_lt fewer)
    have some_left : (n : Int) ≠ 0 := by omega
    rcases shrunk.realloc env (n := n) (by omega) (by omega) (Int.le_refl _) with
      ⟨w', refused, calls, counted, same, denied⟩
      | ⟨w', a, moved, calls, counted, granted, -, represents⟩
    · refine ⟨w', none, refused, calls, ?_, .inr ⟨positive, same ▸ shrunk⟩⟩
      have denied : ¬ ((n : Int) ≠ 0 ∧ (list.room w).grants env n = true) :=
        fun granted => by cases denied.symm.trans granted.2
      rw [if_neg denied, KeyInfoList.room, counted]
      rfl
    · refine ⟨w', some a, moved, calls, ?_, .inr ⟨positive, represents⟩⟩
      rw [if_pos ⟨some_left, granted⟩, KeyInfoList.room, counted]
      rfl

/-- The deletion, once the keys that stay are in front. -/
theorem deleteExpiredKeys_eq {w' : World} {n : Nat} (some_keys : list.size ≠ 0)
    (compacted : compact w list = .ok (w', n))
    : deleteExpiredKeys env w list
      = if (n : Int) < list.size then
          (w'.realloc env list.data n).map (fun moved => (moved.1, cut list n moved.2))
        else
          .ok (w', list) := by
  rw [deleteExpiredKeys, if_neg some_keys, compacted]
  by_cases shorter : (n : Int) < list.size
  · rw [if_pos shorter]
    refine (if_pos shorter).trans ?_
    rcases w'.realloc env list.data n with fault | ⟨w'', block⟩
    · rfl
    · cases block <;> rfl
  · rw [if_neg shorter]
    exact if_neg shorter

/-- The deletion keeps the keys that are not deleted, unless that leaves none: then `realloc`
releases the block and the list keeps pointing to it.
-/
theorem deleteExpiredKeys_spec (env : Env) (now : list.Represents w.memory keys)
    : ∃ w' list', deleteExpiredKeys env w list = .ok (w', list')
        ∧ KeyInfoList.SameCalls w w'
        ∧ list'.room w' = (list.room w).shrink env (kept keys).length
        ∧ (kept keys = [] ∧ keys ≠ [] ∧ list'.Released w'.memory
          ∨ (kept keys ≠ [] ∨ keys = []) ∧ list'.Represents w'.memory (kept keys)) := by
  have size := now.size
  by_cases empty : list.size = 0
  · obtain rfl := List.length_eq_zero_iff.mp (show keys.length = 0 by omega)
    refine ⟨w, list, if_pos empty, .refl w, (if_neg ?_).symm, .inr ⟨.inr rfl, now⟩⟩
    simp [KeyInfoList.room, empty, kept]
  obtain ⟨w', current, ran, calls, reallocs, represents, front, length⟩ := compact_spec now
  have same : list.room w' = list.room w := by rw [KeyInfoList.room, KeyInfoList.room, reallocs]
  rw [deleteExpiredKeys_eq empty ran]
  by_cases shorter : ((kept keys).length : Int) < list.size
  · obtain ⟨w'', block, moved, calls', room, outcome⟩ :=
      shrink_spec env represents (n := (kept keys).length) (by omega)
    rw [if_pos shorter, moved]
    refine ⟨w'', _, rfl, calls.trans calls', same ▸ room, ?_⟩
    rcases outcome with ⟨nothing, released⟩ | ⟨positive, kept_there⟩
    · refine .inl ⟨List.length_eq_zero_iff.mp nothing, ?_, released⟩
      rintro rfl
      exact empty size
    · rw [front] at kept_there
      exact .inr ⟨.inl (List.length_pos_iff.mp positive), kept_there⟩
  · have all : kept keys = keys :=
      (kept_sublist keys).eq_of_length_le (by omega)
    have current_all : current = keys := by
      rw [all, ← length, List.take_length] at front
      exact front
    rw [if_neg shorter]
    refine ⟨w', list, rfl, calls, ?_, .inr ⟨?_, ?_⟩⟩
    · exact same.trans (if_neg shorter).symm
    · rw [all]
      exact (em (keys = [])).symm
    · rwa [all, ← current_all]

end KeyManager

/-- The number and the text of a requested key, as `GatewayComm_RequestNewKeys` prints them. -/
def requestedTail (currentTs : Int) (i : Nat) : CString :=
  decimal currentTs ++ '_' :: decimal (i + 1)

/-- The key that turn `i` of a request started in `w` makes. -/
def requestedKey (env : Env) (w : World) (i : Nat) : KeyInfo :=
  let currentTs := env.clock (w.readings + i)
  .init (fit keyIdMaxLen ("key_".toList ++ requestedTail currentTs i))
    (fit keyValueMaxLen ("value_".toList ++ requestedTail currentTs i ++ "_abc123".toList))
    currentTs (w.serials + i)

/-- The `n` keys of a request started in `w`. -/
def requested (env : Env) (w : World) (n : Nat) : List KeyInfo :=
  (List.range n).map (requestedKey env w)

@[simp]
theorem requested_length (n : Nat) : (requested env w n).length = n := by
  simp [requested]

theorem requested_succ (n : Nat)
    : requested env w (n + 1) = requested env w n ++ [requestedKey env w n] := by
  simp [requested, List.range_succ]

theorem mem_requested {n : Nat} {key : KeyInfo}
    : key ∈ requested env w n ↔ ∃ i, i < n ∧ requestedKey env w i = key := by
  simp [requested]

/-- The requested keys depend on the next reading of the clock and the next number only. -/
theorem requested_congr {w' : World} (readings : w'.readings = w.readings)
    (serials : w'.serials = w.serials) (n : Nat)
    : requested env w' n = requested env w n := by
  have same (i : Nat) : requestedKey env w' i = requestedKey env w i := by
    simp only [requestedKey, readings, serials]
  simp [requested, same]

/-- The requested keys are new. -/
theorem requested_fresh {w' : World} {n : Nat} (serials : w.serials + n ≤ w'.serials)
    : Fresh w w' (requested env w n) where
  valid key inside := by
    obtain ⟨i, less, rfl⟩ := mem_requested.mp inside
    rfl
  since key inside := by
    obtain ⟨i, less, rfl⟩ := mem_requested.mp inside
    exact ⟨Nat.le_add_right _ _, by simp only [requestedKey, KeyInfo.init]; omega⟩
  ordered := by
    refine List.pairwise_map.mpr (List.pairwise_lt_range.imp ?_)
    intro i j less
    simpa [requestedKey, KeyInfo.init] using less

/-- A list that was built from `w` to `w'` in a block of its own. -/
structure NewList (w w' : World) (list : KeyInfoList) (keys : List KeyInfo) : Prop where
  later : Later w w'
  touches : BlockMemory.Touches w.memory w'.memory none list.data
  represents : list.Represents w'.memory keys

/-- The block of a new list is none that was in use before. -/
theorem NewList.apart {w' : World} {newKeys : KeyInfoList} {a : Nat}
    (now : NewList w w' newKeys keys) (used : a < w.memory.next)
    : newKeys.data ≠ some a := by
  intro same
  rcases now.touches.moved with none | new
  · rw [same] at none
    cases none
  · exact absurd (new a same) (Nat.not_le.mpr used)

/-- What the loop of the gateway has made after `i` turns started in `w`: all keys so far, or
nothing after a key that was refused.
-/
inductive Requesting (env : Env) (w : World) (i : Nat)
    : World × KeyInfoList × Int → List KeyInfo → Prop where
  | filling (w' : World) (list : KeyInfoList) (readings : w'.readings = w.readings + i)
      (serials : w'.serials = w.serials + i)
      (room : list.room w' = (Room.empty w.reallocs).before env i)
      (all : (Room.empty w.reallocs).takesAll env i)
      : Requesting env w i (w', list, 0) (requested env w i)
  | refused (w' : World) (list : KeyInfoList) (j : Nat) (less : j < i)
      (some_refused : ((Room.empty w.reallocs).before env j).takes env = false)
      : Requesting env w i (w', list, -1) []

/-- One turn adds the next key, or releases the list and reports a failure. -/
theorem requestTurn_spec {w' : World} {i : Nat} {result : Int} (now : NewList w w' list keys)
    (progress : Requesting env w i (w', list, result) keys)
    : ∃ w'' list' result' keys',
        requestTurn env i (w', list, result) = .ok (w'', list', result')
        ∧ NewList w w'' list' keys'
        ∧ Requesting env w (i + 1) (w'', list', result') keys' := by
  cases progress with
  | refused _ _ j less refused =>
      exact ⟨w', list, -1, [], rfl, now,
        .refused w' list j (Nat.lt_succ_of_lt less) refused⟩
  | filling _ _ readings serials room all =>
      let current := env.clock w'.readings
      let key := KeyInfo.init (fit keyIdMaxLen ("key_".toList ++ requestedTail current i))
        (fit keyValueMaxLen
          ("value_".toList ++ requestedTail current i ++ "_abc123".toList))
        current w'.serials
      have same : key = requestedKey env w i := by
        simp only [key, current, requestedKey, readings, serials]
      let ready : World := { w' with readings := w'.readings + 1, serials := w'.serials + 1 }
      have later : Later w' ready := ⟨Nat.le_succ _, Nat.le_succ _⟩
      have represents : list.Represents ready.memory (requested env w i) := now.represents
      obtain ⟨w'', list', added, ran, calls, touches, after, outcome⟩ := represents.add env key
      have later' : Later w w'' := (now.later.trans later).trans calls.later
      have turn : requestTurn env i (w', list, 0)
          = if added ≠ 0 then (list'.free w'').map (fun freed => (freed.1, freed.2, -1))
            else .ok (w'', list', 0) :=
        bind_ok ran _
      have room' : list.room ready = (Room.empty w.reallocs).before env i := room
      rw [room'] at after outcome
      rw [turn]
      rcases outcome with ⟨taken, rfl, represents'⟩ | ⟨refused, rfl, same_memory, rfl⟩
      · rw [same, ← requested_succ] at represents'
        refine ⟨w'', list', 0, _, rfl, ⟨later', now.touches.trans touches, represents'⟩, ?_⟩
        refine .filling w'' list' ?_ ?_ ?_ (Room.takesAll_succ.mpr ⟨all, taken⟩)
        · rw [calls.readings, ← Nat.add_assoc, ← readings]
        · rw [calls.serials, ← Nat.add_assoc, ← serials]
        · rw [after, Room.before_succ]
      · have wellFormed : list'.WellFormed w''.memory := same_memory ▸ represents.wellFormed
        obtain ⟨w₃, freed, calls', touches'⟩ := wellFormed.free
        exact ⟨w₃, .init, -1, [], congrArg (Except.map _) freed,
          ⟨later'.trans calls'.later, (now.touches.trans touches).trans touches',
            KeyInfoList.init_represents _⟩,
          .refused w₃ .init i (Nat.lt_succ_self i) refused⟩

/-- The gateway answers with a list of all the new keys, or with a failure and none. -/
theorem requestNewKeys_spec (env : Env) (w : World) {needCount : Int}
    (some_needed : 0 < needCount)
    : ∃ w' list result keys, requestNewKeys env w needCount .init = .ok (w', list, result)
        ∧ NewList w w' list keys
        ∧ Requesting env w needCount.toNat (w', list, result) keys := by
  have start : NewList w w .init [] := ⟨.refl w, .refl _ _, KeyInfoList.init_represents _⟩
  have first : Requesting env w 0 (w, .init, 0) [] :=
    .filling w .init rfl rfl rfl (fun i less => absurd less (Nat.not_lt_zero i))
  obtain ⟨⟨w', list, result⟩, ran, keys, now, progress⟩ :=
    forLoop_ok needCount.toNat (requestTurn env) (w, .init, 0)
      (fun i state => ∃ keys, NewList w state.1 state.2.1 keys ∧ Requesting env w i state keys)
      ⟨[], start, first⟩
      (fun i _ (w', list, result) ⟨keys, now, progress⟩ => by
        obtain ⟨w'', list', result', keys', ran, now', progress'⟩ :=
          requestTurn_spec now progress
        exact ⟨_, ran, keys', now', progress'⟩)
  refine ⟨w', list, result, keys, ?_, now, progress⟩
  rw [requestNewKeys, if_neg (by omega), ran]

namespace KeyManager

/-- After `i` turns of the copying loop, started in `w` with `list`, those of the first `i`
new keys that found room are appended.
-/
structure Copying (env : Env) (w : World) (list : KeyInfoList) (keys new : List KeyInfo)
    (i : Nat) (state : World × KeyInfoList) : Prop where
  calls : KeyInfoList.SameCalls w state.1
  touches : BlockMemory.Touches w.memory state.1.memory list.data state.2.data
  room : state.2.room state.1 = (list.room w).before env i
  represents
    : state.2.Represents state.1.memory (keys ++ (list.room w).accepted env (new.take i))

/-- One more new key is read from its own list and offered to the local one. -/
theorem Copying.turn {newList : KeyInfoList} {new : List KeyInfo} {i : Nat}
    {state : World × KeyInfoList} (now : Copying env w list keys new i state)
    (fresh : newList.Represents w.memory new)
    (apart : ∀ a, newList.data = some a → some a ≠ list.data) (less : i < new.length)
    : ∃ state', addTurn env newList i state = .ok state'
        ∧ Copying env w list keys new (i + 1) state' := by
  obtain ⟨w', list'⟩ := state
  obtain ⟨calls, touches, room, represents⟩ := now
  have found := (fresh.frame touches apart).load (List.getElem?_eq_getElem less)
  have longer : new.take (i + 1) = new.take i ++ [new[i]] := by
    rw [List.take_add_one, List.getElem?_eq_getElem less]
    rfl
  have length : (new.take i).length = i := by
    rw [List.length_take]
    omega
  obtain ⟨w'', list'', result, ran, calls', touches', after, outcome⟩ :=
    represents.add env new[i]
  have copied : addTurn env newList i (w', list') = .ok (w'', list'') := by
    rw [addTurn, found]
    exact congrArg (Except.map (fun made => (made.1, made.2.1))) ran
  have room : list'.room w' = (list.room w).before env i := room
  rw [room] at after outcome
  refine ⟨(w'', list''), copied, calls.trans calls', touches.trans touches', ?_, ?_⟩
  · rw [Room.before_succ]
    exact after
  · rw [longer, Room.accepted_concat, length]
    rcases outcome with ⟨taken, -, represents'⟩ | ⟨refused, -, same, rfl⟩
    · simpa [taken] using represents'
    · simpa [refused] using same ▸ represents

/-- The copying loop appends the new keys that find room, in their order, and leaves their
list alone.
-/
theorem addAll_spec (env : Env) {newList : KeyInfoList} {new : List KeyInfo}
    (now : list.Represents w.memory keys) (fresh : newList.Represents w.memory new)
    (apart : ∀ a, newList.data = some a → some a ≠ list.data)
    : ∃ w' list', addAll env w list newList = .ok (w', list')
        ∧ KeyInfoList.SameCalls w w'
        ∧ list'.Represents w'.memory (keys ++ (list.room w).accepted env new)
        ∧ newList.Represents w'.memory new
        ∧ ∀ a, newList.data = some a → some a ≠ list'.data := by
  have size : newList.size.toNat = new.length := by simp [fresh.size]
  have start : Copying env w list keys new 0 (w, list) :=
    ⟨.refl w, .refl _ _, rfl, by simpa [Room.accepted] using now⟩
  obtain ⟨⟨w', list'⟩, ran, calls, touches, -, represents⟩ :=
    forLoop_ok newList.size.toNat (addTurn env newList) (w, list)
      (Copying env w list keys new) start
      (fun i less state inv => inv.turn fresh apart (size ▸ less))
  rw [size, List.take_length] at represents
  refine ⟨w', list', ran, calls, represents, fresh.frame touches apart, ?_⟩
  intro a data
  obtain ⟨cells, live, -⟩ := fresh.wellFormed.live a data
  exact touches.apart live (apart a data)

/-- The request, once the valid keys are counted and the new keys are there. -/
theorem checkAndRequestKeys_eq {self : KeyManager} {count result : Int} {w : World}
    {newKeys : KeyInfoList} (counted : countValid self.world self.localKeys = .ok count)
    (few : count < self.config.validThreshold)
    (requested : requestNewKeys env self.world (self.config.validThreshold - count) .init
      = .ok (w, newKeys, result))
    : checkAndRequestKeys env self
      = (if result = 0 then addAll env w self.localKeys newKeys
          else .ok (w, self.localKeys)).bind (fun copied =>
            (newKeys.free copied.1).map (fun freed =>
              { self with world := freed.1, localKeys := copied.2 })) := by
  rw [checkAndRequestKeys, counted]
  refine (if_pos few).trans ?_
  rw [requested]
  by_cases succeeded : result = 0
  · rw [if_pos succeeded]
    exact if_pos succeeded
  · rw [if_neg succeeded]
    exact if_neg succeeded

/-- How many keys are requested for a list of keys. -/
def needed (config : KeyConfig) (keys : List KeyInfo) : Nat :=
  (config.validThreshold - (keys.countP (fun key => key.status = .valid) : Nat)).toNat

/-- The room of the local list after the gateway has filled a list of `n` keys. -/
def afterBatch (env : Env) (r : Room) (n : Nat) : Room :=
  { r with reallocs := ((Room.empty r.reallocs).before env n).reallocs }

/-- The keys that a request for `n` keys, started in `w`, adds to a list with this room: none
when the gateway fails, and otherwise those that find room.
-/
def replenished (env : Env) (w : World) (r : Room) (n : Nat) : List KeyInfo :=
  if (Room.empty r.reallocs).takesAll env n then
    (afterBatch env r n).accepted env (requested env w n)
  else
    []

theorem replenished_sublist (r : Room) (n : Nat)
    : (replenished env w r n).Sublist (requested env w n) := by
  unfold replenished
  split
  · exact Room.accepted_sublist _
  · exact List.nil_sublist _

/-- A list with enough valid keys is left as it is. -/
theorem checkAndRequestKeys_enough (self : KeyManager)
    (now : self.localKeys.Represents self.world.memory keys)
    (enough : needed self.config keys = 0)
    : checkAndRequestKeys env self = .ok self := by
  have few : ¬ (keys.countP (fun key => key.status = .valid) : Int)
      < self.config.validThreshold := by
    have nothing := Int.toNat_eq_zero.mp enough
    omega
  rw [checkAndRequestKeys, countValid_spec now]
  exact if_neg few

/-- The request appends new keys to the list. -/
theorem checkAndRequestKeys_spec (env : Env) (self : KeyManager)
    (now : self.localKeys.Represents self.world.memory keys)
    : ∃ w' list' added,
        checkAndRequestKeys env self = .ok { self with world := w', localKeys := list' }
        ∧ Later self.world w' ∧ Fresh self.world w' added
        ∧ list'.Represents w'.memory (keys ++ added)
        ∧ added = replenished env self.world (self.localKeys.room self.world)
            (needed self.config keys) := by
  have counted := countValid_spec now
  by_cases few : (keys.countP (fun key => key.status = .valid) : Int)
      < self.config.validThreshold
  · obtain ⟨w', newKeys, result, new, asked, newList, progress⟩ :=
      requestNewKeys_spec env self.world (Int.sub_pos.mpr few)
    rw [checkAndRequestKeys_eq counted few asked]
    have there := now.frame newList.touches (by simp)
    have apart : ∀ a, newKeys.data = some a → some a ≠ self.localKeys.data := by
      intro a data same
      obtain ⟨cells, live, -⟩ := now.wellFormed.live a same.symm
      exact newList.apart (BlockMemory.lt_next live) data
    cases progress with
    | filling _ _ readings serials room all =>
        obtain ⟨w₂, list, copied, calls, represents, rest, apart'⟩ :=
          addAll_spec env there newList.represents apart
        obtain ⟨w₃, freed, calls', touches⟩ := rest.wellFormed.free
        have reallocs : self.localKeys.room w'
            = afterBatch env (self.localKeys.room self.world) (needed self.config keys) :=
          congrArg (fun r => { self.localKeys.room self.world with reallocs := r.reallocs })
            room
        have added : (self.localKeys.room w').accepted env
            (requested env self.world (needed self.config keys))
            = replenished env self.world (self.localKeys.room self.world)
              (needed self.config keys) := by
          rw [reallocs]
          exact (if_pos all).symm
        have fresh : Fresh self.world w₃ (requested env self.world (needed self.config keys)) :=
          requested_fresh (Nat.le_of_eq (by rw [calls'.serials, calls.serials, serials]; rfl))
        refine ⟨w₃, list, _, ?_, newList.later.trans (calls.later.trans calls'.later),
          fresh.sublist (replenished_sublist _ _) (.refl _), ?_, rfl⟩
        · rw [if_pos rfl, copied]
          exact congrArg (Except.map _) freed
        · rw [← added]
          exact represents.frame touches (fun a data same => apart' a same.symm data.symm)
    | refused _ _ j less some_refused =>
        obtain ⟨w₂, freed, calls, touches⟩ := newList.represents.wellFormed.free
        have none : replenished env self.world (self.localKeys.room self.world)
            (needed self.config keys) = [] :=
          if_neg (fun all => by cases (all j less).symm.trans some_refused)
        refine ⟨w₂, self.localKeys, [], ?_, newList.later.trans calls.later, .nil _ _, ?_,
          none.symm⟩
        · rw [if_neg (by decide)]
          exact congrArg (Except.map _) freed
        · rw [List.append_nil]
          exact there.frame touches (fun a data same => apart a same.symm data.symm)
  · have nothing : needed self.config keys = 0 := Int.toNat_eq_zero.mpr (by omega)
    refine ⟨self.world, self.localKeys, [], checkAndRequestKeys_enough self now nothing,
      .refl _, .nil _ _, ?_, ?_⟩
    · rwa [List.append_nil]
    · rw [nothing, replenished]
      split <;> rfl

end KeyManager

end QKeySys.KeyPool
