import QKeySys.KeyPool.Validity

/-! The identifiers of the keys: which two keys are given the same one, and how long all stored
keys have different ones.
-/

namespace QKeySys.KeyPool

open QKeySys.Library

variable {env : Env} {keys : List KeyInfo}

-----------------------------------------------------------------------------------------
-- Decimal numbers
-----------------------------------------------------------------------------------------

theorem underscore_notMem_decimal (n : Int) : '_' ∉ decimal n := by
  intro inside
  rcases mem_decimal inside with dash | digit
  · cases dash
  · cases digit

theorem toDigits_inj {m n : Nat} (same : Nat.toDigits 10 m = Nat.toDigits 10 n) : m = n := by
  have values := congrArg (fun digits => Nat.ofDigitChars 10 digits 0) same
  simpa only [Nat.ofDigitChars_ten_toDigits] using values

/-- A decimal number can be read back. -/
theorem decimal_inj {m n : Int} (same : decimal m = decimal n) : m = n := by
  have noDash (k : Nat) (rest : CString) : Nat.toDigits 10 k ≠ '-' :: rest := by
    intro dash
    have first : '-' ∈ Nat.toDigits 10 k := dash ▸ List.mem_cons_self
    cases Nat.isDigit_of_mem_toDigits (by decide) (by decide) first
  unfold decimal at same
  split_ifs at same with negative negative'
  · have absolute := toDigits_inj (List.cons.inj same).2
    omega
  · exact absurd same.symm (noDash _ _)
  · exact absurd same (noDash _ _)
  · have absolute := toDigits_inj same
    omega

/-- A number of at most `k` digits is printed with them and a sign at most. -/
theorem decimal_length {n : Int} {k : Nat} (some_digits : 0 < k) (small : n.natAbs < 10 ^ k)
    : (decimal n).length ≤ k + 1 := by
  have digits := (Nat.length_toDigits_le_iff (by decide) some_digits).mpr small
  unfold decimal
  split
  · rw [List.length_cons]
    omega
  · omega

/-- Two numbers with a separator between them can be read back. -/
theorem decimals_inj {m n m' n' : Int}
    (same : decimal m ++ '_' :: decimal n = decimal m' ++ '_' :: decimal n')
    : m = m' ∧ n = n' := by
  obtain ⟨first, -, second⟩ := (List.append_cons_inj_of_notMem
    (underscore_notMem_decimal m) (underscore_notMem_decimal n)).mp same
  exact ⟨decimal_inj first, decimal_inj second⟩

-----------------------------------------------------------------------------------------
-- Identifiers
-----------------------------------------------------------------------------------------

/-- Who made a key: turn `i` of a request, or the addition with a number of its own. -/
inductive Maker where
  | request (i : Nat)
  | addition (seq : Int)
  deriving DecidableEq, Repr

/-- The number behind the time in an identifier. -/
def Maker.number : Maker → Int
  | .request i => i + 1
  | .addition seq => seq.tmod 1000

/-- The identifier of a key before it is cut to fit. -/
def Maker.text (maker : Maker) (createTs : Int) : CString :=
  match maker with
  | .request _ => "key_".toList ++ (decimal createTs ++ '_' :: decimal maker.number)
  | .addition _ => "ext_".toList ++ (decimal createTs ++ '_' :: decimal maker.number)

/-- A turn of a request that an `int` can count. -/
def Maker.Counted : Maker → Prop
  | .request i => (i : Int) < intMax
  | .addition _ => True

/-- The two makers give keys the same identifier when they give them at the same time. -/
def Maker.Clashes : Maker → Maker → Prop
  | .request i, .request j => i = j
  | .addition seq, .addition seq' => seq.tmod 1000 = seq'.tmod 1000
  | _, _ => False

/-- A time that an `int64_t` can hold. -/
def IsTime (t : Int) : Prop := int64 t = t

theorem IsTime.natAbs_lt {t : Int} (now : IsTime t) : t.natAbs < 10 ^ 19 := by
  have range : (UInt64.size : Int) = 18446744073709551616 := rfl
  have bounds : -9223372036854775808 ≤ t ∧ t < 9223372036854775808 := by
    rw [IsTime, int64, Int.bmod_def, range] at now
    split at now <;> omega
  omega

/-- No identifier is cut. -/
theorem Maker.fit_text {maker : Maker} {t : Int} (counted : maker.Counted) (time : IsTime t)
    : fit keyIdMaxLen (maker.text t) = maker.text t := by
  have long := decimal_length (by decide) time.natAbs_lt
  have short : maker.number.natAbs < 10 ^ 10 := by
    cases maker with
    | request i =>
        have max : intMax = 2147483647 := rfl
        have less : (i : Int) < intMax := counted
        simp only [number]
        omega
    | addition seq =>
        have bound : (seq.tmod 1000).natAbs < 1000 := by
          rw [Int.natAbs_tmod]
          exact Nat.mod_lt _ (by decide)
        exact Nat.lt_trans bound (by decide)
  have number := decimal_length (by decide) short
  have max : keyIdMaxLen = 64 := rfl
  have mark : "key_".toList.length = 4 ∧ "ext_".toList.length = 4 := by decide
  refine List.take_of_length_le ?_
  cases maker <;> simp only [text, List.length_append, List.length_cons] <;> omega

/-- Two identifiers are the same exactly when they are given at the same time by makers that
clash.
-/
theorem Maker.text_eq_iff {maker maker' : Maker} {t t' : Int}
    : maker.text t = maker'.text t' ↔ t = t' ∧ maker.Clashes maker' := by
  have apart (rest rest' : CString) : "key_".toList ++ rest ≠ "ext_".toList ++ rest' := by
    intro same
    cases (List.cons.inj same).1
  constructor
  · intro same
    cases maker with
    | request i =>
        cases maker' with
        | request j =>
            obtain ⟨time, index⟩ := decimals_inj (List.append_cancel_left same)
            have index : (i : Int) + 1 = j + 1 := index
            exact ⟨time, show i = j by omega⟩
        | addition seq' => exact absurd same (apart _ _)
    | addition seq =>
        cases maker' with
        | request j => exact absurd same.symm (apart _ _)
        | addition seq' => exact decimals_inj (List.append_cancel_left same)
  · rintro ⟨rfl, clashes⟩
    cases maker with
    | request i =>
        cases maker' with
        | request j => exact congrArg (fun k => text (.request k) t) clashes
        | addition seq' => exact absurd clashes id
    | addition seq =>
        cases maker' with
        | request j => exact absurd clashes id
        | addition seq' =>
            have number : number (.addition seq) = number (.addition seq') := clashes
            simp only [text, number]

-----------------------------------------------------------------------------------------
-- The makers of the stored keys
-----------------------------------------------------------------------------------------

/-- The manager with an auxiliary record of who made the key with each number. -/
structure Pool where
  manager : KeyManager
  makers : List Maker

namespace Pool

def init : Pool where
  manager := .initInstance
  makers := []

/-- The makers of the keys that a call has made, in the order of their numbers. -/
def newMakers (call : Call) (before after : KeyManager) : List Maker :=
  let count := after.world.serials - before.world.serials
  match call with
  | .addExternalKey _ => List.replicate count (.addition after.seq)
  | _ => (List.range count).map .request

/-- A call that runs into no fault, with the record of the keys it makes. -/
def call (env : Env) (s : Pool) (call : Call) : Except Fault Pool :=
  (s.manager.call env call).map (fun after =>
    ⟨after, s.makers ++ newMakers call s.manager after⟩)

/-- The calls that make and drop keys, by their own or with the time. -/
def turnsOver : Call → Bool
  | .simulateKeyExpiry _ | .getValidKey => false
  | _ => true

/-- No call makes a key at the same time as a stored one with a maker that clashes: the number
of an addition is not congruent to that of a stored key added in the same second, and no turn
of a request falls into the second in which a key that stays was made by the same turn.
-/
def avoidsClash (env : Env) (s : Pool) : Call → Prop
  | .addExternalKey _ =>
      ∀ keys, s.manager.localKeys.Represents s.manager.world.memory keys →
        ∀ key ∈ keys, ∀ maker, s.makers[key.serial]? = some maker →
          maker.Clashes (.addition (int32 (s.manager.seq + 1))) →
          key.createTs ≠ env.clock s.manager.world.readings
  | .checkAllKeys =>
      ∀ keys, s.manager.localKeys.Represents s.manager.world.memory keys →
        ∀ key ∈ KeyManager.survivors env s.manager keys, ∀ maker,
          s.makers[key.serial]? = some maker →
          ∀ i, i < KeyManager.needed s.manager.config
              (KeyManager.survivors env s.manager keys) →
            maker.Clashes (.request i) →
            key.createTs ≠ env.clock (s.manager.world.readings + keys.length + i)
  | _ => True

end Pool

/-- A call that makes or drops keys, to execute sequences of calls. -/
def Pool.step (env : Env) (s : Pool) (call : Call) : Option Pool :=
  if Pool.turnsOver call then (s.call env call).toOption else none

/-- All sequences of calls that make and drop keys, with the record of the keys. -/
def pools (env : Env) : Lts Pool Call where
  init s := s = .init
  next s call s' := Pool.turnsOver call = true ∧ s.call env call = .ok s'

theorem Pool.step_sound (s : Pool) (call : Call) (s' : Pool)
    (taken : s.step env call = some s')
    : (pools env).next s call s' := by
  unfold step at taken
  split at taken
  case isTrue turnsOver => exact ⟨turnsOver, ok_of_toOption taken⟩
  case isFalse => cases taken

/-- In every reachable state two different entries have different identifiers. -/
def UniqueIds (system : Lts Pool Call) : Prop :=
  ∀ s i j key key', system.Reachable s → s.manager.keyAt i = some key →
    s.manager.keyAt j = some key' → i ≠ j → key.keyId ≠ key'.keyId

/-- A key has the identifier that its maker has given it, and its time fits. -/
structure MadeBy (makers : List Maker) (key : KeyInfo) : Prop where
  time : IsTime key.createTs
  maker
    : ∃ maker, makers[key.serial]? = some maker ∧ maker.Counted
        ∧ key.keyId = maker.text key.createTs

/-- Every stored key has the identifier that its maker has given it, and no other has it. -/
structure Identified (makers : List Maker) (keys : List KeyInfo) : Prop where
  made : ∀ key ∈ keys, MadeBy makers key
  different : keys.Pairwise (fun key key' => key.keyId ≠ key'.keyId)

variable {makers : List Maker} {key : KeyInfo}

/-- What an identifier is made of and what it belongs to. -/
def KeyInfo.identity (key : KeyInfo) : CString × Int × Nat :=
  (key.keyId, key.createTs, key.serial)

namespace Identified

theorem nil (makers : List Maker) : Identified makers [] := by constructor <;> simp

/-- Later makers do not matter. -/
theorem extend (now : Identified makers keys) (new : List Maker)
    : Identified (makers ++ new) keys where
  made key inside := by
    obtain ⟨time, maker, found, rest⟩ := now.made key inside
    refine ⟨time, maker, ?_, rest⟩
    rw [List.getElem?_append_left (List.getElem?_eq_some_iff.mp found).1, found]
  different := now.different

/-- Only the identities matter, and some of them may go. -/
theorem of_identities {keys' : List KeyInfo} (now : Identified makers keys)
    (some_of : (keys'.map KeyInfo.identity).Sublist (keys.map KeyInfo.identity))
    : Identified makers keys' where
  made key' inside := by
    obtain ⟨key, stored, same⟩ :=
      List.mem_map.mp (some_of.subset (List.mem_map_of_mem inside))
    obtain ⟨keyId, createTs, serial⟩ :
        key.keyId = key'.keyId ∧ key.createTs = key'.createTs ∧ key.serial = key'.serial := by
      simpa [KeyInfo.identity] using same
    obtain ⟨time, maker, found, counted, named⟩ := now.made key stored
    rw [serial] at found
    rw [keyId, createTs] at named
    exact ⟨createTs ▸ time, maker, found, counted, named⟩
  different := by
    have before : (keys.map KeyInfo.identity).Pairwise (fun a b => a.1 ≠ b.1) :=
      List.pairwise_map.mpr now.different
    exact (before.sublist some_of).of_map KeyInfo.identity (fun _ _ other => other)

/-- The keys that a check keeps are identified as before. -/
theorem survivors {self : KeyManager} (now : Identified makers keys)
    : Identified makers (KeyManager.survivors env self keys) := by
  have updated : (refreshed env self.config self.world.readings keys).map KeyInfo.identity
      = keys.map KeyInfo.identity := by
    refine List.ext_getElem? (fun i => ?_)
    rw [refreshed, List.getElem?_map, List.getElem?_mapIdx, List.getElem?_map, Option.map_map]
    rfl
  exact now.of_identities (updated ▸ (kept_sublist _).map KeyInfo.identity)

/-- Keys that are identified among themselves and differ from the stored ones join them. -/
theorem append {added : List KeyInfo} (now : Identified makers keys)
    (new : Identified makers added)
    (apart : ∀ key ∈ keys, ∀ key' ∈ added, key.keyId ≠ key'.keyId)
    : Identified makers (keys ++ added) where
  made key inside := (List.mem_append.mp inside).elim (now.made key) (new.made key)
  different := List.pairwise_append.mpr ⟨now.different, new.different, apart⟩

end Identified

/-- Two keys have the same identifier exactly when they were made at the same time by makers
that clash.
-/
theorem MadeBy.keyId_eq_iff {makers' : List Maker} {key' : KeyInfo} {maker maker' : Maker}
    (first : MadeBy makers key) (second : MadeBy makers' key')
    (found : makers[key.serial]? = some maker) (found' : makers'[key'.serial]? = some maker')
    : key.keyId = key'.keyId ↔ key.createTs = key'.createTs ∧ maker.Clashes maker' := by
  obtain ⟨-, maker₁, found₁, -, named⟩ := first
  obtain ⟨-, maker₂, found₂, -, named'⟩ := second
  obtain rfl := Option.some.inj (found.symm.trans found₁)
  obtain rfl := Option.some.inj (found'.symm.trans found₂)
  rw [named, named']
  exact Maker.text_eq_iff

section Requests

variable {w : World} {n m : Nat}

/-- A requested key is made by the turn of the request that it comes from. -/
theorem requestedKey_madeBy (times : ∀ n, IsTime (env.clock n))
    (numbers : makers.length = w.serials) (few : (n : Int) ≤ intMax) {i : Nat} (less : i < n)
    (recorded : i < m)
    : MadeBy (makers ++ (List.range m).map .request) (requestedKey env w i)
      ∧ (makers ++ (List.range m).map Maker.request)[(requestedKey env w i).serial]?
        = some (.request i) := by
  have found : (makers ++ (List.range m).map Maker.request)[(requestedKey env w i).serial]?
      = some (.request i) := by
    have serial : (requestedKey env w i).serial = makers.length + i := by
      rw [numbers]
      rfl
    rw [serial, List.getElem?_append_right (Nat.le_add_right _ _), Nat.add_sub_cancel_left]
    simp [recorded]
  have counted : (Maker.request i).Counted := show (i : Int) < intMax by omega
  have uncut := Maker.fit_text counted (times (w.readings + i))
  refine ⟨⟨times _, .request i, found, counted, ?_⟩, found⟩
  exact (congrArg (fit keyIdMaxLen) uncut).trans uncut

/-- The keys of one request have different identifiers, since their turns differ. -/
theorem requested_different (times : ∀ n, IsTime (env.clock n))
    (numbers : makers.length = w.serials) (few : (n : Int) ≤ intMax)
    : (requested env w n).Pairwise (fun key key' => key.keyId ≠ key'.keyId) := by
  refine List.pairwise_map.mpr (List.pairwise_lt_range.imp_of_mem ?_)
  intro i j inside inside' before same
  have less := List.mem_range.mp inside
  have less' := List.mem_range.mp inside'
  obtain ⟨first, found⟩ := requestedKey_madeBy times numbers few less less
  obtain ⟨second, found'⟩ := requestedKey_madeBy times numbers few less' less'
  obtain ⟨-, clashes⟩ := (first.keyId_eq_iff second found found').mp same
  exact Nat.ne_of_lt before clashes

/-- Those keys of a request that are stored are identified. -/
theorem requested_identified (times : ∀ n, IsTime (env.clock n))
    (numbers : makers.length = w.serials) (few : (n : Int) ≤ intMax) {added : List KeyInfo}
    (some_of : added.Sublist (requested env w n))
    (recorded : ∀ key ∈ added, key.serial < w.serials + m)
    : Identified (makers ++ (List.range m).map .request) added where
  made key inside := by
    have serial := recorded key inside
    obtain ⟨i, less, rfl⟩ := mem_requested.mp (some_of.subset inside)
    have early : i < m := Nat.lt_of_add_lt_add_left serial
    exact (requestedKey_madeBy times numbers few less early).1
  different := (requested_different times numbers few).sublist some_of

end Requests

/-- The number of requested keys is one that an `int` can hold. -/
theorem needed_le {config : KeyConfig} (few : config.validThreshold ≤ intMax)
    (keys : List KeyInfo)
    : (KeyManager.needed config keys : Int) ≤ intMax := by
  have max : intMax = 2147483647 := rfl
  rw [KeyManager.needed]
  omega

namespace Pool

variable {s s' : Pool}

/-- Every key has a recorded maker, and the stored ones are identified. -/
structure Identifies (s : Pool) : Prop where
  recorded : s.makers.length = s.manager.world.serials
  few : s.manager.config.validThreshold ≤ intMax
  stored : ∃ keys, s.manager.Stores keys ∧ Identified s.makers keys

/-- The makers of new keys are recorded. -/
theorem newMakers_length (call : Call) {before after : KeyManager}
    (later : before.world.serials ≤ after.world.serials)
    : before.world.serials + (newMakers call before after).length = after.world.serials := by
  cases call <;> simp [newMakers, later]

/-- A call that ends with identified keys in the list. -/
theorem Identifies.after (now : s.Identifies) {call : Call} {after : KeyManager}
    (later : Later s.manager.world after.world)
    (few : after.config.validThreshold ≤ intMax) (stores : after.Stores keys)
    (identified : Identified (s.makers ++ newMakers call s.manager after) keys)
    : Identifies ⟨after, s.makers ++ newMakers call s.manager after⟩ where
  recorded := by
    rw [List.length_append, now.recorded]
    exact newMakers_length call later.serials
  few := few
  stored := ⟨keys, stores, identified⟩

/-- After the initialisation the list has the keys of one request. -/
theorem Identifies.init (now : s.Identifies) (times : ∀ n, IsTime (env.clock n))
    (small : env.defaultConfig.validThreshold ≤ intMax) {after : KeyManager}
    (fresh : s.manager.isInited = false) (ran : s.manager.call env .init = .ok after)
    : Identifies ⟨after, s.makers ++ newMakers .init s.manager after⟩ := by
  obtain ⟨created, w', list', added, ran', later, new, represents, some_of, -⟩ :=
    KeyManager.init_spec env fresh
  obtain rfl := Except.ok.inj (ran.symm.trans (congrArg (Except.map Prod.snd) ran'))
  refine now.after later small (.inl represents)
    (requested_identified times now.recorded (needed_le small []) some_of ?_)
  intro key inside
  have before := (new.since key inside).2
  simp only
  omega

/-- After a check the list has the keys that stay and those of one request, which differ from
them unless they clash.
-/
theorem Identifies.checkAllKeys (now : s.Identifies) (times : ∀ n, IsTime (env.clock n))
    (avoids : s.avoidsClash env .checkAllKeys) {after : KeyManager}
    (inited : s.manager.isInited = true) (ran : s.manager.checkAllKeys env = .ok after)
    : Identifies ⟨after, s.makers ++ newMakers .checkAllKeys s.manager after⟩ := by
  obtain ⟨keys, stores, identified⟩ := now.stored
  obtain ⟨keys', effect⟩ := stores.check_effect inited ran
  have stores' := effect.stores stores
  cases effect with
  | idle idles => simp [Call.idles, Call.skipped, inited] at idles
  | cleared _ later => exact now.after later now.few stores' (.nil _)
  | @checked w' list' added _ represents later readings new represents' origin =>
      have few := needed_le now.few (KeyManager.survivors env s.manager keys)
      have some_of : added.Sublist (requested env (s.manager.afterUpdate keys)
          (KeyManager.needed s.manager.config (KeyManager.survivors env s.manager keys))) :=
        origin ▸ KeyManager.replenished_sublist _ _
      have early (key : KeyInfo) (inside : key ∈ added)
          : key.serial < s.manager.world.serials + (w'.serials - s.manager.world.serials) := by
        have before := (new.since key inside).2
        omega
      have numbers : s.makers.length = (s.manager.afterUpdate keys).serials := now.recorded
      have identified' := requested_identified times numbers few some_of early
      refine now.after later now.few stores'
        ((identified.survivors.extend _).append identified' ?_)
      intro key stays key' inside same
      have serial := early key' inside
      obtain ⟨i, less, rfl⟩ := mem_requested.mp (some_of.subset inside)
      have made := identified.survivors.made key stays
      obtain ⟨maker, found, -⟩ := made.maker
      obtain ⟨made', found'⟩ :=
        requestedKey_madeBy times numbers few less (Nat.lt_of_add_lt_add_left serial)
      obtain ⟨time, clashes⟩ := (made.keyId_eq_iff made' found found').mp same
      exact avoids keys represents key stays maker found i less clashes time

/-- The key of an addition is made by it. -/
theorem externalKey_madeBy (times : ∀ n, IsTime (env.clock n)) {self : KeyManager}
    (numbers : makers.length = self.world.serials) (keyValue : CString) (status : KeyStatus)
    : MadeBy (makers ++ [.addition (int32 (self.seq + 1))])
        { KeyManager.externalKey env self keyValue with status := status }
      ∧ (makers ++ [Maker.addition (int32 (self.seq + 1))])[
          (KeyManager.externalKey env self keyValue).serial]?
        = some (.addition (int32 (self.seq + 1))) := by
  let maker := Maker.addition (int32 (self.seq + 1))
  have uncut : fit keyIdMaxLen (maker.text (env.clock self.world.readings))
      = maker.text (env.clock self.world.readings) :=
    Maker.fit_text trivial (times _)
  have found : (makers ++ [maker])[(KeyManager.externalKey env self keyValue).serial]?
      = some maker := by
    have serial : (KeyManager.externalKey env self keyValue).serial = makers.length := by
      rw [numbers]
      rfl
    rw [serial, List.getElem?_concat_length]
  refine ⟨⟨times _, maker, found, trivial, ?_⟩, found⟩
  exact (congrArg (fit keyIdMaxLen) uncut).trans uncut

/-- After an addition the list has its key behind the others, which differ from it unless they
clash. A list that cannot grow keeps its identifiers.
-/
theorem Identifies.addExternalKey (now : s.Identifies) (times : ∀ n, IsTime (env.clock n))
    {keyValue : CString} (avoids : s.avoidsClash env (.addExternalKey keyValue))
    {after : KeyManager} (inited : s.manager.isInited = true)
    (ran : s.manager.call env (.addExternalKey keyValue) = .ok after)
    : Identifies ⟨after, s.makers ++ newMakers (.addExternalKey keyValue) s.manager after⟩ := by
  obtain ⟨keys, stores, identified⟩ := now.stored
  obtain ⟨keys', effect⟩ := stores.addition_effect inited ran
  have stores' := effect.stores stores
  have later := effect.later
  cases effect with
  | idle idles => simp [Call.idles, Call.skipped, inited] at idles
  | @extended _ w' list' front key _ represents readings serials represents' origin =>
      refine now.after later now.few stores' ?_
      have makers : newMakers (.addExternalKey keyValue) s.manager {
          s.manager with world := w', localKeys := list', seq := int32 (s.manager.seq + 1) }
          = [.addition (int32 (s.manager.seq + 1))] := by
        simp [newMakers, serials]
      rw [makers]
      have serial := now.recorded
      rcases origin with ⟨-, rfl, rfl⟩ | ⟨-, rfl⟩
      · obtain ⟨made, isNew⟩ := externalKey_madeBy times serial keyValue (statusAt
          (KeyManager.externalKey env s.manager keyValue) s.manager.config
          (env.clock (s.manager.world.readings + 1)))
        refine (identified.extend _).append
          ⟨fun key inside => List.mem_singleton.mp inside ▸ made, List.pairwise_singleton _ _⟩ ?_
        intro key inside key' new same
        obtain rfl := List.mem_singleton.mp new
        have made' := identified.made key inside
        obtain ⟨maker, found, -⟩ := made'.maker
        obtain ⟨time, clashes⟩ := (made'.keyId_eq_iff made found isNew).mp same
        exact avoids front represents key inside maker found clashes time
      · exact (identified.extend _).of_identities (by simp [KeyInfo.identity, updateKeyStatus])

/-- A call that initialises no key records none. -/
theorem newMakers_same (call : Call) {before after : KeyManager}
    (same : after.world.serials = before.world.serials)
    : newMakers call before after = [] := by
  cases call <;> simp [newMakers, same]

/-- A call that leaves an empty list. -/
theorem Identifies.emptied (now : s.Identifies) {call : Call} {after : KeyManager}
    (same : after.world.serials = s.manager.world.serials)
    (few : after.config.validThreshold ≤ intMax) (empty : after.localKeys = .init)
    : Identifies ⟨after, s.makers ++ newMakers call s.manager after⟩ where
  recorded := by
    rw [newMakers_same call same, List.append_nil, now.recorded, same]
  few := few
  stored := ⟨[], .inl (empty ▸ KeyInfoList.init_represents _), .nil _⟩

/-- Every call that avoids a clash leaves the stored keys identified. -/
theorem Identifies.call (now : s.Identifies) (times : ∀ n, IsTime (env.clock n))
    (small : env.defaultConfig.validThreshold ≤ intMax) {call : Call}
    (turnsOver : Pool.turnsOver call = true) (avoids : s.avoidsClash env call)
    (ran : s.call env call = .ok s')
    : s'.Identifies := by
  obtain ⟨after, called, rfl⟩ := of_map ran
  obtain ⟨keys, stores, -⟩ := now.stored
  obtain ⟨keys', effect⟩ := stores.effect called
  cases effect with
  | idle idles =>
      have none_new : newMakers call s.manager s.manager = [] := newMakers_same call rfl
      simpa [none_new] using now
  | begun fresh later new represents => exact now.init times small fresh called
  | cleared inited | checked inited => exact now.checkAllKeys times avoids inited called
  | extended inited => exact now.addExternalKey times avoids inited called
  | marked => cases turnsOver
  | reset calls => exact now.emptied calls.serials small rfl
  | stopped calls => exact now.emptied calls.serials now.few rfl

/-- Different entries of identified keys have different identifiers. -/
theorem Identifies.different (now : s.Identifies) {i j : Nat} {key key' : KeyInfo}
    (found : s.manager.keyAt i = some key) (found' : s.manager.keyAt j = some key')
    (other : i ≠ j)
    : key.keyId ≠ key'.keyId := by
  obtain ⟨keys, stores, -, different⟩ := now.stored
  rw [stores.keyAt_eq] at found found'
  obtain ⟨less, rfl⟩ := List.getElem?_eq_some_iff.mp found
  obtain ⟨less', rfl⟩ := List.getElem?_eq_some_iff.mp found'
  have ordered := List.pairwise_iff_getElem.mp different
  rcases Nat.lt_or_gt_of_ne other with before | behind
  · exact ordered i j less less' before
  · exact (ordered j i less' less behind).symm

end Pool

-----------------------------------------------------------------------------------------
-- Calls with a clash
-----------------------------------------------------------------------------------------

namespace Pool

variable {s s' : Pool}

/-- The keys behind the list of an identified state are identified. -/
theorem Identifies.identified (now : s.Identifies)
    (represents : s.manager.localKeys.Represents s.manager.world.memory keys)
    : Identified s.makers keys := by
  obtain ⟨keys', stores, identified⟩ := now.stored
  have same : keys' = keys := by
    refine List.ext_getElem? (fun i => ?_)
    rw [← stores.keyAt_eq, KeyManager.keyAt_eq represents]
  exact same ▸ identified

/-- With a list that takes the key, an addition leaves the keys identified exactly when it
avoids a clash.
-/
theorem addition_identifies_iff (now : s.Identifies) (times : ∀ n, IsTime (env.clock n))
    {keyValue : CString} (inited : s.manager.isInited = true)
    (taken : (s.manager.localKeys.room s.manager.world).takes env = true) {after : KeyManager}
    (ran : s.manager.call env (.addExternalKey keyValue) = .ok after)
    : Identifies ⟨after, s.makers ++ newMakers (.addExternalKey keyValue) s.manager after⟩
      ↔ s.avoidsClash env (.addExternalKey keyValue) := by
  refine ⟨fun next keys stores key inside maker found clashes time => ?_,
    fun avoids => now.addExternalKey times avoids inited ran⟩
  rcases KeyManager.addExternalKey_spec env keyValue inited stores with
    ⟨w', list', front, key', ran', -, -, represents, ⟨-, rfl, rfl⟩ | ⟨refused, -⟩⟩
    | ⟨refused, -, -⟩
  · obtain rfl := Except.ok.inj (ran.symm.trans (congrArg (Except.map Prod.snd) ran'))
    have different := (List.pairwise_append.mp (next.identified represents).different).2.2
    obtain ⟨made, isNew⟩ := externalKey_madeBy times now.recorded keyValue (statusAt
      (KeyManager.externalKey env s.manager keyValue) s.manager.config
      (env.clock (s.manager.world.readings + 1)))
    have made' := (now.identified stores).made key inside
    exact different key inside _ (List.mem_singleton_self _)
      ((made'.keyId_eq_iff made found isNew).mpr ⟨time, clashes⟩)
  · cases taken.symm.trans refused
  · cases taken.symm.trans refused

/-- With all requested keys stored, a check that keeps a key leaves the keys identified exactly
when it avoids a clash.
-/
theorem check_identifies_iff (now : s.Identifies) (times : ∀ n, IsTime (env.clock n))
    (inited : s.manager.isInited = true)
    (stores : s.manager.localKeys.Represents s.manager.world.memory keys)
    (some_kept : KeyManager.survivors env s.manager keys ≠ [] ∨ keys = [])
    (whole : KeyManager.checkAdds env s.manager keys
      = requested env (s.manager.afterUpdate keys)
        (KeyManager.needed s.manager.config (KeyManager.survivors env s.manager keys)))
    {after : KeyManager} (ran : s.manager.checkAllKeys env = .ok after)
    : Identifies ⟨after, s.makers ++ newMakers .checkAllKeys s.manager after⟩
      ↔ s.avoidsClash env .checkAllKeys := by
  refine ⟨fun next keys' stores' key stays maker found i less clashes time => ?_,
    fun avoids => now.checkAllKeys times avoids inited ran⟩
  obtain rfl := KeyManager.represented_unique stores stores'
  obtain ⟨w', list', added, ran', -, -, new, represents, origin⟩ :=
    KeyManager.checkAllKeys_spec env inited stores some_kept
  obtain rfl := Except.ok.inj (ran.symm.trans ran')
  have numbers : s.makers.length = (s.manager.afterUpdate keys).serials := now.recorded
  have few := needed_le now.few (KeyManager.survivors env s.manager keys)
  have inside : requestedKey env (s.manager.afterUpdate keys) i ∈ added := by
    rw [origin, whole]
    exact mem_requested.mpr ⟨i, less, rfl⟩
  have early : i < w'.serials - s.manager.world.serials := by
    have before := (new.since _ inside).2
    have serial : (requestedKey env (s.manager.afterUpdate keys) i).serial
        = s.manager.world.serials + i := rfl
    omega
  obtain ⟨made, isNew⟩ := requestedKey_madeBy times numbers few less early
  have different := (List.pairwise_append.mp (next.identified represents).different).2.2
  have made' := (now.identified stores).survivors.made key stays
  exact different key stays _ inside
    ((made'.keyId_eq_iff made found isNew).mpr ⟨time, clashes⟩)

end Pool

-----------------------------------------------------------------------------------------
-- Runs
-----------------------------------------------------------------------------------------

/-- Every sequence of calls that make and drop keys is one with a record of the keys. -/
theorem pools_of_calls {self : KeyManager}
    (reached : ((calls env).restrict (fun _ call => Pool.turnsOver call)).Reachable self)
    : ∃ makers, (pools env).Reachable ⟨self, makers⟩ := by
  refine Lts.Reachable.induct (fun self => ∃ makers, (pools env).Reachable ⟨self, makers⟩)
    ?_ ?_ reached
  · rintro self rfl
    exact ⟨[], .start rfl⟩
  · rintro self call after - ⟨makers, reached⟩ ⟨turnsOver, ran⟩
    have ran : self.call env call = .ok after := ran
    have recorded : Pool.call env ⟨self, makers⟩ call
        = .ok ⟨after, makers ++ Pool.newMakers call self after⟩ :=
      congrArg (Except.map _) ran
    have step : (pools env).next ⟨self, makers⟩ call _ := ⟨turnsOver, recorded⟩
    exact ⟨_, reached.next step⟩

/-- In every run that avoids clashes the stored keys stay identified. -/
theorem avoidsClash_identifies (times : ∀ n, IsTime (env.clock n))
    (small : env.defaultConfig.validThreshold ≤ intMax)
    : ((pools env).restrict (Pool.avoidsClash env)).Invariant Pool.Identifies where
  init s start := by
    obtain rfl := start
    exact ⟨rfl, by decide, [], .inl (KeyInfoList.init_represents _), .nil _⟩
  step s call s' identifies step := by
    obtain ⟨avoids, turnsOver, ran⟩ := step
    exact identifies.call times small turnsOver avoids ran

/-- All keys have different identifiers as long as no call makes a key at the same time as a
stored one with a maker that clashes.
-/
theorem avoidsClash_uniqueIds (env : Env) (times : ∀ n, IsTime (env.clock n))
    (small : env.defaultConfig.validThreshold ≤ intMax)
    : UniqueIds ((pools env).restrict (Pool.avoidsClash env)) := by
  intro s i j key key' reached found found' other
  exact ((avoidsClash_identifies times small).reachable reached).different found found' other

theorem standstill_uniqueIds
    : UniqueIds ((pools standstill).restrict (Pool.avoidsClash standstill)) :=
  avoidsClash_uniqueIds standstill (fun _ => (rfl : int64 1000 = 1000)) (by decide)

-----------------------------------------------------------------------------------------
-- A run with two requests in one second
-----------------------------------------------------------------------------------------

/-- The third of the first keys is made one second after the others. The first check finds the
others frozen and makes up for them in the next second, in which the second check finds the
third frozen too.
-/
def staggered : Env where
  clock n := if n < 2 then 1000 else if n = 2 then 1001 else if n < 6 then 1060 else 1061
  grants _ := true
  creates _ := true
  defaultConfig := defaultConfig

theorem staggered_monotone : Monotone staggered.clock := by
  intro m n less
  simp only [staggered]
  split_ifs <;> omega

/-- Each of the two checks makes up for keys that were just frozen. -/
def twoBatches : Pool :=
  Option.get
    (Lts.execute (Pool.step staggered) .init [.init, .checkAllKeys, .checkAllKeys])
    (by decide +kernel)

/-- Not in every run are the identifiers unique: every request counts its keys from one, and
the times of two requests need not differ.
-/
theorem twoBatches_notUnique
    : ¬ ∀ env, Monotone env.clock → (∀ n, IsTime (env.clock n)) →
        (∀ n, env.grants n = true) → (∀ n, env.creates n = true) →
        0 < env.defaultConfig.keyValidity → env.defaultConfig.validThreshold ≤ intMax →
        UniqueIds (pools env) := by
  intro unique
  have reached : (pools staggered).Reachable twoBatches :=
    ⟨.init, rfl, Lts.execute_steps Pool.step_sound (Option.some_get _).symm⟩
  have same : (twoBatches.manager.keyAt 3).map KeyInfo.keyId
      = (twoBatches.manager.keyAt 5).map KeyInfo.keyId := by decide +kernel
  have stored : (twoBatches.manager.keyAt 3).isSome ∧ (twoBatches.manager.keyAt 5).isSome := by
    decide +kernel
  obtain ⟨key, found⟩ := Option.isSome_iff_exists.mp stored.1
  obtain ⟨key', found'⟩ := Option.isSome_iff_exists.mp stored.2
  rw [found, found'] at same
  have times (n : Nat) : IsTime (staggered.clock n) := by
    simp only [staggered]
    split_ifs <;> rfl
  exact unique staggered staggered_monotone times (fun _ => rfl) (fun _ => rfl) (by decide)
    (by decide) twoBatches 3 5 key key' reached found found' (by decide) (Option.some.inj same)

end QKeySys.KeyPool
