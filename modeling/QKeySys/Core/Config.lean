import Mathlib.Data.List.Induction
import QKeySys.Core.Event
import QKeySys.Library.Strings

/-! The configuration and its two sources, the environment and the command line. The options
are compared with the reference that applies one setting after the other.
-/

namespace QKeySys.Core

open QKeySys.Library

/-- The bytes of a C string before its terminator, as characters. -/
abbrev CString := List Char

inductive SimMode where
  | off
  | master
  | slave
  | mixed
  deriving DecidableEq, Repr

structure Config where
  role : Role
  simEnabled : Bool
  simMode : SimMode
  runSeconds : Int
  deriving DecidableEq, Repr

/-- The four settings of the configuration. -/
inductive Setting where
  | role
  | sim
  | simMode
  | runSeconds
  deriving DecidableEq, Repr

-----------------------------------------------------------------------------------------
-- Values
-----------------------------------------------------------------------------------------

/-- The value is one of two spellings. -/
def oneOf (v : CString) (lower upper : String) : Bool := v = lower.toList ∨ v = upper.toList

def roleOf (r : CString) : Role := if oneOf r "b" "B" then .b else .a

def simOf (v : CString) : Bool := oneOf v "on" "ON"

/-- The mode that `qks_config_load_env` reads, in lower or in upper case. -/
def envModeOf (mode : CString) : SimMode :=
  if oneOf mode "master" "MASTER" then .master
  else if oneOf mode "slave" "SLAVE" then .slave
  else .mixed

/-- The mode that `qks_config_parse_args` reads, in lower case only. -/
def argModeOf (v : CString) : SimMode :=
  if v = "master".toList then .master
  else if v = "slave".toList then .slave
  else .mixed

section Parsing

variable (atoi : CString → Int)

-----------------------------------------------------------------------------------------
-- Environment
-----------------------------------------------------------------------------------------

/-- The variable of a setting. -/
def Setting.variable : Setting → String
  | .role => "QKS_ROLE"
  | .sim => "QKS_SIM"
  | .simMode => "QKS_SIM_MODE"
  | .runSeconds => "QKS_RUN_SECONDS"

/-- `qks_config_load_env`; a variable that is not set leaves the default. -/
def loadEnv (getenv : String → Option CString) (_ : Config) : Config where
  role := (getenv Setting.role.variable).elim .a roleOf
  simEnabled := (getenv Setting.sim.variable).elim false simOf
  simMode := (getenv Setting.simMode.variable).elim .mixed envModeOf
  runSeconds := (getenv Setting.runSeconds.variable).elim 0 atoi

-----------------------------------------------------------------------------------------
-- Command line
-----------------------------------------------------------------------------------------

/-- `argv[i]`; behind the last argument there is none. -/
def argument (argv : List CString) (i : Nat) : Except Fault CString :=
  match argv[i]? with
  | some arg => .ok arg
  | none => .error .outside

/-- The two branches of an option: `--key value`, which uses the next argument up, and
`--key=value`, recognised by its first `n` characters and read behind them.
-/
def option (argv : List CString) (i : Nat) (arg name equals : CString) (n : Nat)
    (set : CString → Config) (otherwise : Except Fault (Config × Nat))
    : Except Fault (Config × Nat) :=
  if arg = name ∧ i + 1 < argv.length then
    (argument argv (i + 1)).map (fun v => (set v, i + 1))
  else if Strings.samePrefix n arg equals then
    (Strings.offset arg n).map (fun v => (set v, i))
  else
    otherwise

/-- One turn of the loop of `qks_config_parse_args`, with the index it leaves. The length given
for `--sim-mode=` is one too many.
-/
def parseArg (argv : List CString) (cfg : Config) (i : Nat) : Except Fault (Config × Nat) :=
  (argument argv i).bind (fun arg =>
    option argv i arg "--role".toList "--role=".toList 7
      (fun r => { cfg with role := roleOf r }) <|
    option argv i arg "--sim".toList "--sim=".toList 6
      (fun v => { cfg with simEnabled := simOf v }) <|
    option argv i arg "--sim-mode".toList "--sim-mode=".toList 12
      (fun v => { cfg with simMode := argModeOf v }) <|
    option argv i arg "--run-seconds".toList "--run-seconds=".toList 14
      (fun v => { cfg with runSeconds := atoi v }) <|
    .ok (cfg, i))

/-- The loop from an index on, for at most the given number of turns. -/
def parseFrom (argv : List CString) : (turns : Nat) → Config → (i : Nat) → Except Fault Config
  | 0, _, _ => .error .outside
  | turns + 1, cfg, i =>
      if i < argv.length then
        (parseArg atoi argv cfg i).bind (fun (cfg, i) => parseFrom argv turns cfg (i + 1))
      else
        .ok cfg

/-- `qks_config_parse_args`; every turn advances the index, so that the arguments bound the
number of turns.
-/
def parseArgs (cfg : Config) (argv : List CString) : Except Fault Config :=
  parseFrom atoi argv (argv.length + 1) cfg 1

-----------------------------------------------------------------------------------------
-- Reference
-----------------------------------------------------------------------------------------

/-- What setting one value does to the configuration. -/
def Config.apply (cfg : Config) (setting : Setting) (v : CString) : Config :=
  match setting with
  | .role => { cfg with role := roleOf v }
  | .sim => { cfg with simEnabled := simOf v }
  | .simMode => { cfg with simMode := argModeOf v }
  | .runSeconds => { cfg with runSeconds := atoi v }

/-- The name of an option. -/
def Setting.name : Setting → String
  | .role => "--role"
  | .sim => "--sim"
  | .simMode => "--sim-mode"
  | .runSeconds => "--run-seconds"

/-- Two configurations have the same value of a setting. -/
def Config.Agrees (cfg cfg' : Config) : Setting → Prop
  | .role => cfg.role = cfg'.role
  | .sim => cfg.simEnabled = cfg'.simEnabled
  | .simMode => cfg.simMode = cfg'.simMode
  | .runSeconds => cfg.runSeconds = cfg'.runSeconds

/-- The two ways to write an option with its value. -/
inductive Form where
  | separate
  | joined
  deriving DecidableEq, Repr

structure OptionPair where
  setting : Setting
  value : CString
  form : Form
  deriving DecidableEq, Repr

/-- The arguments that stand for a pair. -/
def OptionPair.render (pair : OptionPair) : List CString :=
  match pair.form with
  | .separate => [pair.setting.name.toList, pair.value]
  | .joined => [pair.setting.name.toList ++ '=' :: pair.value]

/-- The reference: the pairs are applied from left to right. -/
def Config.applyAll (cfg : Config) (pairs : List OptionPair) : Config :=
  pairs.foldl (fun cfg pair => cfg.apply atoi pair.setting pair.value) cfg

/-- The mode that the last pair for the mode gives. -/
def modeAfter (start : SimMode) (pairs : List OptionPair) : SimMode :=
  (pairs.filter (·.setting = .simMode)).getLast?.elim start (fun pair => argModeOf pair.value)

/-- A pair is heard unless it gives the mode in one argument. -/
def OptionPair.heard (pair : OptionPair) : Bool :=
  !(pair.setting = .simMode ∧ pair.form = .joined)

/-- The one argument `--sim-mode=`, whose value is read behind the terminator. -/
def OptionPair.overrun (pair : OptionPair) : Bool :=
  pair.setting = .simMode ∧ pair.form = .joined ∧ pair.value = []

-----------------------------------------------------------------------------------------
-- One turn
-----------------------------------------------------------------------------------------

theorem argument_append (before : List CString) (arg : CString) (rest : List CString)
    : argument (before ++ arg :: rest) before.length = .ok arg := by
  simp [argument]

theorem argument_next (before : List CString) (arg v : CString) (rest : List CString)
    : argument (before ++ arg :: v :: rest) (before.length + 1) = .ok v := by
  simp [argument]

/-- A turn at an option with its value behind it applies the value and uses both up. -/
theorem parseArg_separate (before rest : List CString) (cfg : Config) (setting : Setting)
    (v : CString)
    : parseArg atoi (before ++ setting.name.toList :: v :: rest) cfg before.length
      = .ok (cfg.apply atoi setting v, before.length + 1) := by
  rw [parseArg, bind_ok (argument_append _ _ _)]
  cases setting <;>
    simp [option, Setting.name, argument_next, Strings.samePrefix, Config.apply, Except.map]

/-- A turn at one argument with the value behind the sign applies it, except for the mode. -/
theorem parseArg_joined (before rest : List CString) (cfg : Config) (setting : Setting)
    (v : CString)
    : parseArg atoi (before ++ (setting.name.toList ++ '=' :: v) :: rest) cfg before.length
      = if setting = .simMode then
          if v = [] then .error .outside else .ok (cfg, before.length)
        else
          .ok (cfg.apply atoi setting v, before.length) := by
  rw [parseArg, bind_ok (argument_append _ _ _)]
  cases setting <;>
    simp [option, Setting.name, Strings.samePrefix, Strings.offset, Config.apply, Except.map]
  split <;> simp_all

theorem parseFrom_turn (argv : List CString) (turns : Nat) (cfg : Config) {i : Nat}
    (inside : i < argv.length)
    : parseFrom atoi argv (turns + 1) cfg i
      = (parseArg atoi argv cfg i).bind (fun (cfg, i) => parseFrom atoi argv turns cfg (i + 1)) :=
  if_pos inside

/-- The turn at a pair, in either form: it is applied when it is heard, and the index moves
behind it.
-/
theorem parseFrom_pair (before rest : List CString) (cfg : Config) (pair : OptionPair)
    (turns : Nat)
    : parseFrom atoi (before ++ (pair.render ++ rest)) (turns + 1) cfg before.length
      = if pair.overrun then .error .outside
        else
          parseFrom atoi (before ++ (pair.render ++ rest)) turns
            (if pair.heard then cfg.apply atoi pair.setting pair.value else cfg)
            (before ++ pair.render).length := by
  obtain ⟨setting, v, form⟩ := pair
  cases form with
  | separate =>
      simp only [OptionPair.render, List.cons_append, List.nil_append]
      rw [parseFrom_turn atoi _ _ _ (by simp), bind_ok (parseArg_separate atoi _ _ _ _ _)]
      simp [OptionPair.overrun, OptionPair.heard]
  | joined =>
      simp only [OptionPair.render, List.cons_append, List.nil_append]
      rw [parseFrom_turn atoi _ _ _ (by simp), parseArg_joined]
      by_cases mode : setting = .simMode
      · by_cases empty : v = []
        · simp [OptionPair.overrun, mode, empty, Except.bind]
        · simp [OptionPair.overrun, OptionPair.heard, mode, empty, Except.bind]
      · simp [OptionPair.overrun, OptionPair.heard, mode, Except.bind]

-----------------------------------------------------------------------------------------
-- Whole command lines
-----------------------------------------------------------------------------------------

/-- The turns at a list of pairs, by induction on the list. -/
theorem parseFrom_render (before : List CString) (cfg : Config) (pairs : List OptionPair)
    (turns : Nat) (enough : pairs.length < turns)
    : parseFrom atoi (before ++ pairs.flatMap OptionPair.render) turns cfg before.length
      = if pairs.any OptionPair.overrun then .error .outside
        else .ok (cfg.applyAll atoi (pairs.filter OptionPair.heard)) := by
  induction pairs generalizing before cfg turns with
  | nil =>
      obtain ⟨turns, rfl⟩ := Nat.exists_eq_succ_of_ne_zero (Nat.ne_zero_of_lt enough)
      simp [parseFrom, Config.applyAll]
  | cons pair pairs ih =>
      obtain ⟨turns, rfl⟩ := Nat.exists_eq_succ_of_ne_zero (Nat.ne_zero_of_lt enough)
      rw [List.flatMap_cons, parseFrom_pair, List.any_cons]
      cases overrun : pair.overrun with
      | true => simp
      | false =>
          rw [if_neg Bool.false_ne_true, ← List.append_assoc,
            ih (before ++ pair.render) _ turns (Nat.lt_of_succ_lt_succ enough)]
          cases heard : pair.heard <;> simp [heard, Config.applyAll]

/-- Every pair takes up at least one argument. -/
theorem length_le_render (pairs : List OptionPair)
    : pairs.length ≤ (pairs.flatMap OptionPair.render).length := by
  induction pairs with
  | nil => simp
  | cons pair pairs ih =>
      have some_argument : 1 ≤ pair.render.length := by
        unfold OptionPair.render
        split <;> simp
      rw [List.flatMap_cons, List.length_append, List.length_cons]
      omega

/-- What the program reads from a command line of pairs. -/
theorem parseArgs_render (cfg : Config) (program : CString) (pairs : List OptionPair)
    : parseArgs atoi cfg (program :: pairs.flatMap OptionPair.render)
      = if pairs.any OptionPair.overrun then .error .outside
        else .ok (cfg.applyAll atoi (pairs.filter OptionPair.heard)) := by
  apply parseFrom_render atoi [program] cfg pairs
  have few := length_le_render pairs
  rw [List.length_cons]
  omega

/-- The mode that the reference ends with, by induction on the pairs from the last one on. -/
theorem applyAll_simMode (cfg : Config) (pairs : List OptionPair)
    : (cfg.applyAll atoi pairs).simMode = modeAfter cfg.simMode pairs := by
  induction pairs using List.reverseRecOn with
  | nil => rfl
  | append_singleton pairs pair ih =>
      have last
          : cfg.applyAll atoi (pairs ++ [pair])
            = (cfg.applyAll atoi pairs).apply atoi pair.setting pair.value := by
        simp [Config.applyAll]
      rw [last]
      cases setting : pair.setting <;> simp [Config.apply, modeAfter, setting] at ih ⊢
      all_goals exact ih

/-- The same value keeps two configurations equal but for the mode. -/
theorem apply_same {cfg cfg' : Config} {mode : SimMode}
    (same : cfg = { cfg' with simMode := mode }) (setting : Setting) (v : CString)
    : ∃ mode',
        cfg.apply atoi setting v = { cfg'.apply atoi setting v with simMode := mode' } := by
  subst same
  cases setting with
  | simMode => exact ⟨argModeOf v, rfl⟩
  | role | sim | runSeconds => exact ⟨mode, rfl⟩

/-- The pairs that are not heard only touch the mode, by induction on the pairs. -/
theorem applyAll_heard {cfg cfg' : Config} {mode : SimMode}
    (same : cfg = { cfg' with simMode := mode }) (pairs : List OptionPair)
    : ∃ mode',
        cfg.applyAll atoi (pairs.filter OptionPair.heard)
        = { cfg'.applyAll atoi pairs with simMode := mode' } := by
  induction pairs generalizing cfg cfg' mode with
  | nil => exact ⟨mode, same⟩
  | cons pair pairs ih =>
      cases heard : pair.heard with
      | true =>
          obtain ⟨mode', same'⟩ := apply_same atoi same pair.setting pair.value
          rw [List.filter_cons_of_pos heard]
          exact ih same'
      | false =>
          have setting : pair.setting = .simMode := by
            simp only [OptionPair.heard, Bool.not_eq_false', decide_eq_true_iff] at heard
            exact heard.1
          have same'
              : cfg
                = { cfg'.apply atoi pair.setting pair.value with simMode := mode } := by
            rw [setting, same]
            rfl
          rw [List.filter_cons_of_neg (by simp [heard])]
          exact ih same'

/-- The command line does what the reference says exactly if no pair is the bare
`--sim-mode=` and the last mode is one that was heard, or equal to the last that was.
-/
theorem parseArgs_render_iff (cfg : Config) (program : CString) (pairs : List OptionPair)
    : parseArgs atoi cfg (program :: pairs.flatMap OptionPair.render)
        = .ok (cfg.applyAll atoi pairs)
      ↔ (∀ pair ∈ pairs, pair.overrun = false)
        ∧ modeAfter cfg.simMode (pairs.filter OptionPair.heard)
          = modeAfter cfg.simMode pairs := by
  rw [parseArgs_render]
  cases overrun : pairs.any OptionPair.overrun with
  | true =>
      obtain ⟨pair, inside, bare⟩ := List.any_eq_true.mp overrun
      constructor
      · rintro ⟨⟩
      · rintro ⟨clean, _⟩
        cases bare.symm.trans (clean pair inside)
  | false =>
      have clean : ∀ pair ∈ pairs, pair.overrun = false := by simpa using overrun
      obtain ⟨mode, kept⟩ := applyAll_heard atoi (rfl : cfg = { cfg with simMode := _ }) pairs
      have last : modeAfter cfg.simMode (pairs.filter OptionPair.heard) = mode := by
        rw [← applyAll_simMode atoi, kept]
      rw [if_neg Bool.false_ne_true, kept, last, ← applyAll_simMode atoi cfg pairs]
      constructor
      · intro same
        exact ⟨clean, congrArg Config.simMode (Except.ok.inj same)⟩
      · rintro ⟨_, rfl⟩
        rfl

/-- Witness: `--sim-mode=slave` leaves the mode as it was, though `--sim-mode slave` sets it. -/
theorem parseArgs_mode_ignored
    : parseArgs (fun _ => 0) ⟨.a, false, .mixed, 0⟩
        ("qkeysys".toList :: [⟨.simMode, "slave".toList, .joined⟩].flatMap OptionPair.render)
      ≠ .ok (Config.applyAll (fun _ => 0) ⟨.a, false, .mixed, 0⟩
          [⟨.simMode, "slave".toList, .joined⟩]) := by
  intro same
  have modes := congrArg (fun result => result.toOption.map Config.simMode) same
  revert modes
  decide

-----------------------------------------------------------------------------------------
-- Arbitrary command lines
-----------------------------------------------------------------------------------------

/-- A branch that reads within its argument leaves a configuration and does not go back. -/
theorem option_ok {argv : List CString} {i : Nat} {arg name equals : CString} {n : Nat}
    {set : CString → Config} {otherwise : Except Fault (Config × Nat)}
    (reads : Strings.samePrefix n arg equals = true → ∃ v, Strings.offset arg n = .ok v)
    (others : ∃ cfg' i', otherwise = .ok (cfg', i') ∧ i ≤ i')
    : ∃ cfg' i', option argv i arg name equals n set otherwise = .ok (cfg', i') ∧ i ≤ i' := by
  unfold option
  split_ifs with separate joined
  · have next : argument argv (i + 1) = .ok argv[i + 1] := by
      rw [argument, List.getElem?_eq_getElem separate.2]
    exact ⟨set argv[i + 1], i + 1, by rw [next]; rfl, Nat.le_succ i⟩
  · obtain ⟨v, behind⟩ := reads joined
    exact ⟨set v, i, by rw [behind]; rfl, Nat.le_refl i⟩
  · exact others

/-- A turn at an argument other than the bare `--sim-mode=` reads nothing it should not. -/
theorem parseArg_ok {argv : List CString} (cfg : Config) {i : Nat} (inside : i < argv.length)
    (clean : argv[i] ≠ "--sim-mode=".toList)
    : ∃ cfg' i', parseArg atoi argv cfg i = .ok (cfg', i') ∧ i ≤ i' := by
  have behind {name : CString} {n : Nat} (length : n = name.length)
      (begins : Strings.samePrefix n argv[i] name = true)
      : ∃ v, Strings.offset argv[i] n = .ok v := by
    subst length
    obtain ⟨v, whole⟩ := Strings.samePrefix_name.mp begins
    exact ⟨v, by rw [whole, Strings.offset_name]⟩
  have here : argument argv i = .ok argv[i] := by
    rw [argument, List.getElem?_eq_getElem inside]
  rw [parseArg, bind_ok here]
  apply option_ok (behind (by decide))
  apply option_ok (behind (by decide))
  apply option_ok (fun bare => absurd (Strings.samePrefix_terminated.mp bare) clean)
  apply option_ok (behind (by decide))
  exact ⟨cfg, i, rfl, Nat.le_refl i⟩

/-- The loop ends with a configuration unless it meets the bare `--sim-mode=`, by induction on
the number of turns.
-/
theorem parseFrom_ok {argv : List CString} (clean : "--sim-mode=".toList ∉ argv)
    (turns : Nat) (cfg : Config) (i : Nat) (enough : argv.length - i < turns)
    : ∃ cfg', parseFrom atoi argv turns cfg i = .ok cfg' := by
  induction turns generalizing cfg i with
  | zero => exact absurd enough (Nat.not_lt_zero _)
  | succ turns ih =>
      by_cases inside : i < argv.length
      · have other : argv[i] ≠ "--sim-mode=".toList :=
          fun same => clean (same ▸ List.getElem_mem inside)
        obtain ⟨cfg', i', turn, forward⟩ := parseArg_ok atoi cfg inside other
        rw [parseFrom_turn atoi argv turns cfg inside, bind_ok turn]
        exact ih cfg' (i' + 1) (by omega)
      · exact ⟨cfg, by rw [parseFrom, if_neg inside]⟩

/-- Every command line without the bare `--sim-mode=` is read, within its arguments. -/
theorem parseArgs_ok {argv : List CString} (clean : "--sim-mode=".toList ∉ argv)
    (cfg : Config)
    : ∃ cfg', parseArgs atoi cfg argv = .ok cfg' := by
  apply parseFrom_ok atoi clean
  omega

-----------------------------------------------------------------------------------------
-- Environment and command line
-----------------------------------------------------------------------------------------

/-- An option read in one form sets the field to the value the environment gives it. -/
def AgreesWithEnv (getenv : String → Option CString) (cfg : Config) (program : CString)
    (pair : OptionPair) : Prop :=
  ∃ cfg', parseArgs atoi cfg (program :: pair.render) = .ok cfg' ∧
    cfg'.Agrees (loadEnv atoi getenv cfg) pair.setting

/-- What the program reads from one pair. -/
theorem parseArgs_pair (cfg : Config) (program : CString) (pair : OptionPair)
    : parseArgs atoi cfg (program :: pair.render)
      = if pair.overrun then .error .outside
        else .ok (if pair.heard then cfg.apply atoi pair.setting pair.value else cfg) := by
  have whole := parseArgs_render atoi cfg program [pair]
  simp only [List.flatMap_cons, List.flatMap_nil, List.append_nil] at whole
  rw [whole]
  cases heard : pair.heard <;> simp [Config.applyAll, heard]

/-- The two readings of a mode differ on the upper-case names. -/
theorem argModeOf_eq_iff (v : CString)
    : argModeOf v = envModeOf v ↔ v ≠ "MASTER".toList ∧ v ≠ "SLAVE".toList := by
  by_cases master : v = "MASTER".toList
  · subst master
    decide
  by_cases slave : v = "SLAVE".toList
  · subst slave
    decide
  simp only [argModeOf, envModeOf, oneOf, master, slave, or_false, decide_eq_true_iff, ne_eq,
    not_false_eq_true, and_self]

/-- The environment and the command line mean the same by a setting exactly if it is not the
mode, or is given in lower case, not empty, and already what the environment says.
-/
theorem agreesWithEnv_iff (getenv : String → Option CString) (cfg : Config)
    (program : CString) (setting : Setting) (v : CString)
    (given : getenv setting.variable = some v)
    : (∀ form, AgreesWithEnv atoi getenv cfg program ⟨setting, v, form⟩)
      ↔ setting ≠ .simMode
        ∨ v ≠ "MASTER".toList ∧ v ≠ "SLAVE".toList ∧ v ≠ [] ∧ cfg.simMode = envModeOf v := by
  have both (holds : Form → Prop) : (∀ form, holds form) ↔ holds .separate ∧ holds .joined :=
    ⟨fun all => ⟨all _, all _⟩, fun ⟨first, second⟩ form => by cases form <;> assumption⟩
  rw [both]
  simp only [AgreesWithEnv, parseArgs_pair]
  cases setting with
  | role | sim | runSeconds =>
      simp [OptionPair.overrun, OptionPair.heard, Config.apply, Config.Agrees, loadEnv, given]
  | simMode =>
      by_cases empty : v = []
      · simp [OptionPair.overrun, empty]
      · simp [OptionPair.overrun, OptionPair.heard, Config.apply, Config.Agrees, loadEnv, given,
          empty, argModeOf_eq_iff, and_assoc]

/-- Witness: the role may be given either way. -/
theorem agreesWithEnv_role
    : AgreesWithEnv (fun _ => 0) (fun name => if name = "QKS_ROLE" then some ['b'] else none)
        ⟨.a, false, .mixed, 0⟩ "qkeysys".toList ⟨.role, ['b'], .separate⟩
      ∧ AgreesWithEnv (fun _ => 0) (fun name => if name = "QKS_ROLE" then some ['b'] else none)
        ⟨.a, false, .mixed, 0⟩ "qkeysys".toList ⟨.role, ['b'], .joined⟩ := by
  have both := (agreesWithEnv_iff (fun _ => 0)
    (fun name => if name = "QKS_ROLE" then some ['b'] else none)
    ⟨.a, false, .mixed, 0⟩ "qkeysys".toList .role ['b'] rfl).mpr (.inl (by decide))
  exact ⟨both .separate, both .joined⟩

/-- Witness: `QKS_SIM_MODE=MASTER` means the master mode, `--sim-mode MASTER` the mixed one. -/
theorem agreesWithEnv_upper_case
    : ¬ AgreesWithEnv (fun _ => 0)
        (fun name => if name = "QKS_SIM_MODE" then some "MASTER".toList else none)
        ⟨.a, false, .mixed, 0⟩ "qkeysys".toList ⟨.simMode, "MASTER".toList, .separate⟩ := by
  rintro ⟨cfg', read, agrees⟩
  rw [parseArgs_pair] at read
  obtain rfl := Except.ok.inj read
  have modes : argModeOf "MASTER".toList = envModeOf "MASTER".toList := agrees
  exact absurd modes (by decide)

end Parsing

end QKeySys.Core
