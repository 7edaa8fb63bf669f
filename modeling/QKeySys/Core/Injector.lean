import QKeySys.Core.Preemption
import QKeySys.Library.Simulation

/-! The simulation: the injector thread beside the scheduling context, as the only source of
events. On side A it never causes a preemption, and on side B none of its events is dropped.
-/

namespace QKeySys.Core

open QKeySys.Library

-----------------------------------------------------------------------------------------
-- The injector thread
-----------------------------------------------------------------------------------------

/-- A call of `qks_inject_event` in `sim_thread`, and how often the thread sleeps behind it. -/
structure Injection where
  type : EventType
  dir : EventDir
  naps : Nat
  deriving DecidableEq, Repr

/-- What one round of the loop in `sim_thread` injects; `cycle` counts the rounds before. -/
def simRound (role : Role) (cycle : Nat) : List Injection :=
  match role with
  | .a =>
      [⟨.keyRefill, .slave, 3⟩]
        ++ (if cycle % 3 = 0 then [⟨.deviceAuth, .master, 6⟩] else [])
        ++ (if cycle % 5 = 0 then [⟨.clockSync, .master, 6⟩] else [])
  | .b => [⟨.keyRefill, .master, 2⟩, ⟨.deviceAuth, .slave, 2⟩, ⟨.clockSync, .slave, 6⟩]

/-- Program points of `sim_thread`: `loop` is the head of its outer loop, `round` stands
before the rest of a round, `napping` at the head of a sleeping loop with `left` rounds left.
-/
inductive SimPc where
  | starting
  | loop (cycle : Nat)
  | round (cycle : Nat) (rest : List Injection)
  | napping (cycle : Nat) (left : Nat) (rest : List Injection)
  | leaving
  | exited
  deriving DecidableEq, Repr

/-- The context beside the injector; `running` is `g_sim_running`. -/
structure Simulated where
  ctx : Ctx
  running : Bool
  sim : SimPc

/-- The step is a call of `qks_inject_event`. -/
def AtomicAction.injects : AtomicAction → Bool
  | .single (.inject _ _ _ _) => true
  | _ => false

/-- The steps of the context other than injections, those of the injector, and
`qks_sim_injector_stop`.
-/
inductive SimAction where
  | system (action : AtomicAction)
  | sim (mallocOk : Bool)
  | stopInjector
  deriving DecidableEq, Repr

namespace Simulated

/-- `qks_sim_injector_start` has created the thread, which has not run yet. -/
def init (role : Role) : Simulated := ⟨.init role, false, .starting⟩

/-- The condition of all loops of the injector. -/
def goesOn (s : Simulated) : Bool := !s.ctx.stop && s.running

/-- The next step of `sim_thread`; a stop ends its sleeps, not its round. -/
def simStep (s : Simulated) (mallocOk : Bool) : Option Simulated :=
  match s.sim with
  | .starting => some { s with running := true, sim := .loop 0 }
  | .loop cycle =>
      let sim := if s.goesOn then .round cycle (simRound s.ctx.role cycle) else .leaving
      some { s with sim := sim }
  | .round cycle [] => some { s with sim := .loop (cycle + 1) }
  | .round cycle (next :: rest) =>
      some {
        s with
        ctx := (s.ctx.injectEvent next.type next.dir 0 mallocOk).2
        sim := .napping cycle next.naps rest
      }
  | .napping cycle left rest =>
      let sim :=
        if 0 < left ∧ s.goesOn = true then .napping cycle (left - 1) rest
        else .round cycle rest
      some { s with sim := sim }
  | .leaving => some { s with running := false, sim := .exited }
  | .exited => none

def step (s : Simulated) : SimAction → Option Simulated
  | .system action =>
      if action.injects then none
      else (s.ctx.atomicStep action).map (fun c => { s with ctx := c })
  | .sim mallocOk => s.simStep mallocOk
  | .stopInjector => some { s with running := false }

/-- The step meets a condition on the context before it. -/
def Meets (cond : Ctx → AtomicAction → Prop) (s : Simulated) : SimAction → Prop
  | .system action => cond s.ctx action
  | .sim mallocOk => ∀ type dir, cond s.ctx (.single (.inject type dir 0 mallocOk))
  | .stopInjector => True

end Simulated

/-- All interleavings of the injector with the other threads whose steps meet a condition. -/
def simulated (role : Role) (cond : Ctx → AtomicAction → Prop) : Lts Simulated SimAction :=
  (Lts.ofFunction (Simulated.init role) Simulated.step).restrict (Simulated.Meets cond)

-----------------------------------------------------------------------------------------
-- Its script
-----------------------------------------------------------------------------------------

/-- What the first rounds inject, one after the other. -/
def simScript (role : Role) (cycles : Nat) : List Injection :=
  (List.range cycles).flatMap (simRound role)

theorem simScript_succ (role : Role) (cycle : Nat)
    : simScript role (cycle + 1) = simScript role cycle ++ simRound role cycle := by
  simp [simScript, List.range_succ]

/-- The events that the role starts itself; the other side starts the other ones. -/
def Role.initiates : Role → EventType → Prop
  | .a, type => type = .deviceAuth ∨ type = .clockSync
  | .b, type => type = .keyRefill

/-- An event of an enumerated type, MASTER on the side that starts it. -/
structure OfSide (role : Role) (type : EventType) (dir : EventDir) : Prop where
  known : type.known
  master : dir = .master ↔ role.initiates type

/-- The script keeps to the events of its side, by cases on the role. -/
theorem simScript_ofSide {role : Role} {cycles : Nat} {injection : Injection}
    (member : injection ∈ simScript role cycles)
    : OfSide role injection.type injection.dir := by
  obtain ⟨cycle, -, member⟩ := List.mem_flatMap.mp member
  cases role with
  | a =>
      simp only [simRound, List.mem_append, List.mem_singleton, List.mem_ite_nil_right]
        at member
      rcases member with (rfl | ⟨-, rfl⟩) | ⟨-, rfl⟩ <;>
        constructor <;> simp [EventType.known, Role.initiates]
  | b =>
      simp only [simRound, List.mem_cons, List.not_mem_nil, or_false] at member
      rcases member with rfl | rfl | rfl <;>
        constructor <;> simp [EventType.known, Role.initiates]

/-- What the injector has offered at a program point. -/
def SimPc.Offered (role : Role) (offered : List Injection) : SimPc → Prop
  | starting => offered = []
  | loop cycle => offered = simScript role cycle
  | round cycle rest | napping cycle _ rest => offered ++ rest = simScript role (cycle + 1)
  | leaving | exited => ∃ cycle, offered = simScript role cycle

/-- What was offered is the beginning of the script. -/
theorem SimPc.Offered.isPrefix {role : Role} {offered : List Injection} {pc : SimPc}
    (now : pc.Offered role offered)
    : ∃ cycles, offered <+: simScript role cycles := by
  cases pc with
  | starting => exact ⟨0, now ▸ List.nil_prefix⟩
  | loop cycle => exact ⟨cycle, now ▸ List.prefix_rfl⟩
  | round cycle rest | napping cycle left rest => exact ⟨cycle + 1, rest, now⟩
  | leaving | exited =>
      obtain ⟨cycle, rfl⟩ := now
      exact ⟨cycle, List.prefix_rfl⟩

/-- The offered events are the beginning of the script, numbered in its order. -/
structure Simulated.Follows (role : Role) (offered : List Injection) (s : Simulated)
    : Prop where
  side : s.ctx.role = role
  begins : s.sim.Offered role offered
  attempts : s.ctx.log.attempts = offered.length
  injected
    : ∀ e ∈ s.ctx.log.injected, ∃ n injection,
        e.id = n + 1 ∧ offered[n]? = some injection
        ∧ e.type = injection.type ∧ e.dir = injection.dir

-----------------------------------------------------------------------------------------
-- What the injector adds to the system
-----------------------------------------------------------------------------------------

namespace Ctx

variable {c c' : Ctx}

/-- The side and the list of arrivals are as before. -/
structure SameArrivals (c c' : Ctx) : Prop where
  role : c'.role = c.role
  attempts : c'.log.attempts = c.log.attempts
  injected : c'.log.injected = c.log.injected

/-- Only an injection touches the arrivals, by cases on the action. -/
theorem step_sameArrivals {action : Action} (step : c.step action = some c')
    (other : (AtomicAction.single action).injects = false)
    : c.SameArrivals c' := by
  cases action with
  | inject type dir payload mallocOk => cases other
  | sched ok => cases schedStep_move step <;> exact ⟨rfl, rfl, rfl⟩
  | schedReturn =>
      rcases schedReturn_cases step with ⟨_, rfl⟩ | ⟨_, rfl⟩ <;> exact ⟨rfl, rfl, rfl⟩
  | init k =>
      obtain ⟨t, _, move⟩ := initStep_move step
      cases move <;> exact ⟨rfl, rfl, rfl⟩
  | cancel k =>
      obtain ⟨t, _, _, _, rfl⟩ := cancelEffect_cases step
      exact ⟨rfl, rfl, rfl⟩
  | dispatcher =>
      obtain ⟨x, _, rfl⟩ := Option.map_eq_some_iff.mp step
      split <;> exact ⟨rfl, rfl, rfl⟩
  | dispatcherReturn | worker i | workerReturn i =>
      obtain ⟨x, _, rfl⟩ := Option.map_eq_some_iff.mp step
      exact ⟨rfl, rfl, rfl⟩
  | requestStop =>
      obtain rfl := Option.some.inj step
      exact ⟨rfl, rfl, rfl⟩

theorem atomicStep_sameArrivals {action : AtomicAction} (step : c.atomicStep action = some c')
    (other : action.injects = false)
    : c.SameArrivals c' := by
  cases action with
  | single action => exact step_sameArrivals step other
  | sendAct k =>
      obtain ⟨t, _, _, rfl⟩ := sendAct_eq step
      exact ⟨rfl, rfl, rfl⟩

end Ctx

namespace Simulated

variable {role : Role} {cond : Ctx → AtomicAction → Prop} {s s' : Simulated}
variable {offered : List Injection}

/-- An injection is the next one of the script. -/
theorem Follows.inject (now : s.Follows role offered) {cycle : Nat} {next : Injection}
    {rest : List Injection} (pc : s.sim = .round cycle (next :: rest)) (mallocOk : Bool)
    : Follows role (offered ++ [next]) {
        s with
        ctx := (s.ctx.injectEvent next.type next.dir 0 mallocOk).2
        sim := .napping cycle next.naps rest
      } := by
  obtain ⟨side, begins, attempts, injected⟩ := now
  rw [pc] at begins
  constructor
  case side => exact side
  case begins => simpa [SimPc.Offered] using begins
  case attempts => simpa [Ctx.injectEvent] using attempts
  case injected =>
    have before : ∀ e ∈ s.ctx.log.injected, ∃ n injection,
        e.id = n + 1 ∧ (offered ++ [next])[n]? = some injection
        ∧ e.type = injection.type ∧ e.dir = injection.dir := by
      intro e member
      obtain ⟨n, injection, id, entry, fields⟩ := injected e member
      have short := (List.getElem?_eq_some_iff.mp entry).1
      exact ⟨n, injection, id, by rwa [List.getElem?_append_left short], fields⟩
    cases mallocOk with
    | false => exact before
    | true =>
        intro e member
        rcases List.mem_append.mp member with earlier | last
        · exact before e earlier
        · obtain rfl := List.mem_singleton.mp last
          exact ⟨offered.length, next, congrArg (· + 1) attempts, by simp, rfl, rfl⟩

/-- Every step keeps to the script, by cases on the program point of the injector. -/
theorem Follows.step (now : s.Follows role offered) {action : SimAction}
    (step : s.step action = some s')
    : ∃ more, s'.Follows role (offered ++ more) := by
  have walk {running : Bool} {sim : SimPc} (begins : sim.Offered role offered)
      : ∃ more, Follows role (offered ++ more) { s with running := running, sim := sim } :=
    ⟨[], now.side, by simpa using begins, by simpa using now.attempts,
      by simpa using now.injected⟩
  have begins := now.begins
  cases action with
  | system action =>
      simp only [Simulated.step] at step
      split at step
      case isTrue => cases step
      case isFalse other =>
        obtain ⟨c, taken, rfl⟩ := Option.map_eq_some_iff.mp step
        have same := Ctx.atomicStep_sameArrivals taken (by simpa using other)
        refine ⟨[], same.role.trans now.side, by simpa using begins, ?_, ?_⟩
        · simpa [same.attempts] using now.attempts
        · simpa [same.injected] using now.injected
  | stopInjector =>
      obtain rfl := Option.some.inj step
      exact walk begins
  | sim mallocOk =>
      change s.simStep mallocOk = some s' at step
      cases pc : s.sim with
      | starting =>
          simp only [simStep, pc, Option.some.injEq] at step begins
          subst step
          exact walk (by simpa [SimPc.Offered, simScript] using begins)
      | loop cycle =>
          simp only [simStep, pc, Option.some.injEq] at step begins
          subst step
          refine walk ?_
          rw [now.side]
          split
          · simp only [SimPc.Offered] at begins ⊢
            rw [begins, simScript_succ]
          · exact ⟨cycle, begins⟩
      | round cycle rest =>
          cases rest with
          | nil =>
              simp only [simStep, pc, Option.some.injEq] at step begins
              subst step
              exact walk (by simpa [SimPc.Offered] using begins)
          | cons next rest =>
              simp only [simStep, pc, Option.some.injEq] at step
              subst step
              exact ⟨[next], now.inject pc mallocOk⟩
      | napping cycle left rest =>
          simp only [simStep, pc, Option.some.injEq] at step begins
          subst step
          refine walk ?_
          split <;> exact begins
      | leaving =>
          simp only [simStep, pc, Option.some.injEq] at step begins
          subst step
          exact walk begins
      | exited => simp [simStep, pc] at step

end Simulated

/-- In every run the events are those of the script, in its order. -/
theorem simulated_follows {role : Role} {cond : Ctx → AtomicAction → Prop} {s : Simulated}
    (reached : (simulated role cond).Reachable s)
    : ∃ offered, s.Follows role offered := by
  refine Lts.Reachable.induct (fun s => ∃ offered, s.Follows role offered) ?_ ?_ reached
  · rintro _ rfl
    exact ⟨[], rfl, rfl, rfl, by simp [Simulated.init, Ctx.init]⟩
  · rintro s action s' - ⟨offered, now⟩ ⟨-, step⟩
    obtain ⟨more, follows⟩ := now.step step
    exact ⟨offered ++ more, follows⟩

/-- An injection is of an event of the side. -/
def AtomicAction.OfSide (role : Role) : AtomicAction → Prop
  | .single (.inject type dir _ _) => QKeySys.Core.OfSide role type dir
  | _ => True

theorem AtomicAction.ofSide_of_other {role : Role} {action : AtomicAction}
    (other : action.injects = false)
    : action.OfSide role := by
  unfold injects at other
  split at other
  case h_1 => cases other
  case h_2 no =>
    unfold OfSide
    split
    case h_1 type dir payload mallocOk => exact absurd rfl (no type dir payload mallocOk)
    case h_2 => trivial

/-- All runs of the context with events of one side, whose steps all meet a condition. -/
def sided (role : Role) (cond : Ctx → AtomicAction → Prop) : Lts Ctx AtomicAction :=
  (Lts.ofFunction (Ctx.init role) Ctx.atomicStep).restrict
    (fun c action => cond c action ∧ action.OfSide role)

/-- A step leaves the context alone or is one of the context, with an event of the side, by
cases on the program point of the injector.
-/
theorem Simulated.Follows.step_ctx {role : Role} {offered : List Injection}
    {cond : Ctx → AtomicAction → Prop} {s s' : Simulated} (now : s.Follows role offered)
    {action : SimAction} (met : s.Meets cond action) (step : s.step action = some s')
    : s'.ctx = s.ctx
      ∨ ∃ inner, (cond s.ctx inner ∧ inner.OfSide role)
          ∧ s.ctx.atomicStep inner = some s'.ctx := by
  cases action with
  | system action =>
      simp only [Simulated.step] at step
      split at step
      case isTrue => cases step
      case isFalse other =>
        obtain ⟨c, taken, rfl⟩ := Option.map_eq_some_iff.mp step
        have side : action.OfSide role :=
          AtomicAction.ofSide_of_other (by simpa using other)
        exact .inr ⟨action, ⟨met, side⟩, taken⟩
  | stopInjector =>
      obtain rfl := Option.some.inj step
      exact .inl rfl
  | sim mallocOk =>
      change s.simStep mallocOk = some s' at step
      cases pc : s.sim with
      | round cycle rest =>
          cases rest with
          | nil =>
              simp only [Simulated.simStep, pc, Option.some.injEq] at step
              subst step
              exact .inl rfl
          | cons next rest =>
              simp only [Simulated.simStep, pc, Option.some.injEq] at step
              subst step
              have begins := now.begins
              rw [pc] at begins
              change offered ++ next :: rest = _ at begins
              have member : next ∈ simScript role (cycle + 1) := by simp [← begins]
              exact .inr ⟨.single (.inject next.type next.dir 0 mallocOk),
                ⟨met _ _, simScript_ofSide member⟩, rfl⟩
      | exited => simp [Simulated.simStep, pc] at step
      | _ =>
          simp only [Simulated.simStep, pc, Option.some.injEq] at step
          subst step
          exact .inl rfl

/-- The injector drives the context with events of its side. -/
theorem simulated_simulation (role : Role) (cond : Ctx → AtomicAction → Prop)
    : (simulated role cond).Simulation (sided role cond) (fun s c => c = s.ctx) where
  init := by
    rintro _ rfl
    exact ⟨_, rfl, rfl⟩
  step := by
    rintro s action s' _ reached - rfl ⟨met, step⟩
    obtain ⟨offered, now⟩ := simulated_follows reached
    rcases now.step_ctx met step with same | ⟨inner, met, taken⟩
    · exact ⟨s.ctx, .refl, same.symm⟩
    · exact ⟨s'.ctx, .single ⟨inner, met, taken⟩, rfl⟩

-----------------------------------------------------------------------------------------
-- Side A
-----------------------------------------------------------------------------------------

/-- The scheduler has decided to preempt, up to taking the FIFO head. -/
def SchedPc.evicts : SchedPc → Bool
  | killCurrent | killJoin _ | readPrev | clearSlot _ | pushPrev _ | popPreempting => true
  | _ => false

/-- The MASTER that the scheduler is about to install or to put into the wait heap. -/
def SchedPc.master : SchedPc → List Event
  | handleEvent e | parkBlocked e => [e]
  | _ => []

@[simp]
theorem dispose_evicts (e : Event) : (Ctx.dispose e).evicts = false := by
  cases dir : e.dir <;> simp [Ctx.dispose, dir, SchedPc.evicts]

/-- What is popped and disposed of is a MASTER only when it is one. -/
theorem dispose_master {e f : Event} (member : f ∈ (Ctx.dispose e).master)
    : f = e ∧ e.dir = .master := by
  cases dir : e.dir <;> simp_all [Ctx.dispose, SchedPc.master]

namespace Ctx

variable {c c' : Ctx}

/-- Every MASTER on its way has priority 1 and no event has a smaller one, so that no event
preempts a MASTER.
-/
structure Uncontested (c : Ctx) : Prop where
  fifo : ∀ e ∈ c.q.fifo, 1 ≤ e.priority ∧ (e.dir = .master → e.priority = 1)
  heap : ∀ e ∈ c.q.waitHeap.events, e.priority = 1
  hand : ∀ e ∈ c.sched.master, e.priority = 1
  guard : c.q.hardBlocking = false → c.q.guardPriority ≤ 1
  read : ∀ pri, c.sched.guardRead = some pri → pri ≤ 1
  apart : c.sched.evicts = false

namespace Uncontested

/-- At most program points only the queue matters. -/
theorem of_queue (fifo : ∀ e ∈ c.q.fifo, 1 ≤ e.priority ∧ (e.dir = .master → e.priority = 1))
    (heap : ∀ e ∈ c.q.waitHeap.events, e.priority = 1)
    (guard : c.q.hardBlocking = false → c.q.guardPriority ≤ 1) (hand : c.sched.master = [])
    (read : c.sched.guardRead = none) (apart : c.sched.evicts = false)
    : c.Uncontested :=
  ⟨fifo, heap, by simp [hand], guard, by simp [read], apart⟩

/-- The scheduler looks and compares, by cases on the move: what it peeked does not preempt. -/
theorem silent (now : c.Uncontested) (peek : c.PeekHolds) {next : SchedPc}
    (move : SilentMove c next)
    : Uncontested { c with sched := next } := by
  have go (hand : next.master = [])
      (read : ∀ pri, next.guardRead = some pri → pri ≤ 1) (apart : next.evicts = false)
      : Uncontested { c with sched := next } :=
    ⟨now.fifo, now.heap, by simp [hand], now.guard, read, apart⟩
  cases move with
  | guardSoft pc soft =>
      exact go rfl (fun pri same => Option.some.inj same ▸ now.guard soft) rfl
  | busy pri pc | peekBusy pri f pc | stageInit pri f pc =>
      exact go rfl (fun _ same => now.read _ (by rw [pc]; exact same)) rfl
  | preempt pri f pc master allowed =>
      have head : c.q.fifo.head? = some f := peek f (by rw [pc]; rfl)
      have floor := (now.fifo f (List.mem_of_mem_head? head)).1
      have bound := now.read pri (by rw [pc]; rfl)
      have less : f.priority < pri := by simpa [canPreempt] using allowed
      omega
  | readPrev pc =>
      have apart := now.apart
      rw [pc] at apart
      cases apart
  | _ => exact go rfl (fun _ same => by cases same) rfl

/-- The scheduler's moves, by cases on the move. -/
theorem sched (now : c.Uncontested) (peek : c.PeekHolds) {ok : Bool} (move : SchedMove c ok c')
    : c'.Uncontested := by
  obtain ⟨fifo, heap, hand, guard, read, apart⟩ := id now
  have away {P : Prop} (evicts : c.sched.evicts = true) : P := by
    cases apart.symm.trans evicts
  cases move with
  | silent next move => exact now.silent peek move
  | popReady e rest pc head =>
      refine ⟨fun f member => fifo f (by simp [head, member]), heap, ?_, guard,
        by simp, by simp⟩
      intro f member
      obtain ⟨rfl, master⟩ := dispose_master member
      exact (fifo f (by simp [head])).2 master
  | popWait e rest pc popped =>
      have split := WaitHeap.heapPop_events popped
      refine ⟨fifo, fun f member => heap f (split.mem_iff.mpr (List.mem_cons_of_mem e member)),
        ?_, guard, by simp, by simp⟩
      intro f member
      obtain ⟨rfl, -⟩ := dispose_master member
      exact heap f (split.mem_iff.mpr List.mem_cons_self)
  | claim e pc => exact .of_queue fifo heap (by simp) rfl rfl rfl
  | actStage pc =>
      exact .of_queue (by simpa using fifo) (by simpa using heap) (by simpa using guard) rfl rfl
        rfl
  | actBlock pc => exact .of_queue fifo heap (by simp) rfl rfl rfl
  | install e pc =>
      have priority : e.priority = 1 := hand e (by simp [pc, SchedPc.master])
      refine ⟨fifo, heap, ?_, fun _ => priority.le, ?_, ?_⟩ <;> split <;>
        simp [SchedPc.master, SchedPc.guardRead, SchedPc.evicts]
  | popBlocked f rest pc head master =>
      refine ⟨fun e member => fifo e (by simp [head, member]), heap, ?_, guard,
        by simp [SchedPc.guardRead], rfl⟩
      intro e member
      obtain rfl := List.mem_singleton.mp member
      exact (fifo e (by simp [head])).2 master
  | drop f rest pc head slave =>
      exact .of_queue (fun e member => fifo e (by simp [head, member])) heap guard rfl rfl rfl
  | park f rest pc stored =>
      refine .of_queue fifo (fun e member => ?_) guard rfl rfl rfl
      rcases List.mem_cons.mp (stored.mem_iff.mp member) with rfl | before
      · exact hand e (by simp [pc, SchedPc.master])
      · exact heap e before
  | kill k pc | killNone pc | killJoined k pc | clear prev pc | storePrev prev rest pc
  | losePrev prev pc =>
      exact away (by rw [pc]; rfl)
  | _ => exact .of_queue fifo heap guard rfl rfl rfl

/-- Every move with an event of side A, by cases on the move. -/
theorem move (now : c.Uncontested) (peek : c.PeekHolds) {action : Action}
    (side : (AtomicAction.single action).OfSide .a) (move : Move c action c')
    : c'.Uncontested := by
  obtain ⟨fifo, heap, hand, guard, read, apart⟩ := id now
  cases move with
  | arrive type dir payload =>
      refine ⟨fun e member => ?_, heap, hand, guard, read, apart⟩
      rcases List.mem_append.mp member with before | last
      · exact fifo e before
      · obtain rfl := List.mem_singleton.mp last
        refine ⟨?_, fun master => ?_⟩
        · cases type <;> simp [arrival, priorityOf]
        · rcases side.master.mp master with rfl | rfl <;> rfl
  | sched ok c' move => exact now.sched peek move
  | wakeNonempty pc | wakeForFifo pc => exact .of_queue fifo heap guard rfl rfl rfl
  | init k t found c' move =>
      cases move with
      | stage pc =>
          exact ⟨by simpa using fifo, by simpa using heap, hand, by simpa using guard, read,
            apart⟩
      | block pc => exact ⟨fifo, heap, hand, by simp, read, apart⟩
      | _ => exact ⟨fifo, heap, hand, guard, read, apart⟩
  | dispatch c' move =>
      cases move with
      | clear t ids pc => exact ⟨fifo, heap, hand, fun _ => by simp, read, apart⟩
      | _ => exact ⟨fifo, heap, hand, guard, read, apart⟩
  | _ => exact ⟨fifo, heap, hand, guard, read, apart⟩

end Uncontested

end Ctx

/-- The scheduler has seen an occupied slot under an open guard. -/
def SchedPc.facing : SchedPc → Bool
  | busyPeekFifo _ | readStage _ _ | readDir _ _ | popBlocked => true
  | _ => false

namespace Ctx

variable {c c' : Ctx} {holder : Holder}

/-- The slot is held by a MASTER in its Init window. -/
def Window (c : Ctx) : Prop :=
  c.q.hasExec = true ∧ c.q.execEvent.stage = .init ∧ c.q.execEvent.dir = .master

/-- An iteration that has read an open guard faces an Init window or a free slot. -/
structure FacesWindow (c : Ctx) : Prop where
  entered : ∀ pri, c.sched = .readSlot pri → c.q.hasExec = true → c.Window
  facing : c.sched.facing = true → c.Window

end Ctx

@[simp]
theorem dispose_facing (e : Event) : (Ctx.dispose e).facing = false := by
  cases dir : e.dir <;> simp [Ctx.dispose, dir, SchedPc.facing]

theorem dispose_ne_readSlot (e : Event) (pri : Int) : Ctx.dispose e ≠ .readSlot pri := by
  cases dir : e.dir <;> simp [Ctx.dispose, dir]

namespace Ctx.FacesWindow

variable {c c' : Ctx} {holder : Holder}

/-- At most program points nothing is faced. -/
theorem aside (entered : ∀ pri, c.sched ≠ .readSlot pri) (facing : c.sched.facing = false)
    : c.FacesWindow where
  entered pri pc := absurd pc (entered pri)
  facing faced := by cases facing.symm.trans faced

/-- The window depends on the slot only. -/
theorem same (now : c.FacesWindow) (sched : c'.sched = c.sched)
    (hasExec : c'.q.hasExec = c.q.hasExec) (event : c'.q.execEvent = c.q.execEvent)
    : c'.FacesWindow where
  entered := by
    rw [sched, Window, hasExec, event]
    exact now.entered
  facing := by
    rw [sched, Window, hasExec, event]
    exact now.facing

/-- The scheduler's moves, by cases on the move: an open guard is that of an Init window. -/
theorem sched (now : c.FacesWindow) (blocked : c.Blocked) (held : c.HeldBy holder) {ok : Bool}
    (move : SchedMove c ok c')
    : c'.FacesWindow := by
  cases move with
  | silent next move =>
      cases move with
      | guardSoft pc soft =>
          refine ⟨fun _ _ occupied => ?_, fun faced => by cases faced⟩
          obtain ⟨master, init⟩ := blocked.window held pc occupied soft
          exact ⟨occupied, init, master⟩
      | busy pri pc occupied =>
          exact ⟨fun _ at_ => (by cases at_), fun _ => now.entered pri pc occupied⟩
      | peekBusy pri f pc | stageInit pri f pc | stageOther pri f pc | noPreempt pri f pc =>
          exact ⟨fun _ at_ => (by cases at_), fun _ => now.facing (by rw [pc]; rfl)⟩
      | _ => exact .aside (fun _ at_ => by cases at_) rfl
  | popReady e rest pc head => exact .aside (dispose_ne_readSlot e) (dispose_facing e)
  | popWait e heap pc popped => exact .aside (dispose_ne_readSlot e) (dispose_facing e)
  | install e pc =>
      refine .aside (fun pri => ?_) ?_
      · simp only
        split <;> simp
      · simp only
        split <;> rfl
  | _ => exact .aside (fun _ at_ => by cases at_) rfl

/-- The moves of atomic runs, by cases on the move: nothing ends a window that is faced. -/
theorem move (now : c.FacesWindow) (blocked : c.Blocked) (held : c.HeldBy holder)
    (tagged : c.exec.Tagged) (move : c.AtomicMove c')
    : c'.FacesWindow := by
  cases move with
  | single action succeeds whole c' move =>
      cases move with
      | sched ok c' move => exact now.sched blocked held move
      | wakeNonempty pc | wakeForFifo pc => exact .aside (fun _ at_ => by cases at_) rfl
      | init k t found c' move =>
          have outside : t.pc.inAct = false := by simpa [splitsAct, found] using whole
          cases move with
          | stage pc => simp [pc, InitPc.inAct] at outside
          | block pc => simp [pc, InitPc.inAct] at outside
          | _ => exact now.same rfl rfl rfl
      | dispatch c' move =>
          cases move with
          | clear t ids pc =>
              obtain ⟨rfl, -, -⟩ := held.clearing tagged pc
              refine ⟨fun _ _ occupied => by simp at occupied, fun faced => ?_⟩
              have init := (now.facing faced).2.1
              cases init.symm.trans (held.exec (.inr rfl))
          | _ => exact now.same rfl rfl rfl
      | _ => exact now.same rfl rfl rfl
  | act k t between found pc =>
      refine .aside (fun pri at_ => ?_) ?_
      · have pc : c.sched = .readSlot pri := at_
        rw [pc] at between
        cases between
      · change c.sched.facing = false
        cases pc : c.sched <;> simp [pc, SchedPc.betweenIterations, SchedPc.facing] at between ⊢

end Ctx.FacesWindow

section Runs

variable {role : Role} {c : Ctx}

theorem atomicRuns_facesWindow (reached : (atomicRuns role).Reachable c) : c.FacesWindow := by
  refine atomicRuns_induct Ctx.FacesWindow ?_ (fun c c' reached now move => ?_) reached
  · exact .aside (fun _ pc => by cases pc) rfl
  · have inOrder := atomicRuns_reachable reached
    obtain ⟨holder, held⟩ := runsWhen_held (fun _ _ met => met.1) inOrder
    exact now.move (atomicRuns_blocked reached) held (runsWhen_tagged inOrder) move

/-- Atomic runs with the events of one side are atomic runs. -/
theorem sided_atomicRuns (reached : (sided role Ctx.actsAtomically).Reachable c)
    : (atomicRuns role).Reachable c := by
  refine Lts.Reachable.of_refines ?_ ?_ reached
  · exact fun _ initial => initial
  · exact fun _ action _ step => .single ⟨action, step.1.1, step.2⟩

/-- All events in place are of the side, since they carry the records of injected ones. -/
theorem Simulated.Follows.placed {s : Simulated} {offered : List Injection}
    (follows : s.Follows role offered) (balanced : s.ctx.Balanced) {e : Event}
    (placed : e ∈ s.ctx.places)
    : OfSide role e.type e.dir := by
  obtain ⟨x, member, same⟩ := balanced.origin placed
  have type : x.type = e.type := congrArg Record.type same
  have dir : x.dir = e.dir := congrArg Record.dir same
  obtain ⟨n, injection, -, entry, type', dir'⟩ := follows.injected x member
  obtain ⟨cycles, script⟩ := follows.begins.isPrefix
  rw [← type, ← dir, type', dir']
  exact simScript_ofSide (script.subset (List.mem_of_getElem? entry))

end Runs

/-- On side B a SLAVE preempts whatever it meets in an Init window. -/
theorem OfSide.preempts {e f : Event} (master : OfSide .b e.type e.dir) (dir : e.dir = .master)
    (slave : OfSide .b f.type f.dir) (dir' : f.dir = .slave)
    (standard : e.priority = priorityOf e.type) (standard' : f.priority = priorityOf f.type)
    : f.priority < e.priority := by
  have refill : e.type = .keyRefill := master.master.mp dir
  have other : f.type ≠ .keyRefill := by
    intro refill
    cases dir'.symm.trans (slave.master.mpr refill)
  have known := slave.known
  rw [standard, standard', refill]
  cases type : f.type <;> simp_all [priorityOf, EventType.known]

/-- Only a SLAVE that the scheduler meets in its blocked branch is dropped, by cases on the
move.
-/
theorem Ctx.AtomicMove.dropped {c c' : Ctx} (move : c.AtomicMove c')
    : c'.log.dropped = c.log.dropped
      ∨ c.sched = .popBlocked ∧ ∃ f, c.q.fifo.head? = some f ∧ f.dir = .slave := by
  cases move with
  | single action succeeds whole c' move =>
      cases move with
      | sched ok c' move =>
          cases move with
          | drop f rest pc head slave => exact .inr ⟨pc, f, by simp [head], slave⟩
          | _ => exact .inl rfl
      | init k t found c' move => cases move <;> exact .inl rfl
      | dispatch c' move => cases move <;> exact .inl rfl
      | _ => exact .inl rfl
  | act k t between found pc => exact .inl rfl

/-- No event is ever dropped: between two iterations every injected one waits, is in the slot
or completed, exactly once, and only KEY_REFILL events wait in the heap.
-/
def NeverDrops (system : Lts Simulated SimAction) : Prop :=
  ∀ s, system.Reachable s →
    s.ctx.log.dropped = []
    ∧ (∀ e ∈ s.ctx.q.waitHeap.events, e.type = .keyRefill ∧ e.dir = .master)
    ∧ (s.ctx.sched.betweenIterations = true →
        let settled :=
          s.ctx.q.fifo ++ s.ctx.q.waitHeap.events ++ s.ctx.q.inSlot ++ s.ctx.log.completed
        (settled.map Event.record).Perm (s.ctx.log.injected.map Event.record)
        ∧ (settled.map Event.id).Nodup)

section Runs

variable {s : Simulated}

/-- A SLAVE that is met in the blocked branch is met in an Init window, which it preempts. -/
theorem simulated_undropped
    (reached : (simulated .b Ctx.actsAtomically).Reachable s)
    : s.ctx.log.dropped = [] := by
  refine Lts.Reachable.induct (fun s => s.ctx.log.dropped = []) ?_ ?_ reached
  · rintro _ rfl
    rfl
  · rintro s action s' reached now ⟨met, step⟩
    obtain ⟨offered, follows⟩ := simulated_follows reached
    obtain ⟨_, inside, rfl⟩ := (simulated_simulation .b Ctx.actsAtomically).reachable reached
    have atomic := sided_atomicRuns inside
    rcases follows.step_ctx met step with same | ⟨inner, ⟨met, -⟩, taken⟩
    · rw [same, now]
    · rcases (atomicRuns_move atomic ⟨met, taken⟩).dropped with same | ⟨pc, f, head, slave⟩
      · rw [same, now]
      · have inOrder := atomicRuns_reachable atomic
        have balanced := runsWhen_balanced (fun _ _ met => met.1) inOrder
        have arrivals := runsWhen_arrivals inOrder
        have ranked := runsWhen_ranked (fun _ _ met => met.1) inOrder
        obtain ⟨occupied, init, master⟩ :=
          (atomicRuns_facesWindow atomic).facing (by rw [pc]; rfl)
        have inFifo : f ∈ s.ctx.places := by simp [Ctx.places, List.mem_of_mem_head? head]
        have inSlot : s.ctx.q.execEvent ∈ s.ctx.places := by
          simp [Ctx.places, Queue.inSlot, occupied]
        have less := (follows.placed balanced inSlot).preempts master
          (follows.placed balanced inFifo) slave (balanced.standard arrivals inSlot)
          (balanced.standard arrivals inFifo)
        have promise := ranked.promise
        rw [pc] at promise
        obtain ⟨f', head', ahead⟩ := promise
        obtain rfl : f = f' := Option.some.inj (head.symm.trans head')
        have notLess := (ahead ⟨occupied, by simp [init]⟩).priority_le
        omega

end Runs

/-- On side B none of the injected events is dropped, in every interleaving before a stop in which
allocations and thread creations succeed and `qks_init_master_send_act` is one step outside the
scheduler iterations. So the SLAVE of each round that arrives under a hard block is not dropped
but stays in the FIFO.
-/
theorem simulated_neverDrops : NeverDrops (simulated .b Ctx.actsAtomically) := by
  intro s reached
  have dropped := simulated_undropped reached
  obtain ⟨offered, follows⟩ := simulated_follows reached
  obtain ⟨_, inside, rfl⟩ := (simulated_simulation .b Ctx.actsAtomically).reachable reached
  have inOrder := atomicRuns_reachable (sided_atomicRuns inside)
  have balanced := runsWhen_balanced (fun _ _ met => met.1) inOrder
  refine ⟨dropped, fun e member => ?_, fun between => ?_⟩
  · have master := balanced.heap e member
    exact ⟨(follows.placed balanced (by simp [Ctx.places, member])).master.mp master, master⟩
  · have conserved := balanced.conserved (runsWhen_arrivals inOrder) between
      (runsWhen_nothing_lost inOrder)
    have placed := conserved.placed
    have once := conserved.once
    rw [Ctx.settled, dropped, List.append_nil] at placed once
    exact ⟨placed, once⟩

/-- The act has to be one step: a SLAVE that the scheduler meets between the switch to EXEC and
the hard block is dropped.
-/
example
    : (Lts.execute Simulated.step (Simulated.init .b)
        (List.replicate 3 (.sim true) ++ List.replicate 13 (.system (.single (.sched true)))
          ++ List.replicate 11 (.system (.single (.init 0))) ++ List.replicate 4 (.sim true)
          ++ List.replicate 5 (.system (.single (.sched true)))
          ++ [.system (.single (.init 0))]
          ++ List.replicate 4 (.system (.single (.sched true))))).map
            (fun s => s.ctx.log.dropped.map Event.type)
      = some [.deviceAuth] := by
  decide +kernel

end QKeySys.Core
