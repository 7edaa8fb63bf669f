import Mathlib.Data.Multiset.AddSub
import Mathlib.Data.Multiset.MapFold
import QKeySys.Library.Transition

/-! A server with one place, a line of arrivals and a room for jobs that wait. The server looks
at the line, and what it does then rests on that look: it starts the best job it knows of, puts
a job that has not committed back into the room for one of higher rank, and turns away jobs
that cannot wait. Jobs in the room can get lost.
-/

namespace QKeySys.Library

/-- Jobs in the line and in the room are compared by their keys; a job of a smaller rank has a
smaller key as well. Only jobs that can wait go into the room.
-/
structure Discipline (Job Key Rank : Type*) [LinearOrder Key] [LinearOrder Rank] where
  key : Job → Key
  rank : Job → Rank
  canWait : Job → Prop
  rank_key : ∀ {a b : Job}, rank a < rank b → key a < key b

/-- What the server saw when it last looked: nothing it still relies on, a free place and the
head of the line, or a busy place.
-/
inductive View (Job : Type*) where
  | none
  | free (head : Option Job)
  | busy

/-- `serving` is the job in the place, with whether it has committed. -/
structure Server (Job : Type*) where
  line : List Job
  room : Multiset Job
  serving : Option (Job × Bool)
  view : View Job
  finished : List Job
  refused : List Job
  lost : List Job

namespace Server

variable {Job Key Rank : Type*} [LinearOrder Key] [LinearOrder Rank]

def empty : Server Job where
  line := []
  room := 0
  serving := none
  view := .none
  finished := []
  refused := []
  lost := []

/-- The job in the place may still be put back for the given one. -/
def Yields (s : Server Job) (discipline : Discipline Job Key Rank) (job : Job) : Prop :=
  ∃ current, s.serving = some (current, false) ∧ discipline.rank job < discipline.rank current

/-- The steps of the server. -/
inductive Step (discipline : Discipline Job Key Rank) (s : Server Job) : Server Job → Prop where
  | arrive (job : Job) : Step discipline s { s with line := s.line ++ [job] }
  | lookFree (free : s.serving = none)
      : Step discipline s { s with view := .free s.line.head? }
  | lookBusy (busy : s.serving ≠ none) : Step discipline s { s with view := .busy }
  | startLine (job : Job) (rest : List Job) (committed : Bool)
      (view : s.view = .free (some job)) (line : s.line = job :: rest) (free : s.serving = none)
      (first : ∀ other ∈ s.room, discipline.key job < discipline.key other)
      (waits : committed = false → discipline.canWait job)
      : Step discipline s {
          s with line := rest, serving := some (job, committed), view := .none
        }
  | startRoom (job : Job) (rest : Multiset Job) (head : Option Job)
      (view : s.view = .free head) (room : s.room = job ::ₘ rest) (free : s.serving = none)
      (first : ∀ other ∈ rest, discipline.key job ≤ discipline.key other)
      (before : ∀ other, head = some other → discipline.key job ≤ discipline.key other)
      : Step discipline s {
          s with room := rest, serving := some (job, false), view := .none
        }
  | commit (job : Job) (serving : s.serving = some (job, false))
      : Step discipline s { s with serving := some (job, true) }
  | evict (job current : Job) (rest : List Job) (view : s.view = .busy)
      (line : s.line = job :: rest) (serving : s.serving = some (current, false))
      (less : discipline.rank job < discipline.rank current)
      : Step discipline s {
          s with room := current ::ₘ s.room, serving := none, view := .free (some job)
        }
  | park (job : Job) (rest : List Job) (view : s.view = .busy) (line : s.line = job :: rest)
      (waits : discipline.canWait job) (stays : ¬ s.Yields discipline job)
      : Step discipline s { s with line := rest, room := job ::ₘ s.room, view := .none }
  | refuse (job : Job) (rest : List Job) (view : s.view = .busy) (line : s.line = job :: rest)
      (cannot : ¬ discipline.canWait job) (stays : ¬ s.Yields discipline job)
      : Step discipline s {
          s with line := rest, refused := s.refused ++ [job], view := .none
        }
  | finish (job : Job) (serving : s.serving = some (job, true))
      : Step discipline s { s with serving := none, finished := s.finished ++ [job] }
  | lose (job : Job) (rest : Multiset Job) (room : s.room = job ::ₘ rest)
      : Step discipline s { s with room := rest, lost := s.lost ++ [job] }

/-- The runs of a server that starts empty. -/
def runs (discipline : Discipline Job Key Rank) : Lts (Server Job) Unit where
  init s := s = empty
  next before _ after := Step discipline before after

/-- Only jobs that can wait are in the room, only others were turned away, and no job in the
room outranks one that has not committed.
-/
structure Sound (discipline : Discipline Job Key Rank) (s : Server Job) : Prop where
  room : ∀ job ∈ s.room, discipline.canWait job
  refused : ∀ job ∈ s.refused, ¬ discipline.canWait job
  waits : ∀ job, s.serving = some (job, false) → discipline.canWait job
  order : ∀ job ∈ s.room, ¬ s.Yields discipline job
  view : ∀ head, s.view = .free head → s.serving = none

variable {discipline : Discipline Job Key Rank} {s s' : Server Job}

/-- The order of ranks never contradicts the order of keys. -/
theorem Discipline.not_less {a b : Job} (order : discipline.key a ≤ discipline.key b)
    : ¬ discipline.rank b < discipline.rank a :=
  fun less => not_lt_of_ge order (discipline.rank_key less)

/-- Every step is sound, by cases: a job is started only when nothing in the room outranks it,
and nothing that outranks it is put into the room afterwards.
-/
theorem Sound.step (now : s.Sound discipline) (step : Step discipline s s')
    : s'.Sound discipline := by
  obtain ⟨room, refused, waits, order, view⟩ := now
  cases step with
  | arrive job => exact ⟨room, refused, waits, order, view⟩
  | lookFree free => exact ⟨room, refused, waits, order, fun _ _ => free⟩
  | lookBusy busy => exact ⟨room, refused, waits, order, nofun⟩
  | startLine job rest committed seen line free first able =>
      refine ⟨room, refused, ?_, ?_, nofun⟩
      · rintro started same
        obtain ⟨rfl, rfl⟩ := Prod.mk.inj (Option.some.inj same)
        exact able rfl
      · rintro other inside ⟨current, same, less⟩
        obtain ⟨rfl, -⟩ := Prod.mk.inj (Option.some.inj same)
        exact Discipline.not_less (first other inside).le less
  | startRoom job rest head seen split free first before =>
      have inside {other : Job} (member : other ∈ rest) : other ∈ s.room :=
        split ▸ Multiset.mem_cons_of_mem member
      refine ⟨fun other member => room other (inside member), refused, ?_, ?_, nofun⟩
      · rintro started same
        obtain ⟨rfl, -⟩ := Prod.mk.inj (Option.some.inj same)
        exact room job (split ▸ Multiset.mem_cons_self job rest)
      · rintro other member ⟨current, same, less⟩
        obtain ⟨rfl, -⟩ := Prod.mk.inj (Option.some.inj same)
        exact Discipline.not_less (first other member) less
  | commit job serving =>
      refine ⟨room, refused, nofun, ?_, fun head seen => ?_⟩
      · rintro other inside ⟨current, same, -⟩
        cases same
      · cases serving.symm.trans (view head seen)
  | evict job current rest seen line serving less =>
      refine ⟨?_, refused, nofun, ?_, fun _ _ => rfl⟩
      · simpa [or_imp, forall_and, waits current serving] using room
      · rintro other inside ⟨current', same, -⟩
        cases same
  | park job rest seen line able stays =>
      refine ⟨?_, refused, waits, ?_, nofun⟩
      · simpa [or_imp, forall_and, able] using room
      · intro other inside
        rcases Multiset.mem_cons.mp inside with rfl | inside
        · exact stays
        · exact order other inside
  | refuse job rest seen line cannot stays =>
      refine ⟨room, ?_, waits, order, nofun⟩
      intro other member
      rcases List.mem_append.mp member with earlier | last
      · exact refused other earlier
      · exact List.mem_singleton.mp last ▸ cannot
  | finish job serving =>
      refine ⟨room, refused, nofun, ?_, fun head seen => ?_⟩
      · rintro other inside ⟨current, same, -⟩
        cases same
      · cases serving.symm.trans (view head seen)
  | lose job rest split =>
      have inside {other : Job} (member : other ∈ rest) : other ∈ s.room :=
        split ▸ Multiset.mem_cons_of_mem member
      exact ⟨fun other member => room other (inside member), refused, waits,
        fun other member => order other (inside member), view⟩

end Server

end QKeySys.Library
