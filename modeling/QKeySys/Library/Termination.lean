import QKeySys.Library.Transition

/-! Rankings of labelled transition systems: when the steps of interest lower a rank that no
other step raises, a path has only as many of them as the rank of its start.
-/

namespace QKeySys.Library.Lts

variable {State Label : Type*} {system : Lts State Label} {counts : Label → Prop}

/-- A path with `n` steps whose labels count; others may stand between them. -/
inductive Counted (system : Lts State Label) (counts : Label → Prop)
    : Nat → State → State → Prop where
  | refl (state : State) : Counted system counts 0 state state
  | aside {n : Nat} {start before after : State} {label : Label}
    (path : Counted system counts n start before) (step : system.next before label after)
    (free : ¬ counts label)
    : Counted system counts n start after
  | paid {n : Nat} {start before after : State} {label : Label}
    (path : Counted system counts n start before) (step : system.next before label after)
    (counted : counts label)
    : Counted system counts (n + 1) start after

/-- A path with a count is a path. -/
theorem Counted.steps {n : Nat} {start state : State}
    (path : system.Counted counts n start state)
    : system.Steps start state := by
  induction path with
  | refl => exact .refl
  | aside path step free ih | paid path step counted ih => exact ih.tail ⟨_, step⟩

/-- Among the states with a property that no step leaves, the steps that count lower the rank
and the others do not raise it.
-/
structure Ranking (system : Lts State Label) (counts : Label → Prop) (within : State → Prop)
    (rank : State → Nat) : Prop where
  stays
    : ∀ before label after, within before → system.next before label after → within after
  lowers
    : ∀ before label after, within before → system.next before label after →
        counts label → rank after < rank before
  keeps
    : ∀ before label after, within before → system.next before label after →
        ¬ counts label → rank after ≤ rank before

variable {within : State → Prop} {rank : State → Nat}

/-- Every path stays within the property, by induction on it. -/
theorem Ranking.steps (ranking : system.Ranking counts within rank) {start state : State}
    (now : within start) (path : system.Steps start state)
    : within state := by
  induction path with
  | refl => exact now
  | tail _ step ih =>
      obtain ⟨label, step⟩ := step
      exact ranking.stays _ label _ ih step

/-- What a path spends is paid for by the rank of its start, by induction on the path. -/
theorem Ranking.bounds (ranking : system.Ranking counts within rank) {n : Nat}
    {start state : State} (now : within start)
    (path : system.Counted counts n start state)
    : n + rank state ≤ rank start := by
  induction path with
  | refl => omega
  | aside path step free ih =>
      have kept := ranking.keeps _ _ _ (ranking.steps now path.steps) step free
      have before := ih now
      omega
  | paid path step counted ih =>
      have lowered := ranking.lowers _ _ _ (ranking.steps now path.steps) step counted
      have before := ih now
      omega

/-- When some step that counts is possible in every state that is not final, a final state can
be reached, by induction on the rank.
-/
theorem Ranking.reaches (ranking : system.Ranking counts within rank) {final : State → Prop}
    (progress
      : ∀ state, within state → ¬ final state →
          ∃ label after, counts label ∧ system.next state label after)
    {start : State} (now : within start)
    : ∃ state, system.Steps start state ∧ final state := by
  induction left : rank start using Nat.strongRecOn generalizing start with
  | ind left ih =>
      by_cases ended : final start
      · exact ⟨start, .refl, ended⟩
      obtain ⟨label, after, counted, step⟩ := progress start now ended
      have lowered := ranking.lowers _ _ _ now step counted
      obtain ⟨state, path, ended⟩ :=
        ih _ (left ▸ lowered) (ranking.stays _ _ _ now step) rfl
      exact ⟨state, .head ⟨label, step⟩ path, ended⟩

end QKeySys.Library.Lts
