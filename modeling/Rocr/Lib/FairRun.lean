import Mathlib

/-!
# Fair runs of a transition system

A run of a step relation is an infinite sequence of states, each either the
state before it or one step on from it (`Run`).  Every state of a run is
reachable from the first (`Run.reachable`), so an invariant of the reachable
states holds all along the run.

An action is weakly fair in a run when, if it is enabled at every state from
some time on, the run takes it at some later point (`Run.WeakFair`).  Two
liveness rules follow from this.  The run does not stay forever in states
where the action is enabled but cannot be taken (`WeakFair.exists_not`).  A
rank that never grows, and that drops each time the action is taken while it
is positive, reaches zero and stays there (`WeakFair.eventually_rank_zero`).
-/

namespace FairRun

variable {σ : Type} {step : σ → σ → Prop}

/-- An infinite run of `step`; a state may repeat (a stuttering step). -/
structure Run (step : σ → σ → Prop) where
  state : Nat → σ
  next : ∀ k, state (k + 1) = state k ∨ step (state k) (state (k + 1))

namespace Run

theorem reachable (r : Run step) (k : Nat) : Relation.ReflTransGen step (r.state 0) (r.state k) := by
  induction k with
  | zero => exact Relation.ReflTransGen.refl
  | succ k ih =>
    rcases r.next k with h | h
    · rw [h]
      exact ih
    · exact ih.tail h

/-- Weak fairness of an action, `enabled` where it may be taken and `taken`
the moves that take it. -/
def WeakFair (r : Run step) (enabled : σ → Prop) (taken : σ → σ → Prop) : Prop :=
  ∀ k, (∀ j ≥ k, enabled (r.state j)) → ∃ j ≥ k, taken (r.state j) (r.state (j + 1))

variable {r : Run step} {enabled : σ → Prop} {taken : σ → σ → Prop}

/-- After any time `k`, the run leaves the states where the action is enabled,
when no move of the run between two of them takes it. -/
theorem WeakFair.exists_not (hf : r.WeakFair enabled taken) {P : σ → Prop}
    (hen : ∀ a, P a → enabled a) {k : Nat}
    (hstay : ∀ j ≥ k, P (r.state j) → P (r.state (j + 1)) → ¬ taken (r.state j) (r.state (j + 1))) :
    ∃ j ≥ k, ¬ P (r.state j) := by
  by_contra h
  push Not at h
  obtain ⟨j, hj, htaken⟩ := hf k fun j hj => hen _ (h j hj)
  exact hstay j hj (h j hj) (h (j + 1) (by omega)) htaken

/-- A rank that never grows from time `k` on stays below its value at `k`. -/
theorem rank_le {rank : σ → Nat} {k : Nat} (hmono : ∀ j ≥ k, rank (r.state (j + 1)) ≤ rank (r.state j)) :
    ∀ j ≥ k, rank (r.state j) ≤ rank (r.state k) := by
  intro j hj
  induction j, hj using Nat.le_induction with
  | base => exact Nat.le_refl _
  | succ j hj ih => exact Nat.le_trans (hmono j hj) ih

/-- **Rank.**  From time `k` on, let a rank never grow, keep the action enabled
while it is positive, and drop whenever the action is taken at a positive rank.
Then the rank reaches zero and stays there. -/
theorem WeakFair.eventually_rank_zero (hf : r.WeakFair enabled taken) {rank : σ → Nat}
    (hen : ∀ a, 0 < rank a → enabled a) {k : Nat}
    (hmono : ∀ j ≥ k, rank (r.state (j + 1)) ≤ rank (r.state j))
    (hdrop : ∀ j ≥ k, 0 < rank (r.state j) → taken (r.state j) (r.state (j + 1)) →
      rank (r.state (j + 1)) < rank (r.state j)) :
    ∃ m ≥ k, ∀ j ≥ m, rank (r.state j) = 0 := by
  induction hn : rank (r.state k) using Nat.strong_induction_on generalizing k with
  | _ n ih =>
    rcases Nat.eq_zero_or_pos n with hzero | hpos
    · exact ⟨k, Nat.le_refl k, fun j hj => by have := rank_le hmono j hj; omega⟩
    -- the rank cannot stay at `n`: the action would be enabled forever and,
    -- once taken, drop it
    have hleave : ∃ j ≥ k, rank (r.state j) ≠ n := by
      apply hf.exists_not (P := fun a => rank a = n) (fun a ha => hen a (by omega))
      intro j hj hnow hnext htaken
      have := hdrop j hj (by omega) htaken
      omega
    obtain ⟨j, hj, hne⟩ := hleave
    have hlt : rank (r.state j) < n := by have := rank_le hmono j hj; omega
    obtain ⟨m, hm, hzero⟩ := ih _ hlt (k := j) (fun i hi => hmono i (by omega))
      (fun i hi => hdrop i (by omega)) rfl
    exact ⟨m, by omega, hzero⟩

end Run

end FairRun
