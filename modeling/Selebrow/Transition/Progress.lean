import Mathlib.Data.List.Count
import Selebrow.Transition.Machine

/-!
# Progress

Some of the actions are a component's own, the others are those of its environment.  A goal
is inevitable when the environment can neither hinder nor outrun the component: a run that
stays short of the goal has a bounded number of own steps, and wherever it stops an own step
can still be taken.  A scheduler that does not starve the component for ever then takes it
to the goal.

The rule is the usual one.  A measure that own steps use up and that no other step adds to
bounds their number.
-/

namespace Selebrow.Transition.Machine

variable {σ α : Type}

/-- On runs whose steps meet `C`, at most `n` own steps are taken before the goal, and one
can be taken until then. -/
structure Inevitable (M : Machine σ α) (C : σ → α → Prop) (own : α → Bool) (Goal : σ → Prop)
    (n : Nat) (s : σ) : Prop where
  bounded : ∀ acts t, M.Meets C s acts → M.run s acts = some t →
    M.Along (fun u => ¬ Goal u) s acts → acts.countP own ≤ n
  enabled : ∀ acts t, M.Meets C s acts → M.run s acts = some t →
    M.Along (fun u => ¬ Goal u) s acts → ∃ a, own a = true ∧ (M.step t a).isSome = true

section

variable {M : Machine σ α} {C : σ → α → Prop} {own : α → Bool} {Goal I : σ → Prop} {μ : σ → Nat}

/-- Short of the goal, own steps use the measure up. -/
theorem countP_add_le
    (hinv : ∀ t a t', I t → C t a → M.step t a = some t' → ¬ Goal t → ¬ Goal t' → I t')
    (hμ : ∀ t a t', I t → C t a → M.step t a = some t' → ¬ Goal t → ¬ Goal t' →
      μ t' + (own a).toNat ≤ μ t)
    (acts : List α) {s t : σ} (hs : I s) (hC : M.Meets C s acts) (hrun : M.run s acts = some t)
    (halong : M.Along (fun u => ¬ Goal u) s acts) : acts.countP own + μ t ≤ μ s ∧ I t := by
  induction acts generalizing s with
  | nil =>
    simp only [run, Option.some.injEq] at hrun
    subst hrun
    exact ⟨by simp, hs⟩
  | cons a rest ih =>
    simp only [run] at hrun
    simp only [Meets] at hC
    simp only [Along] at halong
    cases hstep : M.step s a with
    | none => simp [hstep] at hrun
    | some s' =>
      simp only [hstep] at hrun hC halong
      have hgoal' : ¬ Goal s' := by
        cases rest with
        | nil => exact halong.2
        | cons b rest => exact halong.2.1
      have hI' := hinv s a s' hs hC.1 hstep halong.1 hgoal'
      obtain ⟨hle, hI⟩ := ih hI' hC.2 hrun halong.2
      have hstepLe := hμ s a s' hs hC.1 hstep halong.1 hgoal'
      rw [List.countP_cons]
      refine ⟨?_, hI⟩
      cases hown : own a with
      | false =>
        rw [hown, Bool.toNat_false] at hstepLe
        simp only [Bool.false_eq_true, if_false]
        omega
      | true =>
        rw [hown, Bool.toNat_true] at hstepLe
        simp only [if_true]
        omega

theorem Inevitable.of_measure (μ : σ → Nat)
    (hinv : ∀ t a t', I t → C t a → M.step t a = some t' → ¬ Goal t → ¬ Goal t' → I t')
    (hμ : ∀ t a t', I t → C t a → M.step t a = some t' → ¬ Goal t → ¬ Goal t' →
      μ t' + (own a).toNat ≤ μ t)
    (henabled : ∀ t, I t → ¬ Goal t → ∃ a, own a = true ∧ (M.step t a).isSome = true)
    {s : σ} {n : Nat} (hs : I s) (hn : μ s ≤ n) : M.Inevitable C own Goal n s := by
  constructor
  · intro acts t hC hrun halong
    have hle := (countP_add_le hinv hμ acts hs hC hrun halong).1
    omega
  · intro acts t hC hrun halong
    exact henabled t (countP_add_le hinv hμ acts hs hC hrun halong).2 (halong.last acts hrun)

end

end Selebrow.Transition.Machine
