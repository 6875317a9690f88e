/-!
# Machines and their runs

A machine is an initial state and a partial step function.  Every choice that is
not the machine's own, the scheduler's and the environment's, is carried by the
action, so a step is a function and a run is a list of actions.

`Leads C s t` says that some run from `s` reaches `t` with every step meeting
`C` in the state before it.  `Reach C` is the same from the initial state, and
`Reachable` drops the condition.  The rules are the two every development uses:
an invariant of the steps is an invariant of the runs, and a map that sends each
step of one machine to a step of another, or to none, sends runs to runs.
-/

namespace Selebrow.Transition

structure Machine (σ α : Type) where
  init : σ
  step : σ → α → Option σ

namespace Machine

variable {σ τ α β : Type}

/-- Run a list of actions, failing at the first one that is not enabled. -/
def run (M : Machine σ α) : σ → List α → Option σ
  | s, [] => some s
  | s, a :: rest =>
    match M.step s a with
    | none => none
    | some s' => M.run s' rest

/-- A run whose steps all meet `C` leads from `s` to the given state. -/
inductive Leads (M : Machine σ α) (C : σ → α → Prop) (s : σ) : σ → Prop
  | refl : Leads M C s s
  | tail {t a t'} : Leads M C s t → C t a → M.step t a = some t' → Leads M C s t'

def Reach (M : Machine σ α) (C : σ → α → Prop) (s : σ) : Prop := M.Leads C M.init s

def Reachable (M : Machine σ α) (s : σ) : Prop := M.Reach (fun _ _ => True) s

theorem Leads.trans {M : Machine σ α} {C : σ → α → Prop} {s t u : σ}
    (h : M.Leads C s t) (h' : M.Leads C t u) : M.Leads C s u := by
  induction h' with
  | refl => exact h
  | tail _ hc hs ih => exact ih.tail hc hs

theorem Leads.mono {M : Machine σ α} {C D : σ → α → Prop} {s t : σ}
    (hCD : ∀ s a, C s a → D s a) (h : M.Leads C s t) : M.Leads D s t := by
  induction h with
  | refl => exact .refl
  | tail _ hc hs ih => exact ih.tail (hCD _ _ hc) hs

/-- What every step preserves, every run preserves. -/
theorem Leads.invariant {M : Machine σ α} {C : σ → α → Prop} {P : σ → Prop} {s t : σ}
    (hstep : ∀ t a t', P t → C t a → M.step t a = some t' → P t')
    (h : M.Leads C s t) (hs : P s) : P t := by
  induction h with
  | refl => exact hs
  | tail _ hc ht ih => exact hstep _ _ _ ih hc ht

theorem Reach.invariant {M : Machine σ α} {C : σ → α → Prop} {P : σ → Prop} {s : σ}
    (hinit : P M.init) (hstep : ∀ t a t', P t → C t a → M.step t a = some t' → P t')
    (h : M.Reach C s) : P s :=
  Leads.invariant hstep h hinit

theorem Reach.reachable {M : Machine σ α} {C : σ → α → Prop} {s : σ} (h : M.Reach C s) :
    M.Reachable s :=
  Leads.mono (fun _ _ _ => trivial) h

/-- Every step of the list, run from `s`, meets `C` in the state before it. -/
def Meets (M : Machine σ α) (C : σ → α → Prop) : σ → List α → Prop
  | _, [] => True
  | s, a :: rest =>
    C s a ∧
      match M.step s a with
      | none => True
      | some s' => M.Meets C s' rest

theorem leads_of_run {M : Machine σ α} {C : σ → α → Prop} {s t : σ} (acts : List α)
    (hC : M.Meets C s acts) (h : M.run s acts = some t) : M.Leads C s t := by
  induction acts generalizing s with
  | nil =>
    simp only [run, Option.some.injEq] at h
    exact h ▸ .refl
  | cons a rest ih =>
    simp only [run] at h
    simp only [Meets] at hC
    cases hs : M.step s a with
    | none => simp [hs] at h
    | some s' =>
      simp only [hs] at h hC
      exact Leads.trans (.tail .refl hC.1 hs) (ih hC.2 h)

theorem meets_true (M : Machine σ α) (s : σ) (acts : List α) :
    M.Meets (fun _ _ => True) s acts := by
  induction acts generalizing s with
  | nil => trivial
  | cons a rest ih =>
    refine ⟨trivial, ?_⟩
    split
    · trivial
    · exact ih _

theorem reachable_of_run {M : Machine σ α} {s : σ} (acts : List α)
    (h : M.run M.init acts = some s) : M.Reachable s :=
  leads_of_run acts (M.meets_true _ acts) h

/-- `P` holds of every state that the list of actions leads through. -/
def Along (M : Machine σ α) (P : σ → Prop) : σ → List α → Prop
  | s, [] => P s
  | s, a :: rest =>
    P s ∧
      match M.step s a with
      | none => True
      | some s' => M.Along P s' rest

theorem Along.last {M : Machine σ α} {P : σ → Prop} (acts : List α) {s t : σ}
    (h : M.Along P s acts) (hr : M.run s acts = some t) : P t := by
  induction acts generalizing s with
  | nil =>
    simp only [run, Option.some.injEq] at hr
    exact hr ▸ h
  | cons a rest ih =>
    simp only [run] at hr
    simp only [Along] at h
    cases hs : M.step s a with
    | none => simp [hs] at hr
    | some s' =>
      simp only [hs] at hr h
      exact ih h.2 hr

/-- In a run through states with `P` the steps meet what `P` promises of them. -/
theorem Along.meets {M : Machine σ α} {P : σ → Prop} {C D : σ → α → Prop}
    (hC : ∀ s a, P s → D s a → C s a) (acts : List α) {s : σ} (h : M.Along P s acts)
    (hD : M.Meets D s acts) : M.Meets C s acts := by
  induction acts generalizing s with
  | nil => trivial
  | cons a rest ih =>
    simp only [Along] at h
    simp only [Meets] at hD
    refine ⟨hC s a h.1 hD.1, ?_⟩
    cases hs : M.step s a with
    | none => trivial
    | some s' =>
      simp only [hs] at h hD
      exact ih h.2 hD.2

/-- When a step under `D` from a state with `P` leads to one with `P` exactly if it meets
`C`, a run under `D` stays in `P` exactly if all its steps meet `C`. -/
theorem along_iff_meets {M : Machine σ α} {I P : σ → Prop} {C D : σ → α → Prop}
    (hinv : ∀ s a s', I s → M.step s a = some s' → I s')
    (hstep : ∀ s a s', I s → D s a → P s → M.step s a = some s' → (P s' ↔ C s a))
    (acts : List α) {s t : σ} (hI : I s) (hP : P s) (hD : M.Meets D s acts)
    (h : M.run s acts = some t) : M.Along P s acts ↔ M.Meets C s acts := by
  induction acts generalizing s with
  | nil => exact ⟨fun _ => trivial, fun _ => hP⟩
  | cons a rest ih =>
    simp only [run] at h
    simp only [Meets] at hD
    cases hs : M.step s a with
    | none => simp [hs] at h
    | some s' =>
      simp only [hs] at h hD
      have hiff := hstep s a s' hI hD.1 hP hs
      have hI' := hinv s a s' hI hs
      simp only [Along, Meets, hs]
      constructor
      · rintro ⟨_, hrest⟩
        have hP' : P s' := by
          cases rest with
          | nil => exact hrest
          | cons b rest => exact hrest.1
        exact ⟨hiff.mp hP', (ih hI' hP' hD.2 h).mp hrest⟩
      · rintro ⟨hc, hrest⟩
        have hP' := hiff.mpr hc
        exact ⟨hP, (ih hI' hP' hD.2 h).mpr hrest⟩

/-- Simulation by a map of states: each step of `M` under `C` is a step of `N`
under `D` or leaves the image alone. -/
theorem Reach.map {M : Machine σ α} {N : Machine τ β} {C : σ → α → Prop}
    {D : τ → β → Prop} (f : σ → τ) (hinit : f M.init = N.init)
    (hstep : ∀ s a s', M.Reach C s → C s a → M.step s a = some s' →
      f s' = f s ∨ ∃ b, D (f s) b ∧ N.step (f s) b = some (f s'))
    {s : σ} (h : M.Reach C s) : N.Reach D (f s) := by
  induction h with
  | refl => exact hinit ▸ .refl
  | tail hr hc hs ih =>
    rcases hstep _ _ _ hr hc hs with heq | ⟨b, hd, hb⟩
    · exact heq ▸ ih
    · exact Leads.tail ih hd hb

end Machine

/-- A source of names that never gives the same name twice: `gen n` is its answer
to the `n`-th request. -/
structure FreshSupply (κ : Type) where
  gen : Nat → κ
  injective : ∀ {m n}, gen m = gen n → m = n

/-- Lists of one letter, one longer each time. -/
def FreshSupply.unary {κ : Type} (a : κ) : FreshSupply (List κ) where
  gen n := List.replicate n a
  injective h := by simpa using congrArg List.length h

end Selebrow.Transition
