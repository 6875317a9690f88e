import Selebrow.GoMap
import Selebrow.Transition.Machine

/-!
# The shutdown handler

`RegisterShutdownHook` files hooks under a group.  `Start` waits for a signal and starts one
goroutine for each group, which calls the group's hooks one after the other, the last
registered first.  It then returns with what comes first: the end of all of them, the end of
the time they have, or another signal.

A group and a hook are names.  What a hook does, how long it takes and whether it ever
returns is the environment's choice; the time is the environment's choice too, so the timeout
is a step that can be taken at any moment after the first signal.
-/

namespace Selebrow.Signal

open Transition

/-- What is seen of a hook: its call and its return. -/
inductive Event (ι : Type)
  | called (hook : ι)
  | returned (hook : ι)
deriving DecidableEq

/-- The goroutine of a group.  `i` counts the hooks still to be called, so the loop variable
of the source is one less; `calling` is set while the hook at that place runs. -/
structure Runner (κ ι : Type) where
  group : κ
  hooks : List ι
  i : Nat
  calling : Bool
  done : Bool

/-- Where `Start` is: before its first signal, in the loop over the groups that are left, in
the `select`, returned. -/
inductive Phase (κ ι : Type)
  | waiting
  | starting (left : List (κ × List ι))
  | select
  | exited (code : Nat)

structure State (κ ι : Type) where
  phase : Phase κ ι
  hooks : GoMap κ (List ι)
  runners : List (Runner κ ι)
  /-- Signals in the channel. -/
  c : Nat
  expired : Bool
  /-- `done` is closed. -/
  done : Bool
  /-- History: the signals sent to the process, and the events of the hooks by group. -/
  arrived : Nat
  log : List (κ × Event ι)

/-- The capacity of the channel of signals. -/
def signalBuffer : Nat := 2

inductive Act (κ : Type)
  | signal
  | caught
  | start (group : κ)
  | started
  | call (r : Nat)
  | returns (r : Nat) (err : Option GoString)
  | runnerDone (r : Nat)
  | allDone
  | expire
  | exitTimeout
  | exitDone
  | exitSignal

section

variable {κ ι : Type} [DecidableEq κ]

/-- `h.hooks[group] = append(h.hooks[group], hook)` -/
def registerShutdownHook (hooks : GoMap κ (List ι)) (group : κ) (hook : ι) : GoMap κ (List ι) :=
  hooks.insert group ((hooks.lookup group).getD [] ++ [hook])

/-- The hooks after these registrations. -/
def registered (regs : List (κ × ι)) : GoMap κ (List ι) :=
  regs.foldl (fun hooks reg => registerShutdownHook hooks reg.1 reg.2) GoMap.empty

def logOf (log : List (κ × Event ι)) (g : κ) : List (Event ι) :=
  (log.filter fun e => e.1 = g).map Prod.snd

/-- `signal.Notify` does not wait for room in the channel. -/
def stepSignal (s : State κ ι) : State κ ι :=
  { s with c := min (s.c + 1) signalBuffer, arrived := s.arrived + 1 }

def stepCaught (s : State κ ι) : Option (State κ ι) :=
  match s.phase with
  | .waiting =>
    if s.c = 0 then none
    else some { s with phase := .starting s.hooks.entries, c := s.c - 1 }
  | _ => none

/-- The loop over the map takes the groups in any order. -/
def stepStart (s : State κ ι) (g : κ) : Option (State κ ι) :=
  match s.phase with
  | .starting left =>
    (left.lookup g).map fun hooks =>
      { s with
        phase := .starting (deleteKey left g),
        runners := s.runners ++ [⟨g, hooks, hooks.length, false, false⟩] }
  | _ => none

def stepStarted (s : State κ ι) : Option (State κ ι) :=
  match s.phase with
  | .starting [] => some { s with phase := .select }
  | _ => none

def stepCall (s : State κ ι) (r : Nat) : Option (State κ ι) :=
  match s.runners[r]? with
  | some ⟨g, hooks, i + 1, false, false⟩ =>
    (hooks[i]?).map fun hook =>
      { s with
        runners := s.runners.set r ⟨g, hooks, i + 1, true, false⟩,
        log := s.log ++ [(g, .called hook)] }
  | _ => none

/-- An error of a hook is logged, and nothing else is made of it. -/
def stepReturns (s : State κ ι) (r : Nat) (_err : Option GoString) : Option (State κ ι) :=
  match s.runners[r]? with
  | some ⟨g, hooks, i + 1, true, false⟩ =>
    (hooks[i]?).map fun hook =>
      { s with
        runners := s.runners.set r ⟨g, hooks, i, false, false⟩,
        log := s.log ++ [(g, .returned hook)] }
  | _ => none

/-- `wg.Done()` at the end of the loop. -/
def stepRunnerDone (s : State κ ι) (r : Nat) : Option (State κ ι) :=
  match s.runners[r]? with
  | some ⟨g, hooks, 0, false, false⟩ =>
    some { s with runners := s.runners.set r ⟨g, hooks, 0, false, true⟩ }
  | _ => none

/-- The goroutine behind `wg.Wait()`, started when the loop over the groups is over. -/
def stepAllDone (s : State κ ι) : Option (State κ ι) :=
  match s.phase with
  | .waiting | .starting _ => none
  | .select | .exited _ =>
    if !s.done && s.runners.all Runner.done then some { s with done := true } else none

/-- The time runs from the first signal on. -/
def stepExpire (s : State κ ι) : Option (State κ ι) :=
  match s.phase with
  | .waiting => none
  | _ => if s.expired then none else some { s with expired := true }

def stepExit (s : State κ ι) (ready : Bool) (code : Nat) : Option (State κ ι) :=
  match s.phase with
  | .select => if ready then some { s with phase := .exited code } else none
  | _ => none

def stepExitSignal (s : State κ ι) : Option (State κ ι) :=
  match s.phase with
  | .select => if s.c = 0 then none else some { s with phase := .exited 1, c := s.c - 1 }
  | _ => none

def step (s : State κ ι) : Act κ → Option (State κ ι)
  | .signal => some (stepSignal s)
  | .caught => stepCaught s
  | .start g => stepStart s g
  | .started => stepStarted s
  | .call r => stepCall s r
  | .returns r err => stepReturns s r err
  | .runnerDone r => stepRunnerDone s r
  | .allDone => stepAllDone s
  | .expire => stepExpire s
  | .exitTimeout => stepExit s s.expired 1
  | .exitDone => stepExit s s.done 0
  | .exitSignal => stepExitSignal s

/-- `Start` on a handler with these hooks. -/
def machine (regs : List (κ × ι)) : Machine (State κ ι) (Act κ) :=
  { init := ⟨.waiting, registered regs, [], 0, false, false, 0, []⟩, step := step }

/-! ## What a step can do -/

inductive Step (s : State κ ι) : Act κ → State κ ι → Prop
  | signal : Step s .signal (stepSignal s)
  | caught (hphase : s.phase = .waiting) (hc : s.c ≠ 0) :
      Step s .caught { s with phase := .starting s.hooks.entries, c := s.c - 1 }
  | start (g : κ) (hooks : List ι) (left : List (κ × List ι)) (hphase : s.phase = .starting left)
      (hg : left.lookup g = some hooks) :
      Step s (.start g)
        { s with
          phase := .starting (deleteKey left g),
          runners := s.runners ++ [⟨g, hooks, hooks.length, false, false⟩] }
  | started (hphase : s.phase = .starting []) : Step s .started { s with phase := .select }
  | call (k : Nat) (g : κ) (hooks : List ι) (i : Nat) (hook : ι)
      (hk : s.runners[k]? = some ⟨g, hooks, i + 1, false, false⟩) (hi : hooks[i]? = some hook) :
      Step s (.call k)
        { s with
          runners := s.runners.set k ⟨g, hooks, i + 1, true, false⟩,
          log := s.log ++ [(g, .called hook)] }
  | returns (k : Nat) (err : Option GoString) (g : κ) (hooks : List ι) (i : Nat) (hook : ι)
      (hk : s.runners[k]? = some ⟨g, hooks, i + 1, true, false⟩) (hi : hooks[i]? = some hook) :
      Step s (.returns k err)
        { s with
          runners := s.runners.set k ⟨g, hooks, i, false, false⟩,
          log := s.log ++ [(g, .returned hook)] }
  | runnerDone (k : Nat) (g : κ) (hooks : List ι)
      (hk : s.runners[k]? = some ⟨g, hooks, 0, false, false⟩) :
      Step s (.runnerDone k) { s with runners := s.runners.set k ⟨g, hooks, 0, false, true⟩ }
  | allDone (hphase : s.phase = .select ∨ ∃ code, s.phase = .exited code) (hd : s.done = false)
      (hall : ∀ r ∈ s.runners, r.done = true) : Step s .allDone { s with done := true }
  | expire (hphase : s.phase ≠ .waiting) : Step s .expire { s with expired := true }
  | exitTimeout (hphase : s.phase = .select) (h : s.expired = true) :
      Step s .exitTimeout { s with phase := .exited 1 }
  | exitDone (hphase : s.phase = .select) (h : s.done = true) :
      Step s .exitDone { s with phase := .exited 0 }
  | exitSignal (hphase : s.phase = .select) (hc : s.c ≠ 0) :
      Step s .exitSignal { s with phase := .exited 1, c := s.c - 1 }

theorem stepAllDone_sound {s s' : State κ ι} (h : stepAllDone s = some s') : Step s .allDone s' := by
  have hif (hphase : s.phase = .select ∨ ∃ code, s.phase = .exited code)
      (h : (if !s.done && s.runners.all Runner.done then some { s with done := true } else none) =
        some s') : Step s .allDone s' := by
    split at h
    · rename_i hall
      rw [Bool.and_eq_true, Bool.not_eq_true', List.all_eq_true] at hall
      cases h
      exact .allDone hphase hall.1 hall.2
    · contradiction
  unfold stepAllDone at h
  split at h
  · contradiction
  · contradiction
  · rename_i hphase
    exact hif (.inl hphase) h
  · rename_i code hphase
    exact hif (.inr ⟨code, hphase⟩) h

theorem step_sound {s s' : State κ ι} {a : Act κ} (h : step s a = some s') : Step s a s' := by
  cases a with
  | signal => exact Option.some.inj h ▸ .signal
  | caught =>
    simp only [step, stepCaught] at h
    split at h
    · rename_i hphase
      split at h
      · contradiction
      · rename_i hc
        exact Option.some.inj h ▸ .caught hphase hc
    · contradiction
  | start g =>
    simp only [step, stepStart] at h
    split at h
    · rename_i left hphase
      obtain ⟨hooks, hg, rfl⟩ := Option.map_eq_some_iff.mp h
      exact .start g hooks left hphase hg
    · contradiction
  | started =>
    simp only [step, stepStarted] at h
    split at h
    · rename_i hphase
      exact Option.some.inj h ▸ .started hphase
    · contradiction
  | call k =>
    simp only [step, stepCall] at h
    split at h
    · rename_i g hooks i hk
      obtain ⟨hook, hi, rfl⟩ := Option.map_eq_some_iff.mp h
      exact .call k g hooks i hook hk hi
    · contradiction
  | returns k err =>
    simp only [step, stepReturns] at h
    split at h
    · rename_i g hooks i hk
      obtain ⟨hook, hi, rfl⟩ := Option.map_eq_some_iff.mp h
      exact .returns k err g hooks i hook hk hi
    · contradiction
  | runnerDone k =>
    simp only [step, stepRunnerDone] at h
    split at h
    · rename_i g hooks hk
      exact Option.some.inj h ▸ .runnerDone k g hooks hk
    · contradiction
  | allDone => exact stepAllDone_sound h
  | expire =>
    simp only [step, stepExpire] at h
    split at h
    · contradiction
    · rename_i hphase
      split at h
      · contradiction
      · exact Option.some.inj h ▸ .expire hphase
  | exitTimeout =>
    simp only [step, stepExit] at h
    split at h
    · rename_i hphase
      split at h
      · rename_i hready
        exact Option.some.inj h ▸ .exitTimeout hphase hready
      · contradiction
    · contradiction
  | exitDone =>
    simp only [step, stepExit] at h
    split at h
    · rename_i hphase
      split at h
      · rename_i hready
        exact Option.some.inj h ▸ .exitDone hphase hready
      · contradiction
    · contradiction
  | exitSignal =>
    simp only [step, stepExitSignal] at h
    split at h
    · rename_i hphase
      split at h
      · contradiction
      · rename_i hc
        exact Option.some.inj h ▸ .exitSignal hphase hc
    · contradiction

end

end Selebrow.Signal
