import Selebrow.Signal.Shutdown

/-!
# The shutdown ends

From the first signal on the end can only be put off for as long as hooks hang, and not even
by them once the time is over or a second signal is there.
-/

namespace Selebrow.Signal

open Transition

section

variable {κ ι : Type}

def Exited (s : State κ ι) : Prop := ∃ code, s.phase = .exited code

/-- The steps of the process, the returns of hooks among them. -/
def Act.process : Act κ → Bool
  | .signal | .expire => false
  | _ => true

/-- The steps of `Start` itself. -/
def Act.main : Act κ → Bool
  | .caught | .start _ | .started | .exitTimeout | .exitDone | .exitSignal => true
  | _ => false

/-! ## The measures -/

/-- The steps that a goroutine still has to take. -/
def Runner.left (r : Runner κ ι) : Nat := 2 * r.i + (!r.done).toNat - r.calling.toNat

/-- The steps for a group without a goroutine. -/
def entryLeft (e : κ × List ι) : Nat := 2 * e.2.length + 2

def Phase.left : Phase κ ι → Nat
  | .waiting => 2
  | .starting _ => 1
  | .select | .exited _ => 0

def State.left (s : State κ ι) : Nat :=
  s.phase.left + tally entryLeft s.todo + tally Runner.left s.runners + (!s.done).toNat

def State.mainLeft (s : State κ ι) : Nat := s.phase.left + s.todo.length

variable [DecidableEq κ]

section

variable {regs : List (κ × ι)} {s s' : State κ ι} {a : Act κ}

theorem Inv.todo_nodup (h : Inv regs s) : (s.todo.map Prod.fst).Nodup := by
  have hnodup := (h.tracks.groups.map Prod.fst).nodup_iff.mpr s.hooks.nodup
  rw [List.map_append] at hnodup
  exact (List.nodup_append.mp hnodup).2.1

omit [DecidableEq κ] in
/-- A goroutine that goes on has less left. -/
theorem left_set (s : State κ ι) {k : Nat} {r r' : Runner κ ι} (hk : s.runners[k]? = some r)
    (hlt : r'.left + 1 = r.left) (log : List (κ × Event ι)) :
    State.left { s with runners := s.runners.set k r', log := log } + 1 = s.left := by
  have hset := tally_set Runner.left r' hk
  show s.phase.left + tally entryLeft s.todo + tally Runner.left (s.runners.set k r') +
    (!s.done).toNat + 1 = _
  rw [State.left]
  omega

/-- The steps of the process use its measure up, and the others leave it. -/
theorem left_step (h : Inv regs s) (hs : step s a = some s') (hx' : ¬ Exited s') :
    s'.left + a.process.toNat = s.left := by
  cases step_sound hs with
  | signal => rfl
  | caught hphase hc =>
    simp only [State.left, State.todo, Phase.left, hphase, Act.process, Bool.toNat_true]
    omega
  | start g hooks left hphase hg =>
    have hnodup := h.todo_nodup
    rw [State.todo, hphase] at hnodup
    have hperm := tally_perm entryLeft (GoMap.perm_of_lookup hnodup hg)
    simp only [tally_cons, entryLeft] at hperm
    have hnew : Runner.left (⟨g, hooks, hooks.length, false, false⟩ : Runner κ ι) =
      2 * hooks.length + 1 := rfl
    simp only [State.left, State.todo, Phase.left, hphase, Act.process, Bool.toNat_true,
      tally_append, tally_cons, tally_nil, hnew]
    omega
  | started hphase =>
    simp only [State.left, State.todo, Phase.left, hphase, Act.process, Bool.toNat_true]
    omega
  | call k g hooks i hook hk hi => exact left_set s hk rfl _
  | returns k err g hooks i hook hk hi => exact left_set s hk rfl _
  | runnerDone k g hooks hk => exact left_set s hk rfl _
  | allDone hphase hd hall =>
    simp only [State.left, State.todo, Act.process, hd, Bool.not_true, Bool.not_false,
      Bool.toNat_true, Bool.toNat_false]
  | expire hphase => rfl
  | exitTimeout hphase hexp => exact absurd ⟨1, rfl⟩ hx'
  | exitDone hphase hd => exact absurd ⟨0, rfl⟩ hx'
  | exitSignal hphase hc => exact absurd ⟨1, rfl⟩ hx'

theorem mainLeft_step (h : Inv regs s) (hs : step s a = some s') (hx' : ¬ Exited s') :
    s'.mainLeft + a.main.toNat = s.mainLeft := by
  cases step_sound hs with
  | caught hphase hc =>
    simp only [State.mainLeft, State.todo, Phase.left, hphase, Act.main, Bool.toNat_true]
    omega
  | start g hooks left hphase hg =>
    have hnodup := h.todo_nodup
    rw [State.todo, hphase] at hnodup
    have hperm : left.length = (deleteKey left g).length + 1 := (GoMap.perm_of_lookup hnodup hg).length_eq
    simp only [State.mainLeft, State.todo, Phase.left, hphase, Act.main, Bool.toNat_true]
    omega
  | started hphase =>
    simp only [State.mainLeft, State.todo, Phase.left, hphase, Act.main, Bool.toNat_true,
      List.length_nil]
  | exitTimeout hphase hexp => exact absurd ⟨1, rfl⟩ hx'
  | exitDone hphase hd => exact absurd ⟨0, rfl⟩ hx'
  | exitSignal hphase hc => exact absurd ⟨1, rfl⟩ hx'
  | signal => rfl
  | call k g hooks i hook hk hi => rfl
  | returns k err g hooks i hook hk hi => rfl
  | runnerDone k g hooks hk => rfl
  | allDone hphase hd hall => rfl
  | expire hphase => rfl

end

/-! ## The bounds -/

theorem lookup_entryLeft (m : GoMap κ (List ι)) (g : κ) (hooks : List ι) :
    tally entryLeft (m.insert g hooks).entries + (m.lookup g).elim 0 (fun old => entryLeft (g, old)) =
      tally entryLeft m.entries + entryLeft (g, hooks) := by
  show tally entryLeft ((g, hooks) :: deleteKey m.entries g) + _ = _
  rw [tally_cons]
  cases hg : m.lookup g with
  | none =>
    have hself : deleteKey m.entries g = m.entries := by
      apply deleteKey_eq_self
      intro v hv
      rw [GoMap.mem_iff_lookup, hg] at hv
      contradiction
    rw [hself, Option.elim_none]
    omega
  | some old =>
    have hperm := tally_perm entryLeft (GoMap.perm_of_lookup m.nodup hg)
    rw [tally_cons] at hperm
    rw [hperm, Option.elim_some]
    omega

/-- A registration makes for at most four steps. -/
theorem tally_registerShutdownHook (m : GoMap κ (List ι)) (g : κ) (hook : ι) :
    tally entryLeft (registerShutdownHook m g hook).entries ≤ tally entryLeft m.entries + 4 := by
  have h := lookup_entryLeft m g ((m.lookup g).getD [] ++ [hook])
  rw [entryLeft, List.length_append, List.length_singleton] at h
  rw [registerShutdownHook]
  cases hg : m.lookup g with
  | none =>
    rw [hg, Option.elim_none, Option.getD_none, List.length_nil] at h
    rw [Option.getD_none]
    omega
  | some old =>
    rw [hg, Option.elim_some, entryLeft, Option.getD_some] at h
    rw [Option.getD_some]
    simp only at h
    omega

theorem tally_registered (regs : List (κ × ι)) :
    tally entryLeft (registered regs).entries ≤ 4 * regs.length := by
  have hfold (m : GoMap κ (List ι)) :
      tally entryLeft (regs.foldl (fun hooks reg => registerShutdownHook hooks reg.1 reg.2) m).entries ≤
        tally entryLeft m.entries + 4 * regs.length := by
    induction regs generalizing m with
    | nil => exact Nat.le_refl _
    | cons reg regs ih =>
      rw [List.foldl_cons, List.length_cons]
      have := ih (registerShutdownHook m reg.1 reg.2)
      have := tally_registerShutdownHook m reg.1 reg.2
      omega
  have := hfold GoMap.empty
  have hempty : tally entryLeft (GoMap.empty : GoMap κ (List ι)).entries = 0 := rfl
  rw [hempty] at this
  rw [registered]
  omega

theorem length_registered (regs : List (κ × ι)) :
    (registered regs).entries.length ≤ regs.length := by
  have hfold (m : GoMap κ (List ι)) :
      (regs.foldl (fun hooks reg => registerShutdownHook hooks reg.1 reg.2) m).entries.length ≤
        m.entries.length + regs.length := by
    induction regs generalizing m with
    | nil => exact Nat.le_refl _
    | cons reg regs ih =>
      rw [List.foldl_cons, List.length_cons]
      have := ih (registerShutdownHook m reg.1 reg.2)
      have hinsert : (registerShutdownHook m reg.1 reg.2).entries.length ≤ m.entries.length + 1 :=
        Nat.succ_le_succ (List.length_filter_le _ _)
      omega
  have := hfold GoMap.empty
  have hempty : (GoMap.empty : GoMap κ (List ι)).entries.length = 0 := rfl
  rw [hempty] at this
  rw [registered]
  omega

/-! ## A step can be taken -/

section

variable {regs : List (κ × ι)} {s s' : State κ ι}

/-- In the loop over the groups there is a group to start, or the loop is over. -/
theorem start_enabled {left : List (κ × List ι)} (hphase : s.phase = .starting left) :
    ∃ a : Act κ, a.main = true ∧ a.process = true ∧ (step s a).isSome = true := by
  cases left with
  | nil =>
    refine ⟨.started, rfl, rfl, ?_⟩
    rw [step, stepStarted, hphase]
    rfl
  | cons e left =>
    refine ⟨.start e.1, rfl, rfl, ?_⟩
    have hlookup : (e :: left).lookup e.1 = some e.2 := by
      rw [List.lookup_cons, beq_self_eq_true]
    rw [step, stepStart, hphase]
    show (Option.map _ ((e :: left).lookup e.1)).isSome = true
    rw [hlookup]
    rfl

theorem caught_enabled (h : Inv regs s) (hphase : s.phase = .waiting) (hsig : 1 ≤ s.arrived) :
    (step s .caught).isSome = true := by
  have hc := (h.caught.waiting hphase).1
  unfold signalBuffer at hc
  have hne : s.c ≠ 0 := by omega
  rw [step, stepCaught, hphase]
  show (if s.c = 0 then none else _).isSome = true
  rw [if_neg hne]
  rfl

/-- A goroutine that is not done can go on, if need be with the return of its hook. -/
theorem runner_enabled (h : Inv regs s) {k : Nat} {r : Runner κ ι} (hk : s.runners[k]? = some r)
    (hr : r.done = false) : ∃ a : Act κ, a.process = true ∧ (step s a).isSome = true := by
  have hmem := List.mem_of_getElem? hk
  obtain ⟨g, hooks, i, calling, done⟩ := r
  cases hr
  cases i with
  | zero =>
    cases calling with
    | true => exact absurd rfl (h.tracks.calling _ hmem rfl)
    | false =>
      refine ⟨.runnerDone k, rfl, ?_⟩
      rw [step, stepRunnerDone, hk]
      rfl
  | succ i =>
    have hlt : i < hooks.length := h.tracks.bound _ hmem
    have hi : hooks[i]? = some hooks[i] := List.getElem?_eq_getElem hlt
    cases calling with
    | true =>
      refine ⟨.returns k none, rfl, ?_⟩
      rw [step, stepReturns, hk]
      show (Option.map _ hooks[i]?).isSome = true
      rw [hi]
      rfl
    | false =>
      refine ⟨.call k, rfl, ?_⟩
      rw [step, stepCall, hk]
      show (Option.map _ hooks[i]?).isSome = true
      rw [hi]
      rfl

theorem process_enabled (h : Inv regs s) (hsig : 1 ≤ s.arrived) (hx : ¬ Exited s) :
    ∃ a : Act κ, a.process = true ∧ (step s a).isSome = true := by
  cases hphase : s.phase with
  | waiting => exact ⟨.caught, rfl, caught_enabled h hphase hsig⟩
  | starting left =>
    obtain ⟨a, _, ha, hen⟩ := start_enabled hphase
    exact ⟨a, ha, hen⟩
  | exited code => exact absurd ⟨code, hphase⟩ hx
  | select =>
    by_cases hd : s.done = true
    · refine ⟨.exitDone, rfl, ?_⟩
      rw [step, stepExit, hphase]
      show (if s.done = true then _ else none).isSome = true
      rw [if_pos hd]
      rfl
    by_cases hall : ∀ r ∈ s.runners, r.done = true
    · refine ⟨.allDone, rfl, ?_⟩
      have hcond : (!s.done && s.runners.all Runner.done) = true := by
        rw [Bool.and_eq_true, List.all_eq_true]
        exact ⟨by simpa using hd, hall⟩
      rw [step, stepAllDone, hphase]
      show (if (!s.done && s.runners.all Runner.done) = true then _ else none).isSome = true
      rw [if_pos hcond]
      rfl
    · obtain ⟨r, hnot⟩ := Classical.not_forall.mp hall
      obtain ⟨hr, hrd⟩ := Classical.not_imp.mp hnot
      obtain ⟨k, hk⟩ := List.mem_iff_getElem?.mp hr
      exact runner_enabled h hk (by simpa using hrd)

theorem main_enabled (h : Inv regs s) (hsig : 1 ≤ s.arrived)
    (hwhy : s.expired = true ∨ 2 ≤ s.arrived) (hx : ¬ Exited s) :
    ∃ a : Act κ, a.main = true ∧ (step s a).isSome = true := by
  cases hphase : s.phase with
  | waiting => exact ⟨.caught, rfl, caught_enabled h hphase hsig⟩
  | starting left =>
    obtain ⟨a, ha, _, hen⟩ := start_enabled hphase
    exact ⟨a, ha, hen⟩
  | exited code => exact absurd ⟨code, hphase⟩ hx
  | select =>
    rcases hwhy with hexp | htwo
    · refine ⟨.exitTimeout, rfl, ?_⟩
      rw [step, stepExit, hphase]
      show (if s.expired = true then _ else none).isSome = true
      rw [if_pos hexp]
      rfl
    · have hc : s.c ≠ 0 := by
        rcases h.caught.second (by rw [hphase]; simp) htwo with hcode | hc
        · exact absurd hcode hx
        · omega
      refine ⟨.exitSignal, rfl, ?_⟩
      rw [step, stepExitSignal, hphase]
      show (if s.c = 0 then none else _).isSome = true
      rw [if_neg hc]
      rfl

theorem mono_step {a : Act κ} (hs : step s a = some s') :
    (s.expired = true → s'.expired = true) ∧ s.arrived ≤ s'.arrived := by
  cases step_sound hs with
  | signal => exact ⟨id, Nat.le_succ s.arrived⟩
  | expire hphase => exact ⟨fun _ => rfl, Nat.le_refl _⟩
  | _ => exact ⟨id, Nat.le_refl _⟩

end

/-! ## The end -/

section

variable {regs : List (κ × ι)} {s : State κ ι}

omit [DecidableEq κ] in
theorem Phase.left_le (phase : Phase κ ι) : phase.left ≤ 2 := by
  cases phase with
  | waiting => exact Nat.le_refl 2
  | starting _ => exact Nat.le_succ 1
  | select => exact Nat.zero_le 2
  | exited _ => exact Nat.zero_le 2

theorem Inv.left_le (h : Inv regs s) : s.left ≤ 4 * regs.length + 3 := by
  have hgroups := tally_perm entryLeft h.tracks.groups
  rw [tally_append, tally_map, h.hooks] at hgroups
  have hrunners : tally Runner.left s.runners ≤ tally (fun r => entryLeft r.entry) s.runners := by
    apply tally_le
    intro r hr
    have := h.tracks.bound r hr
    have := Bool.toNat_le (!r.done)
    show 2 * r.i + (!r.done).toNat - r.calling.toNat ≤ 2 * r.hooks.length + 2
    omega
  have := tally_registered regs
  have := s.phase.left_le
  have := Bool.toNat_le (!s.done)
  rw [State.left]
  omega

theorem Inv.mainLeft_le (h : Inv regs s) : s.mainLeft ≤ regs.length + 2 := by
  have hgroups := h.tracks.groups.length_eq
  rw [List.length_append, h.hooks] at hgroups
  have := length_registered regs
  have := s.phase.left_le
  rw [State.mainLeft]
  omega

end

structure Signalled (regs : List (κ × ι)) (s : State κ ι) : Prop where
  inv : Inv regs s
  signal : 1 ≤ s.arrived

/-- `Start` need not wait for the hooks any longer. -/
structure CutOff (regs : List (κ × ι)) (s : State κ ι) : Prop extends Signalled regs s where
  why : s.expired = true ∨ 2 ≤ s.arrived

/-- From every reachable state behind the first signal `Start` comes to its end, however
signals and the timeout fall in between: with `n` hooks registered there are at most `4n + 3`
steps of the process before it returns, if hooks return, and at most `n + 2` of its own, if
the time is over or two signals have been sent, though no hook ever returns. -/
theorem exits (regs : List (κ × ι)) (s : State κ ι) (h : (machine regs).Reachable s)
    (hsig : 1 ≤ s.arrived) :
    (machine regs).Inevitable (fun _ _ => True) Act.process Exited (4 * regs.length + 3) s ∧
      (s.expired = true ∨ 2 ≤ s.arrived →
        (machine regs).Inevitable (fun _ _ => True) Act.main Exited (regs.length + 2) s) := by
  have hinv := Inv.of_reachable h
  constructor
  · have hstart : Signalled regs s := ⟨hinv, hsig⟩
    apply Machine.Inevitable.of_measure State.left ?_ ?_ ?_ hstart hinv.left_le
    · intro t a t' ht _ hs _ _
      exact ⟨inv_step ht.inv hs, Nat.le_trans ht.signal (mono_step hs).2⟩
    · intro t a t' ht _ hs _ hx'
      exact Nat.le_of_eq (left_step ht.inv hs hx')
    · intro t ht hx
      exact process_enabled ht.inv ht.signal hx
  · intro hwhy
    have hstart : CutOff regs s := ⟨⟨hinv, hsig⟩, hwhy⟩
    apply Machine.Inevitable.of_measure State.mainLeft ?_ ?_ ?_ hstart hinv.mainLeft_le
    · intro t a t' ht _ hs _ _
      obtain ⟨hexp, hle⟩ := mono_step hs
      exact ⟨⟨inv_step ht.inv hs, Nat.le_trans ht.signal hle⟩,
        ht.why.imp hexp (fun htwo => Nat.le_trans htwo hle)⟩
    · intro t a t' ht _ hs _ hx'
      exact Nat.le_of_eq (mainLeft_step ht.inv hs hx')
    · intro t ht hx
      exact main_enabled ht.inv ht.signal ht.why hx

end

/-! The same server and proxy, with the first signal caught and a hook that hangs. -/

def hangingRun : List (Act Nat) := [.signal, .caught, .start 0, .call 0, .expire]

def hangingState : State Nat Nat :=
  ((machine sampleRegs).run (machine sampleRegs).init hangingRun).getD (machine sampleRegs).init

theorem exits_hanging :
    (machine sampleRegs).Inevitable (fun _ _ => True) Act.process Exited 15 hangingState ∧
      (machine sampleRegs).Inevitable (fun _ _ => True) Act.main Exited 5 hangingState := by
  have hreach : (machine sampleRegs).Reachable hangingState :=
    Machine.reachable_of_run hangingRun rfl
  obtain ⟨hprocess, hmain⟩ := exits sampleRegs hangingState hreach (by decide)
  exact ⟨hprocess, hmain (.inl rfl)⟩

end Selebrow.Signal
