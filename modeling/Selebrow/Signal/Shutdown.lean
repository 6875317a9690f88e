import Selebrow.Signal.Handler
import Selebrow.Transition.Entries
import Selebrow.Transition.Progress
import Selebrow.Transition.Tally

/-!
# What a shutdown does

The hooks of a group are called in the reverse order of their registration, each after the
last one has returned, and `Start` returns zero only behind all of them.  It does return:
when the hooks do, or, if they hang, with the timeout or the second signal.
-/

namespace Selebrow.Signal

open Transition

section

variable {κ ι : Type}

/-- Hooks called one after the other. -/
def trace (hooks : List ι) : List (Event ι) :=
  hooks.flatMap fun hook => [.called hook, .returned hook]

theorem trace_cons (hook : ι) (hooks : List ι) :
    trace (hook :: hooks) = .called hook :: .returned hook :: trace hooks := rfl

theorem length_trace (hooks : List ι) : (trace hooks).length = 2 * hooks.length := by
  induction hooks with
  | nil => rfl
  | cons hook hooks ih =>
    rw [trace_cons, List.length_cons, List.length_cons, ih, List.length_cons]
    omega

theorem getElem?_trace (hooks : List ι) (k : Nat) :
    (trace hooks)[2 * k]? = hooks[k]?.map .called ∧
      (trace hooks)[2 * k + 1]? = hooks[k]?.map .returned := by
  induction hooks generalizing k with
  | nil => exact ⟨rfl, rfl⟩
  | cons hook hooks ih =>
    cases k with
    | zero => exact ⟨rfl, rfl⟩
    | succ k =>
      rw [trace_cons, Nat.mul_succ]
      exact ih k

theorem take_concat {γ : Type} {l : List γ} {n : Nat} {c : γ} (h : l[n]? = some c) :
    l.take (n + 1) = l.take n ++ [c] := by
  rw [List.take_add_one, h]
  rfl

variable [DecidableEq κ]

/-! ## Registration -/

/-- The hooks of a group as they are to be called. -/
def inOrder (regs : List (κ × ι)) (g : κ) : List ι :=
  ((regs.filter fun reg => reg.1 = g).map Prod.snd).reverse

theorem lookup_foldl_register (regs : List (κ × ι)) (hooks : GoMap κ (List ι)) (g : κ) :
    ((regs.foldl (fun hooks reg => registerShutdownHook hooks reg.1 reg.2) hooks).lookup g).getD [] =
      (hooks.lookup g).getD [] ++ (regs.filter fun reg => reg.1 = g).map Prod.snd := by
  induction regs generalizing hooks with
  | nil => exact (List.append_nil _).symm
  | cons reg regs ih =>
    rw [List.foldl_cons, ih, registerShutdownHook, GoMap.lookup_insert]
    by_cases hg : g = reg.1
    · rw [if_pos hg, List.filter_cons_of_pos (by simpa using hg.symm), ← hg, List.map_cons]
      simp
    · rw [if_neg hg, List.filter_cons_of_neg (by simpa using Ne.symm hg)]

theorem lookup_registered (regs : List (κ × ι)) (g : κ) :
    ((registered regs).lookup g).getD [] = (inOrder regs g).reverse := by
  rw [registered, lookup_foldl_register, inOrder, List.reverse_reverse]
  rfl

theorem reverse_of_mem {regs : List (κ × ι)} {g : κ} {hooks : List ι}
    (h : (g, hooks) ∈ (registered regs).entries) : hooks.reverse = inOrder regs g := by
  have hlookup := lookup_registered regs g
  rw [(GoMap.mem_iff_lookup _).mp h] at hlookup
  rw [← List.reverse_reverse (inOrder regs g), ← hlookup]
  rfl

/-! ## The hooks and their log -/

/-- The events that the goroutine has behind it. -/
def Runner.pos (r : Runner κ ι) : Nat := 2 * (r.hooks.length - r.i) + r.calling.toNat

def Runner.entry (r : Runner κ ι) : κ × List ι := (r.group, r.hooks)

/-- The goroutines and the groups without one yet, against the hooks and the log. -/
structure Tracks (entries : List (κ × List ι)) (runners : List (Runner κ ι))
    (left : List (κ × List ι)) (log : List (κ × Event ι)) : Prop where
  groups : (runners.map Runner.entry ++ left).Perm entries
  bound : ∀ r ∈ runners, r.i ≤ r.hooks.length
  calling : ∀ r ∈ runners, r.calling = true → r.i ≠ 0
  done : ∀ r ∈ runners, r.done = true → r.i = 0
  logged : ∀ r ∈ runners, logOf log r.group = (trace r.hooks.reverse).take r.pos
  silent : ∀ g, (∀ r ∈ runners, r.group ≠ g) → logOf log g = []

theorem logOf_append (log log' : List (κ × Event ι)) (g : κ) :
    logOf (log ++ log') g = logOf log g ++ logOf log' g := by
  rw [logOf, List.filter_append, List.map_append]
  rfl

theorem logOf_singleton_self (g : κ) (e : Event ι) : logOf [(g, e)] g = [e] := by
  rw [logOf, List.filter_cons_of_pos (by simp)]
  rfl

theorem logOf_singleton_ne {g g' : κ} (h : g' ≠ g) (e : Event ι) : logOf [(g', e)] g = [] := by
  rw [logOf, List.filter_cons_of_neg (by simpa using h)]
  rfl

section

variable {entries left : List (κ × List ι)} {runners : List (Runner κ ι)}
  {log : List (κ × Event ι)} {r r' : Runner κ ι} {k : Nat}

theorem Tracks.nodup (h : Tracks entries runners left log) (hnodup : (entries.map Prod.fst).Nodup) :
    (runners.map Runner.group).Nodup := by
  have hperm := (h.groups.map Prod.fst).nodup_iff.mpr hnodup
  rw [List.map_append, List.map_map] at hperm
  exact (List.nodup_append.mp hperm).1

/-- Two goroutines are of different groups. -/
theorem Tracks.group_ne (h : Tracks entries runners left log) (hnodup : (entries.map Prod.fst).Nodup)
    {j : Nat} (hk : runners[k]? = some r) (hj : runners[j]? = some r') (hne : k ≠ j) :
    r'.group ≠ r.group := by
  intro heq
  have hkj : (runners.map Runner.group)[k]? = (runners.map Runner.group)[j]? := by
    rw [List.getElem?_map, List.getElem?_map, hk, hj, Option.map_some, Option.map_some, heq]
  have hlt : k < (runners.map Runner.group).length := by
    rw [List.length_map]
    exact lt_of_getElem? hk
  exact hne ((List.getElem?_inj hlt (h.nodup hnodup)).mp hkj)

theorem Tracks.start (h : Tracks entries runners left log) (hnodup : (entries.map Prod.fst).Nodup)
    {g : κ} {hooks : List ι} (hg : left.lookup g = some hooks) :
    Tracks entries (runners ++ [⟨g, hooks, hooks.length, false, false⟩]) (deleteKey left g) log := by
  have hsplit : left.Perm ((g, hooks) :: deleteKey left g) := by
    have hleft := (h.groups.map Prod.fst).nodup_iff.mpr hnodup
    rw [List.map_append] at hleft
    exact GoMap.perm_of_lookup (List.nodup_append.mp hleft).2.1 hg
  have hnew : ∀ r ∈ runners, r.group ≠ g := by
    intro r hr heq
    have hnd := (h.groups.map Prod.fst).nodup_iff.mpr hnodup
    rw [List.map_append, List.nodup_append] at hnd
    have hmem : g ∈ left.map Prod.fst := by
      rw [(hsplit.map Prod.fst).mem_iff]
      exact List.mem_cons_self
    exact hnd.2.2 r.group (List.mem_map_of_mem (List.mem_map_of_mem hr)) g hmem heq
  refine ⟨?_, forall_mem_append h.bound ?_, forall_mem_append h.calling ?_,
    forall_mem_append h.done ?_, forall_mem_append h.logged ?_, ?_⟩
  · rw [List.map_append, List.append_assoc]
    exact (hsplit.symm.append_left _).trans h.groups
  · simp
  · simp
  · simp
  · intro r hr
    rw [List.mem_singleton.mp hr, h.silent g hnew]
    simp [Runner.pos]
  · intro g' hg'
    exact h.silent g' fun r hr => hg' r (List.mem_append_left _ hr)

/-- A goroutine goes on, with an event or without. -/
theorem Tracks.set (h : Tracks entries runners left log) (hnodup : (entries.map Prod.fst).Nodup)
    (hk : runners[k]? = some r) (hentry : r'.entry = r.entry)
    (hbound : r'.i ≤ r'.hooks.length) (hcalling : r'.calling = true → r'.i ≠ 0)
    (hdone : r'.done = true → r'.i = 0) {log' : List (κ × Event ι)}
    (hlog : logOf log' r.group = (trace r.hooks.reverse).take r'.pos)
    (hother : ∀ g, g ≠ r.group → logOf log' g = logOf log g) :
    Tracks entries (runners.set k r') left log' := by
  have hgroup : r'.group = r.group := congrArg Prod.fst hentry
  have hhooks : r'.hooks = r.hooks := congrArg Prod.snd hentry
  refine ⟨?_, forall_mem_set h.bound hbound, forall_mem_set h.calling hcalling,
    forall_mem_set h.done hdone, ?_, ?_⟩
  · have hkentry : (runners.map Runner.entry)[k]? = some r.entry := by
      rw [List.getElem?_map, hk]
      rfl
    rw [List.map_set, hentry, set_eq_self hkentry]
    exact h.groups
  · intro x hx
    obtain ⟨j, hj⟩ := List.mem_iff_getElem?.mp hx
    rcases getElem?_set_some hj with ⟨_, rfl⟩ | ⟨hne, hj⟩
    · rw [hgroup, hhooks]
      exact hlog
    · rw [hother _ (h.group_ne hnodup hk hj hne)]
      exact h.logged x (List.mem_of_getElem? hj)
  · intro g hg
    have hr' : r'.group ≠ g := hg r' (List.mem_of_getElem? (getElem?_set_eq hk))
    rw [hother g (fun heq => hr' (hgroup.trans heq.symm))]
    apply h.silent
    intro x hx
    by_cases hxr : x = r
    · rw [hxr, ← hgroup]
      exact hr'
    · exact hg x (mem_set_of_ne hk hx hxr r')

/-- The next event of a goroutine is the next one of its trace. -/
theorem Tracks.event (h : Tracks entries runners left log) (hnodup : (entries.map Prod.fst).Nodup)
    (hk : runners[k]? = some r) (hentry : r'.entry = r.entry)
    (hbound : r'.i ≤ r'.hooks.length) (hcalling : r'.calling = true → r'.i ≠ 0)
    (hdone : r'.done = true → r'.i = 0) (hpos : r'.pos = r.pos + 1) {e : Event ι}
    (he : (trace r.hooks.reverse)[r.pos]? = some e) :
    Tracks entries (runners.set k r') left (log ++ [(r.group, e)]) := by
  apply h.set hnodup hk hentry hbound hcalling hdone
  · rw [logOf_append, logOf_singleton_self, h.logged r (List.mem_of_getElem? hk), hpos,
      take_concat he]
  · intro g hg
    rw [logOf_append, logOf_singleton_ne (Ne.symm hg), List.append_nil]

end

/-! ## The invariant -/

/-- The groups that have no goroutine yet. -/
def State.todo (s : State κ ι) : List (κ × List ι) :=
  match s.phase with
  | .waiting => s.hooks.entries
  | .starting left => left
  | .select | .exited _ => []

/-- What the phase says of the signals, the time and the code. -/
structure Caught (s : State κ ι) : Prop where
  waiting : s.phase = .waiting → s.c = min s.arrived signalBuffer ∧ s.expired = false
  later : s.phase ≠ .waiting → 1 ≤ s.arrived ∧ (1 ≤ s.c → 2 ≤ s.arrived)
  second : s.phase ≠ .waiting → 2 ≤ s.arrived → (∃ code, s.phase = .exited code) ∨ 1 ≤ s.c
  code : ∀ code, s.phase = .exited code →
    (code = 0 ∧ s.done = true) ∨ (code = 1 ∧ (s.expired = true ∨ 2 ≤ s.arrived))

structure Inv (regs : List (κ × ι)) (s : State κ ι) : Prop where
  hooks : s.hooks = registered regs
  tracks : Tracks s.hooks.entries s.runners s.todo s.log
  done : s.done = true → s.todo = [] ∧ ∀ r ∈ s.runners, r.done = true
  caught : Caught s

section

variable {regs : List (κ × ι)} {s s' : State κ ι}

theorem inv_init (regs : List (κ × ι)) : Inv regs (machine regs).init := by
  refine ⟨rfl, ?_, ?_, ?_⟩
  · refine ⟨List.Perm.refl _, ?_, ?_, ?_, ?_, fun _ _ => rfl⟩
    all_goals
      intro r hr
      contradiction
  · intro h
    contradiction
  · refine ⟨fun _ => ⟨rfl, rfl⟩, fun h => absurd rfl h, fun h => absurd rfl h, ?_⟩
    intro code h
    contradiction

theorem inv_signal (h : Inv regs s) : Inv regs (stepSignal s) := by
  refine ⟨h.hooks, h.tracks, h.done, ?_⟩
  have hc := h.caught
  refine ⟨?_, ?_, ?_, ?_⟩
  · intro hw
    obtain ⟨hcount, hexp⟩ := hc.waiting hw
    refine ⟨?_, hexp⟩
    show min (s.c + 1) signalBuffer = min (s.arrived + 1) signalBuffer
    rw [hcount]
    unfold signalBuffer
    omega
  · intro hw
    have := hc.later hw
    show 1 ≤ s.arrived + 1 ∧ (1 ≤ min (s.c + 1) signalBuffer → 2 ≤ s.arrived + 1)
    omega
  · intro hw _
    right
    show 1 ≤ min (s.c + 1) signalBuffer
    unfold signalBuffer
    omega
  · intro code hcode
    rcases hc.code code hcode with hzero | ⟨hone, hwhy⟩
    · exact .inl hzero
    · refine .inr ⟨hone, hwhy.imp_right ?_⟩
      intro htwo
      show 2 ≤ s.arrived + 1
      omega

theorem inv_caught (h : Inv regs s) (hphase : s.phase = .waiting) (hzero : s.c ≠ 0) :
    Inv regs { s with phase := .starting s.hooks.entries, c := s.c - 1 } := by
  have htracks := h.tracks
  have hdone := h.done
  obtain ⟨hcount, _⟩ := h.caught.waiting hphase
  unfold signalBuffer at hcount
  rw [State.todo, hphase] at htracks hdone
  refine ⟨h.hooks, htracks, hdone, ?_, ?_, ?_, ?_⟩
  · intro hw
    contradiction
  · intro _
    show 1 ≤ s.arrived ∧ (1 ≤ s.c - 1 → 2 ≤ s.arrived)
    omega
  · intro _ htwo
    right
    show 1 ≤ s.c - 1
    have : 2 ≤ s.arrived := htwo
    omega
  · intro code hcode
    contradiction

omit [DecidableEq κ] in
/-- A step that moves on in the phases behind the first signal, short of the end. -/
theorem Caught.move (h : Caught s) {phase : Phase κ ι} (hphase : s.phase ≠ .waiting)
    (hopen : ∀ code, s.phase ≠ .exited code) (hw : phase ≠ .waiting)
    (hx : ∀ code, phase ≠ .exited code) (runners : List (Runner κ ι)) :
    Caught { s with phase := phase, runners := runners } := by
  refine ⟨fun heq => absurd heq hw, fun _ => h.later hphase, ?_, fun code heq => absurd heq (hx code)⟩
  intro _ htwo
  right
  rcases h.second hphase htwo with ⟨code, hcode⟩ | hc
  · exact absurd hcode (hopen code)
  · exact hc

theorem inv_start (h : Inv regs s) {g : κ} {hooks : List ι} {left : List (κ × List ι)}
    (hphase : s.phase = .starting left) (hg : left.lookup g = some hooks) :
    Inv regs
      { s with
        phase := .starting (deleteKey left g),
        runners := s.runners ++ [⟨g, hooks, hooks.length, false, false⟩] } := by
  have htracks := h.tracks
  have hdone := h.done
  rw [State.todo, hphase] at htracks hdone
  refine ⟨h.hooks, htracks.start s.hooks.nodup hg, ?_, ?_⟩
  · intro hd
    obtain ⟨hnil, _⟩ := hdone hd
    rw [show left = [] from hnil] at hg
    contradiction
  · apply h.caught.move
    · rw [hphase]
      simp
    · rw [hphase]
      simp
    · simp
    · simp

theorem inv_started (h : Inv regs s) (hphase : s.phase = .starting []) :
    Inv regs { s with phase := .select } := by
  have htracks := h.tracks
  have hdone := h.done
  rw [State.todo, hphase] at htracks hdone
  refine ⟨h.hooks, htracks, hdone, ?_⟩
  apply h.caught.move
  · rw [hphase]
    simp
  · rw [hphase]
    simp
  · simp
  · simp

/-- While a goroutine runs, `done` is open. -/
theorem Inv.not_done (h : Inv regs s) {k : Nat} {r : Runner κ ι} (hk : s.runners[k]? = some r)
    (hr : r.done = false) : s.done = false := by
  rw [Bool.eq_false_iff]
  intro hd
  have := (h.done hd).2 r (List.mem_of_getElem? hk)
  rw [hr] at this
  contradiction

/-- A step of a goroutine that is not done yet. -/
theorem Inv.runner (h : Inv regs s) {k : Nat} {r r' : Runner κ ι} {log : List (κ × Event ι)}
    (hk : s.runners[k]? = some r) (hr : r.done = false)
    (htracks : Tracks s.hooks.entries (s.runners.set k r') s.todo log) :
    Inv regs { s with runners := s.runners.set k r', log := log } := by
  have hnot := h.not_done hk hr
  refine ⟨h.hooks, htracks, ?_, ⟨h.caught.waiting, h.caught.later, h.caught.second, h.caught.code⟩⟩
  intro hd
  rw [show s.done = true from hd] at hnot
  contradiction

theorem inv_call (h : Inv regs s) {k : Nat} {g : κ} {hooks : List ι} {i : Nat} {hook : ι}
    (hk : s.runners[k]? = some ⟨g, hooks, i + 1, false, false⟩) (hi : hooks[i]? = some hook) :
    Inv regs
      { s with
        runners := s.runners.set k ⟨g, hooks, i + 1, true, false⟩,
        log := s.log ++ [(g, .called hook)] } := by
  have hlt : i < hooks.length := lt_of_getElem? hi
  have hentry : (⟨g, hooks, i + 1, true, false⟩ : Runner κ ι).entry = (g, hooks) := rfl
  apply h.runner hk rfl
  apply h.tracks.event s.hooks.nodup hk hentry
  · exact hlt
  · intro _
    exact Nat.succ_ne_zero i
  · intro hd
    contradiction
  · rfl
  · show (trace hooks.reverse)[2 * (hooks.length - (i + 1)) + 0]? = _
    rw [Nat.add_zero, (getElem?_trace _ _).1, List.getElem?_reverse (by omega)]
    rw [show hooks.length - 1 - (hooks.length - (i + 1)) = i by omega, hi]
    rfl

theorem inv_returns (h : Inv regs s) {k : Nat} {g : κ} {hooks : List ι} {i : Nat} {hook : ι}
    (hk : s.runners[k]? = some ⟨g, hooks, i + 1, true, false⟩) (hi : hooks[i]? = some hook) :
    Inv regs
      { s with
        runners := s.runners.set k ⟨g, hooks, i, false, false⟩,
        log := s.log ++ [(g, .returned hook)] } := by
  have hlt : i < hooks.length := lt_of_getElem? hi
  have hentry : (⟨g, hooks, i, false, false⟩ : Runner κ ι).entry = (g, hooks) := rfl
  apply h.runner hk rfl
  apply h.tracks.event s.hooks.nodup hk hentry
  · exact Nat.le_of_lt hlt
  · intro hcall
    contradiction
  · intro hd
    contradiction
  · show 2 * (hooks.length - i) + 0 = 2 * (hooks.length - (i + 1)) + 1 + 1
    omega
  · show (trace hooks.reverse)[2 * (hooks.length - (i + 1)) + 1]? = _
    rw [(getElem?_trace _ _).2, List.getElem?_reverse (by omega)]
    rw [show hooks.length - 1 - (hooks.length - (i + 1)) = i by omega, hi]
    rfl

theorem inv_runnerDone (h : Inv regs s) {k : Nat} {g : κ} {hooks : List ι}
    (hk : s.runners[k]? = some ⟨g, hooks, 0, false, false⟩) :
    Inv regs { s with runners := s.runners.set k ⟨g, hooks, 0, false, true⟩ } := by
  have hentry : (⟨g, hooks, 0, false, true⟩ : Runner κ ι).entry = (g, hooks) := rfl
  apply h.runner hk rfl
  apply h.tracks.set s.hooks.nodup hk hentry
  · exact Nat.zero_le _
  · intro hcall
    contradiction
  · intro _
    rfl
  · exact h.tracks.logged _ (List.mem_of_getElem? hk)
  · intro g' _
    rfl

theorem inv_allDone (h : Inv regs s) (hphase : s.phase = .select ∨ ∃ code, s.phase = .exited code)
    (hall : ∀ r ∈ s.runners, r.done = true) : Inv regs { s with done := true } := by
  have htodo : s.todo = [] := by
    rcases hphase with hphase | ⟨code, hphase⟩
    · rw [State.todo, hphase]
    · rw [State.todo, hphase]
  refine ⟨h.hooks, h.tracks, fun _ => ⟨htodo, hall⟩,
    ⟨h.caught.waiting, h.caught.later, h.caught.second, ?_⟩⟩
  intro code hcode
  exact (h.caught.code code hcode).imp_left fun hzero => ⟨hzero.1, rfl⟩

theorem inv_expire (h : Inv regs s) (hphase : s.phase ≠ .waiting) :
    Inv regs { s with expired := true } := by
  refine ⟨h.hooks, h.tracks, h.done, ⟨?_, h.caught.later, h.caught.second, ?_⟩⟩
  · intro hw
    exact absurd hw hphase
  · intro code hcode
    exact (h.caught.code code hcode).imp_right fun hone => ⟨hone.1, .inl rfl⟩

theorem inv_exit (h : Inv regs s) {code c : Nat} (hphase : s.phase = .select)
    (hcode : (code = 0 ∧ s.done = true) ∨ (code = 1 ∧ (s.expired = true ∨ 2 ≤ s.arrived)))
    (hc : c ≤ s.c) : Inv regs { s with phase := .exited code, c := c } := by
  have htracks := h.tracks
  have hdone := h.done
  rw [State.todo, hphase] at htracks hdone
  refine ⟨h.hooks, htracks, hdone, ?_, ?_, ?_, ?_⟩
  · intro hw
    contradiction
  · intro _
    have hlater := h.caught.later (by rw [hphase]; simp)
    exact ⟨hlater.1, fun hle => hlater.2 (Nat.le_trans hle hc)⟩
  · intro _ _
    exact .inl ⟨code, rfl⟩
  · intro code' heq
    cases heq
    exact hcode

theorem inv_step (h : Inv regs s) {a : Act κ} (hs : step s a = some s') : Inv regs s' := by
  cases step_sound hs with
  | signal => exact inv_signal h
  | caught hphase hc => exact inv_caught h hphase hc
  | start g hooks left hphase hg => exact inv_start h hphase hg
  | started hphase => exact inv_started h hphase
  | call k g hooks i hook hk hi => exact inv_call h hk hi
  | returns k err g hooks i hook hk hi => exact inv_returns h hk hi
  | runnerDone k g hooks hk => exact inv_runnerDone h hk
  | allDone hphase hd hall => exact inv_allDone h hphase hall
  | expire hphase => exact inv_expire h hphase
  | exitTimeout hphase hexp => exact inv_exit h hphase (.inr ⟨rfl, .inl hexp⟩) (Nat.le_refl s.c)
  | exitDone hphase hd => exact inv_exit h hphase (.inl ⟨rfl, hd⟩) (Nat.le_refl s.c)
  | exitSignal hphase hc =>
    have hlater := h.caught.later (by rw [hphase]; simp)
    exact inv_exit h hphase (.inr ⟨rfl, .inr (hlater.2 (by omega))⟩) (Nat.sub_le s.c 1)

theorem Inv.of_reachable (h : (machine regs).Reachable s) : Inv regs s :=
  Machine.Reach.invariant (inv_init regs) (fun _ _ _ ht _ hs => inv_step ht hs) h

/-! ## What every run keeps -/

theorem Inv.todo_nil (h : Inv regs s) (hs : s.phase = .waiting) : s.runners = [] := by
  have hlen := h.tracks.groups.length_eq
  rw [State.todo, hs, List.length_append] at hlen
  have hzero : (s.runners.map Runner.entry).length = 0 := by
    have : (s.runners.map Runner.entry).length + s.hooks.entries.length = s.hooks.entries.length :=
      hlen
    omega
  exact List.map_eq_nil_iff.mp (List.length_eq_zero_iff.mp hzero)

theorem Inv.entry_mem (h : Inv regs s) {r : Runner κ ι} (hr : r ∈ s.runners) :
    r.hooks.reverse = inOrder regs r.group := by
  have hmem : r.entry ∈ s.hooks.entries :=
    h.tracks.groups.subset (List.mem_append_left _ (List.mem_map_of_mem hr))
  rw [h.hooks] at hmem
  exact reverse_of_mem hmem

theorem Inv.prefix_trace (h : Inv regs s) (g : κ) : logOf s.log g <+: trace (inOrder regs g) := by
  by_cases hg : ∀ r ∈ s.runners, r.group ≠ g
  · rw [h.tracks.silent g hg]
    exact List.nil_prefix
  · obtain ⟨r, hnot⟩ := Classical.not_forall.mp hg
    obtain ⟨hr, hrg⟩ := Classical.not_imp.mp hnot
    have hrg := Classical.not_not.mp hrg
    rw [← hrg, h.tracks.logged r hr, h.entry_mem hr]
    exact List.take_prefix _ _

/-- When `done` is closed, every hook has returned. -/
theorem Inv.complete (h : Inv regs s) (hd : s.done = true) (g : κ) :
    logOf s.log g = trace (inOrder regs g) := by
  obtain ⟨htodo, hall⟩ := h.done hd
  have hgroups := h.tracks.groups
  rw [htodo, List.append_nil] at hgroups
  by_cases hg : ∀ r ∈ s.runners, r.group ≠ g
  · have hnone : s.hooks.lookup g = none := by
      apply GoMap.lookup_eq_none
      rw [← (hgroups.map Prod.fst).mem_iff, List.map_map]
      intro hmem
      obtain ⟨r, hr, hrg⟩ := List.mem_map.mp hmem
      exact hg r hr hrg
    have hnil := lookup_registered regs g
    rw [← h.hooks, hnone] at hnil
    rw [h.tracks.silent g hg, ← List.reverse_reverse (inOrder regs g), ← hnil]
    rfl
  · obtain ⟨r, hnot⟩ := Classical.not_forall.mp hg
    obtain ⟨hr, hrg⟩ := Classical.not_imp.mp hnot
    have hrg := Classical.not_not.mp hrg
    have hpos : r.pos = (trace r.hooks.reverse).length := by
      have hzero := h.tracks.done r hr (hall r hr)
      have hcall : r.calling = false := by
        rw [Bool.eq_false_iff]
        intro hc
        exact h.tracks.calling r hr hc hzero
      rw [length_trace, List.length_reverse, Runner.pos, hzero, hcall]
      simp
    rw [← hrg, h.tracks.logged r hr, hpos, List.take_length, h.entry_mem hr]

/-- In every run, what has happened in a group is a beginning of the calls of its hooks one
after the other, the last registered first, and nothing has happened before a signal.  Zero
is returned only behind all hooks of all groups, and one only behind the timeout or a second
signal. -/
theorem hooks_in_order (regs : List (κ × ι)) (s : State κ ι) (h : (machine regs).Reachable s) :
    (∀ g, logOf s.log g <+: trace (inOrder regs g)) ∧
      (∀ g, logOf s.log g ≠ [] → 1 ≤ s.arrived) ∧
      ∀ code, s.phase = .exited code →
        (code = 0 ∧ ∀ g, logOf s.log g = trace (inOrder regs g)) ∨
          (code = 1 ∧ (s.expired = true ∨ 2 ≤ s.arrived)) := by
  have hinv := Inv.of_reachable h
  refine ⟨hinv.prefix_trace, ?_, ?_⟩
  · intro g hg
    apply (hinv.caught.later ?_).1
    intro hw
    apply hg
    apply hinv.tracks.silent
    rw [hinv.todo_nil hw]
    intro r hr
    contradiction
  · intro code hcode
    rcases hinv.caught.code code hcode with ⟨hzero, hd⟩ | hone
    · exact .inl ⟨hzero, hinv.complete hd⟩
    · exact .inr hone

end

end

/-! A server with two hooks and a proxy with one. -/

def sampleRegs : List (Nat × Nat) := [(0, 10), (1, 20), (0, 11)]

/-- The server's second hook fails, and its first one is called all the same. -/
def sampleRun : List (Act Nat) :=
  [.signal, .caught, .start 0, .start 1, .started, .call 0, .call 1,
    .returns 0 (some (bytes "busy")), .returns 1 none, .runnerDone 1, .call 0, .returns 0 none,
    .runnerDone 0, .allDone, .exitDone]

def sampleState : State Nat Nat :=
  ((machine sampleRegs).run (machine sampleRegs).init sampleRun).getD (machine sampleRegs).init

theorem hooks_in_order_sample :
    sampleState.phase = .exited 0 ∧ ∀ g, logOf sampleState.log g = trace (inOrder sampleRegs g) := by
  have hreach : (machine sampleRegs).Reachable sampleState := Machine.reachable_of_run sampleRun rfl
  have hphase : sampleState.phase = .exited 0 := rfl
  rcases (hooks_in_order sampleRegs sampleState hreach).2.2 0 hphase with hzero | hone
  · exact ⟨hphase, hzero.2⟩
  · exact absurd hone.1 (by decide)

end Selebrow.Signal
