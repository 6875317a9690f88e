import Selebrow.Pool.Ownership

/-!
# Running browsers

A backend browser runs from the moment it was allocated until a backend `Close` on it
has completed.  A browser that runs and that no client holds is parked: it is being
checked in, or idle in a pool, or its `Close` has not completed.
-/

namespace Selebrow.Pool

open Transition

/-- The browser that a client holds. -/
def Client.held : Client → Option Nat
  | .holding _ w => some w
  | _ => none

/-- The browser that a client is checking in. -/
def Client.checkedIn : Client → Option Nat
  | .poolState w | .checkAge w | .pushIdle w => some w
  | _ => none

def Closer.isOpen (c : Closer) : Bool := c.phase != .completed

namespace State

/-- A backend `Close` on browser `w` has completed. -/
def isClosed (s : State) (w : Nat) : Bool :=
  s.closers.any fun c => c.w == w && c.phase == .completed

def running (s : State) : Nat :=
  (List.range s.browsers.length).countP fun w => !s.isClosed w

def holding (s : State) : Nat := s.clients.countP fun c => c.held.isSome

def parked (s : State) : Nat :=
  s.clients.countP (fun c => c.checkedIn.isSome) +
    tally (fun p => p.idleWd.length) s.pools + s.closers.countP Closer.isOpen

/-- The browsers that are held and those that are parked. -/
def located (s : State) : List Nat :=
  s.clients.filterMap Client.held ++ (s.clients.filterMap Client.checkedIn ++
    s.pools.flatMap (fun p => p.idleWd.map Prod.snd) ++
    (s.closers.filter Closer.isOpen).map Closer.w)

end State

theorem length_located (s : State) : s.located.length = s.holding + s.parked := by
  simp only [State.located, State.holding, State.parked, List.length_append,
    List.length_filterMap_eq_countP, length_flatMap_eq_tally, List.length_map,
    ← List.countP_eq_length_filter]

variable {cfg : PoolConfig} {ids : FreshSupply GoString} {s s' : State}

theorem mem_held {w : Nat} (h : 0 < s.held w) : w ∈ s.clients.filterMap Client.held := by
  obtain ⟨i, c, hc, hpos⟩ := exists_of_tally_pos h
  rw [List.mem_filterMap]
  refine ⟨c, List.mem_of_getElem? hc, ?_⟩
  cases c with
  | holding name v =>
    rw [Client.holds] at hpos
    split at hpos
    · rename_i hv
      rw [Client.held, hv]
    · omega
  | _ => exact absurd hpos (Nat.lt_irrefl 0)

theorem mem_checkedIn {w : Nat} (h : 0 < s.checkedIn w) :
    w ∈ s.clients.filterMap Client.checkedIn := by
  obtain ⟨i, c, hc, hpos⟩ := exists_of_tally_pos h
  rw [List.mem_filterMap]
  refine ⟨c, List.mem_of_getElem? hc, ?_⟩
  cases c with
  | poolState v | checkAge v | pushIdle v =>
    rw [Client.checksIn] at hpos
    split at hpos
    · rename_i hv
      rw [Client.checkedIn, hv]
    · omega
  | _ => exact absurd hpos (Nat.lt_irrefl 0)

theorem mem_idle {w : Nat} (h : 0 < s.idle w) :
    w ∈ s.pools.flatMap fun p => p.idleWd.map Prod.snd := by
  obtain ⟨p, pool, hp, hpos⟩ := exists_of_tally_pos h
  rw [List.mem_flatMap]
  exact ⟨pool, List.mem_of_getElem? hp, List.count_pos_iff.mp hpos⟩

theorem mem_open {w : Nat} (h : 0 < s.closed w) (hw : s.isClosed w = false) :
    w ∈ (s.closers.filter Closer.isOpen).map Closer.w := by
  obtain ⟨k, c, hk, hpos⟩ := exists_of_tally_pos h
  have hcw : c.w = w := by
    by_contra hne
    rw [Closer.closes, if_neg hne] at hpos
    omega
  have hmem := List.mem_of_getElem? hk
  rw [State.isClosed, List.any_eq_false] at hw
  have hphase : ¬ c.phase = .completed := by simpa [hcw] using hw c hmem
  rw [List.mem_map]
  exact ⟨c, List.mem_filter.mpr ⟨hmem, by simpa [Closer.isOpen] using hphase⟩, hcw⟩

/-- Every browser that runs is held or parked. -/
theorem running_le (hi : Inv ids s) : s.running ≤ s.holding + s.parked := by
  rw [← length_located, State.running, List.countP_eq_length_filter]
  refine (List.subperm_of_subset (List.nodup_range.filter _) fun w hw => ?_).length_le
  rw [List.mem_filter, List.mem_range, Bool.not_eq_true'] at hw
  have hone := (hi.one w).1 hw.1
  rw [State.places] at hone
  simp only [State.located, List.mem_append]
  by_cases h1 : 0 < s.held w
  · exact .inl (mem_held h1)
  by_cases h2 : 0 < s.checkedIn w
  · exact .inr (.inl (.inl (mem_checkedIn h2)))
  by_cases h3 : 0 < s.idle w
  · exact .inr (.inl (.inr (mem_idle h3)))
  · exact .inr (.inr (mem_open (by omega) hw.2))

theorem running_le_of_closers (hb : s'.browsers = s.browsers)
    (hc : ∀ w, s.isClosed w = true → s'.isClosed w = true) : s'.running ≤ s.running := by
  rw [State.running, State.running, hb]
  apply List.countP_mono_left
  intro w _ hw
  rw [Bool.not_eq_true'] at hw ⊢
  cases h : s.isClosed w with
  | false => rfl
  | true =>
    rw [hc w h] at hw
    contradiction

theorem isClosed_append {s : State} {l : List Closer} {w : Nat} (h : s.isClosed w = true) :
    (s.closers ++ l).any (fun c => c.w == w && c.phase == .completed) = true := by
  rw [State.isClosed] at h
  rw [List.any_append, h, Bool.true_or]

/-- The phase of a `Close` only moves on. -/
theorem isClosed_set {s : State} {k v : Nat} {phase phase' : ClosePhase} {w : Nat}
    (hk : s.closers[k]? = some ⟨v, phase⟩) (hp : phase ≠ .completed)
    (h : s.isClosed w = true) :
    (s.closers.set k ⟨v, phase'⟩).any (fun c => c.w == w && c.phase == .completed) = true := by
  rw [State.isClosed, List.any_eq_true] at h
  obtain ⟨c, hc, hcw⟩ := h
  obtain ⟨j, hj⟩ := List.mem_iff_getElem?.mp hc
  have hjk : k ≠ j := by
    rintro rfl
    rw [hk, Option.some.injEq] at hj
    subst hj
    simp [hp] at hcw
  rw [List.any_eq_true]
  refine ⟨c, List.mem_of_getElem? (i := j) ?_, hcw⟩
  rw [List.getElem?_set_ne hjk]
  exact hj

/-- Only the backend's `Allocate` makes more browsers run. -/
theorem step_running {a : Act} (h : step cfg ids s a = some s')
    (ha : ∀ i now, a ≠ .backendOk i now) : s'.running ≤ s.running := by
  cases step_sound h with
  | fresh i now name p hc => exact absurd rfl (ha i now)
  | drop i _ c w hc hd => exact running_le_of_closers rfl fun _ => isClosed_append
  | evict t w b pool _ _ _ _ => exact running_le_of_closers rfl fun _ => isClosed_append
  | poolShutdown g p pool _ _ => exact running_le_of_closers rfl fun _ => isClosed_append
  | callClose k w hk => exact running_le_of_closers rfl fun _ => isClosed_set hk (by simp)
  | completeClose k w hk => exact running_le_of_closers rfl fun _ => isClosed_set hk (by simp)
  | _ => exact running_le_of_closers rfl fun _ => id

/-- A browser that the backend allocates parks no other one. -/
theorem backendOk_parked {i : Nat} {now : Int} (h : step cfg ids s (.backendOk i now) = some s') :
    s'.parked = s.parked := by
  generalize ha : Act.backendOk i now = a at h
  cases step_sound h with
  | fresh j now' name p hc =>
    have h1 := countP_set_add (fun c : Client => c.checkedIn.isSome)
      (.holding name s.browsers.length) hc
    have hcount : (s.clients.set j (.holding name s.browsers.length)).countP
        (fun c => c.checkedIn.isSome) = s.clients.countP fun c => c.checkedIn.isSome := h1
    simp only [State.parked, State.setClient, hcount]
  | quiet j _ c c' hc hq => cases hq <;> simp at ha
  | drop j _ c w hc hd => cases hd <;> simp at ha
  | _ => simp at ha

end Selebrow.Pool
