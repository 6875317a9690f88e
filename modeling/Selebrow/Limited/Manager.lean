import Selebrow.Quota.Accounting

/-!
# The limited browser manager

`LimitedBrowserManager.Allocate` takes a slot of the quota, calls the wrapped manager
and gives the slot back if that returns an error; `LimitedBrowser.Close` gives it back
before it closes the wrapped browser.  The machine runs over the machine of the quota:
call `i` makes the `Reserve` call number `i` and the release of its slot.  What the
wrapped manager does is the choice of the action.
-/

namespace Selebrow.Limited

open Transition

/-- How the wrapped `Allocate` ends. -/
inductive Outcome
  | browser
  | error
  | panic
deriving DecidableEq, Repr

/-- One `Allocate` call and then the `Close` of the browser it returned: the section
that is next. -/
inductive Call
  | reserve
  | refused
  | allocate
  | release
  | failed
  | panicked
  | returned
  | closing (trash : Bool)
  | closed
deriving DecidableEq, Repr

/-- The call has its slot and will give it back. -/
def Call.hasUnit : Call → Bool
  | .allocate | .release | .returned => true
  | _ => false

structure State where
  quota : Quota.State
  calls : List Call

namespace State

def setCall (s : State) (i : Nat) (c : Call) : State :=
  { s with calls := s.calls.set i c }

end State

inductive Act
  | allocate
  | wake (i : Nat)
  | ctxDone (i : Nat) (err : CtxErr)
  | recheck (i : Nat)
  | reserved (i : Nat)
  | inner (i : Nat) (res : Outcome)
  | release (i : Nat)
  | close (i : Nat) (trash : Bool)
  | innerClose (i : Nat)

/-- A step of a `Reserve` call on its own. -/
def stepQuota (s : State) (a : Quota.Act) : Option State :=
  (Quota.step s.quota a).map fun quota => { s with quota := quota }

/-- `if err := m.qa.Reserve(qCtx); err != nil` -/
def stepReserved (s : State) (i : Nat) : Option State :=
  match s.calls[i]?, s.quota.calls[i]? with
  | some .reserve, some e =>
    match e.call.result with
    | some (.ok ()) => some (s.setCall i .allocate)
    | some (.error _) => some (s.setCall i .refused)
    | none => none
  | _, _ => none

/-- A panic of the wrapped `Allocate` leaves the function without a `Release`. -/
def stepInner (s : State) (i : Nat) (res : Outcome) : Option State :=
  match s.calls[i]? with
  | some .allocate =>
    match res with
    | .browser => some (s.setCall i .returned)
    | .error => some (s.setCall i .release)
    | .panic => some (s.setCall i .panicked)
  | _ => none

def stepRelease (s : State) (i : Nat) : Option State :=
  match s.calls[i]? with
  | some .release =>
    (Quota.step s.quota (.release i)).map fun quota => { s.setCall i .failed with quota := quota }
  | _ => none

/-- `b.release()`, the first statement of `LimitedBrowser.Close`. -/
def stepClose (s : State) (i : Nat) (trash : Bool) : Option State :=
  match s.calls[i]? with
  | some .returned =>
    (Quota.step s.quota (.release i)).map fun quota =>
      { s.setCall i (.closing trash) with quota := quota }
  | _ => none

def stepInnerClose (s : State) (i : Nat) : Option State :=
  match s.calls[i]? with
  | some (.closing _) => some (s.setCall i .closed)
  | _ => none

def step (s : State) : Act → Option State
  | .allocate =>
    (Quota.step s.quota .reserve).map fun quota =>
      { quota := quota, calls := s.calls ++ [.reserve] }
  | .wake i => stepQuota s (.wake i)
  | .ctxDone i err => stepQuota s (.ctxDone i err)
  | .recheck i => stepQuota s (.recheck i)
  | .reserved i => stepReserved s i
  | .inner i res => stepInner s i res
  | .release i => stepRelease s i
  | .close i trash => stepClose s i trash
  | .innerClose i => stepInnerClose s i

def machine (limit qLimit : Int) : Machine State Act :=
  { init := { quota := (Quota.machine limit qLimit).init, calls := [] }, step := step }

/-! ## What a step can do -/

/-- A call that is in `Reserve` takes a step there. -/
inductive Waits : Act → Quota.Act → Prop
  | wake (i : Nat) : Waits (.wake i) (.wake i)
  | ctxDone (i : Nat) (err : CtxErr) : Waits (.ctxDone i err) (.ctxDone i err)
  | recheck (i : Nat) : Waits (.recheck i) (.recheck i)

/-- Call `i` moves on and the quota is left alone. -/
inductive Moves (s : State) (i : Nat) : Act → Call → Call → Prop
  | reserved (e : Quota.Entry) (he : s.quota.calls[i]? = some e)
      (hr : e.call.result = some (.ok ())) : Moves s i (.reserved i) .reserve .allocate
  | refused : Moves s i (.reserved i) .reserve .refused
  | browser : Moves s i (.inner i .browser) .allocate .returned
  | error : Moves s i (.inner i .error) .allocate .release
  | panic : Moves s i (.inner i .panic) .allocate .panicked
  | innerClose (trash : Bool) : Moves s i (.innerClose i) (.closing trash) .closed

inductive Step (s : State) : Act → State → Prop
  | allocate (quota : Quota.State) (hq : Quota.step s.quota .reserve = some quota) :
      Step s .allocate { quota := quota, calls := s.calls ++ [.reserve] }
  | quota (a : Act) (b : Quota.Act) (quota : Quota.State) (hq : Quota.step s.quota b = some quota)
      (hb : Waits a b) : Step s a { s with quota := quota }
  | move (i : Nat) (a : Act) (c c' : Call) (hc : s.calls[i]? = some c) (hm : Moves s i a c c') :
      Step s a (s.setCall i c')
  | release (i : Nat) (quota : Quota.State) (hc : s.calls[i]? = some .release)
      (hq : Quota.step s.quota (.release i) = some quota) :
      Step s (.release i) { s.setCall i .failed with quota := quota }
  | close (i : Nat) (trash : Bool) (quota : Quota.State) (hc : s.calls[i]? = some .returned)
      (hq : Quota.step s.quota (.release i) = some quota) :
      Step s (.close i trash) { s.setCall i (.closing trash) with quota := quota }

variable {s s' : State}

theorem stepQuota_sound {a : Act} {b : Quota.Act} (h : stepQuota s b = some s')
    (hb : Waits a b) : Step s a s' := by
  rw [stepQuota, Option.map_eq_some_iff] at h
  obtain ⟨quota, hq, rfl⟩ := h
  exact .quota a b quota hq hb

theorem stepReserved_sound {i : Nat} (h : stepReserved s i = some s') :
    Step s (.reserved i) s' := by
  unfold stepReserved at h
  split at h
  · rename_i e hc he
    split at h
    · rename_i hr
      exact Option.some.inj h ▸ .move i _ _ _ hc (.reserved e he hr)
    · exact Option.some.inj h ▸ .move i _ _ _ hc .refused
    · simp at h
  · simp at h

theorem stepInner_sound {i : Nat} {res : Outcome} (h : stepInner s i res = some s') :
    Step s (.inner i res) s' := by
  unfold stepInner at h
  split at h
  · rename_i hc
    cases res with
    | browser => exact Option.some.inj h ▸ .move i _ _ _ hc .browser
    | error => exact Option.some.inj h ▸ .move i _ _ _ hc .error
    | panic => exact Option.some.inj h ▸ .move i _ _ _ hc .panic
  · simp at h

theorem step_sound {a : Act} (h : step s a = some s') : Step s a s' := by
  cases a with
  | allocate =>
    rw [step, Option.map_eq_some_iff] at h
    obtain ⟨quota, hq, rfl⟩ := h
    exact .allocate quota hq
  | wake i => exact stepQuota_sound h (.wake i)
  | ctxDone i err => exact stepQuota_sound h (.ctxDone i err)
  | recheck i => exact stepQuota_sound h (.recheck i)
  | reserved i => exact stepReserved_sound h
  | inner i res => exact stepInner_sound h
  | release i =>
    simp only [step, stepRelease] at h
    split at h
    · rename_i hc
      rw [Option.map_eq_some_iff] at h
      obtain ⟨quota, hq, rfl⟩ := h
      exact .release i quota hc hq
    · simp at h
  | close i trash =>
    simp only [step, stepClose] at h
    split at h
    · rename_i hc
      rw [Option.map_eq_some_iff] at h
      obtain ⟨quota, hq, rfl⟩ := h
      exact .close i trash quota hc hq
    · simp at h
  | innerClose i =>
    simp only [step, stepInnerClose] at h
    split at h
    · rename_i trash hc
      exact Option.some.inj h ▸ .move i _ _ _ hc (.innerClose trash)
    · simp at h

/-- The call that leaves `Reserve`. -/
theorem reserved_calls {i : Nat} (h : step s (.reserved i) = some s') :
    s.calls[i]? = some .reserve ∧ ∃ c, s'.calls = s.calls.set i c := by
  generalize ha : Act.reserved i = a at h
  cases step_sound h with
  | move j _ c c' hc hm =>
    cases hm with
    | reserved e he hr =>
      obtain rfl := Act.reserved.inj ha
      exact ⟨hc, _, rfl⟩
    | refused =>
      obtain rfl := Act.reserved.inj ha
      exact ⟨hc, _, rfl⟩
    | _ => simp at ha
  | quota _ b quota _ hb => cases hb <;> simp at ha
  | _ => simp at ha

/-- The call whose wrapped `Allocate` returned a browser. -/
theorem inner_calls {i : Nat} {res : Outcome} (h : step s (.inner i res) = some s') :
    s.calls[i]? = some .allocate ∧
      ∃ c, s'.calls = s.calls.set i c ∧ c ≠ .reserve ∧ (res = .browser → c = .returned) := by
  generalize ha : Act.inner i res = a at h
  cases step_sound h with
  | move j _ c c' hc hm =>
    cases hm with
    | browser | error | panic =>
      obtain ⟨rfl, rfl⟩ := Act.inner.inj ha
      exact ⟨hc, _, rfl, by simp, by simp⟩
    | _ => simp at ha
  | quota _ b quota _ hb => cases hb <;> simp at ha
  | _ => simp at ha

theorem innerClose_calls {i : Nat} (h : step s (.innerClose i) = some s') :
    s'.calls = s.calls.set i .closed := by
  generalize ha : Act.innerClose i = a at h
  cases step_sound h with
  | move j _ c c' hc hm =>
    cases hm with
    | innerClose trash =>
      obtain rfl := Act.innerClose.inj ha
      rfl
    | _ => simp at ha
  | quota _ b quota _ hb => cases hb <;> simp at ha
  | _ => simp at ha

/-! ## Slots -/

/-- The runs of the limited manager are runs of the quota. -/
theorem reach_quota {limit qLimit : Int} {C : State → Act → Prop}
    (h : (machine limit qLimit).Reach C s) :
    (Quota.machine limit qLimit).Reach Quota.NoExternal s.quota := by
  refine Machine.Reach.map State.quota rfl (fun t a t' _ _ ht => ?_) h
  cases step_sound ht with
  | allocate quota hq => exact .inr ⟨.reserve, trivial, hq⟩
  | quota _ b quota hq hb =>
    refine .inr ⟨b, ?_, hq⟩
    cases hb <;> trivial
  | move i _ c c' hc hm => exact .inl rfl
  | release i quota hc hq => exact .inr ⟨.release i, trivial, hq⟩
  | close i trash quota hc hq => exact .inr ⟨.release i, trivial, hq⟩

/-- A call that has a unit holds the slot of its `Reserve`, and one that is still in
`Reserve` has not released it. -/
structure SlotInv (s : State) : Prop where
  length : s.calls.length = s.quota.calls.length
  fresh : ∀ (i : Nat) (e : Quota.Entry), s.calls[i]? = some .reserve →
    s.quota.calls[i]? = some e → e.released = false
  unit : ∀ (i : Nat) (c : Call), s.calls[i]? = some c → c.hasUnit = true →
    ∃ e, s.quota.calls[i]? = some e ∧ e.holds = true

/-- A step of the quota that releases no slot of a call with a unit. -/
theorem slotInv_of_quota {b : Quota.Act} {quota : Quota.State} (hi : SlotInv s)
    (hq : Quota.step s.quota b = some quota) (hb : b ≠ .reserve)
    (hr : ∀ i, b = .release i → ∀ c, s.calls[i]? = some c → c.hasUnit = false ∧ c ≠ .reserve) :
    SlotInv { s with quota := quota } := by
  have hlen := Quota.step_length hq hb
  refine ⟨hi.length.trans hlen.symm, fun i e hc he => ?_, fun i c hc hu => ?_⟩
  · cases hrel : e.released with
    | false => rfl
    | true =>
      rcases Quota.step_released hq he hrel with hb | ⟨e₀, he₀, hrel₀⟩
      · exact absurd rfl (hr i hb _ hc).2
      · rw [hi.fresh i e₀ hc he₀] at hrel₀
        contradiction
  · obtain ⟨e, he, hh⟩ := hi.unit i c hc hu
    obtain ⟨e', he', hev⟩ := Quota.step_evolves hq he
    simp only [Quota.Entry.holds, Bool.and_eq_true, Bool.not_eq_true'] at hh ⊢
    refine ⟨e', he', hev.granted hh.1, ?_⟩
    cases hrel : e'.released with
    | false => rfl
    | true =>
      rcases Quota.step_released hq he' hrel with hb | ⟨e₀, he₀, hrel₀⟩
      · have := (hr i hb _ hc).1
        rw [hu] at this
        contradiction
      · rw [he, Option.some.injEq] at he₀
        rw [← he₀, hh.2] at hrel₀
        contradiction

/-- A call moves on; if it has a unit after that it holds its slot. -/
theorem slotInv_of_set {i : Nat} {c' : Call} (hi : SlotInv s) (hne : c' ≠ .reserve)
    (hu : c'.hasUnit = true → ∃ e, s.quota.calls[i]? = some e ∧ e.holds = true) :
    SlotInv (s.setCall i c') := by
  refine ⟨?_, fun j e hj he => ?_, fun j c hj hc => ?_⟩
  · show (s.calls.set i c').length = s.quota.calls.length
    rw [List.length_set]
    exact hi.length
  · rcases getElem?_set_some hj with ⟨_, h⟩ | ⟨_, hj⟩
    · exact absurd h.symm hne
    · exact hi.fresh j e hj he
  · rcases getElem?_set_some hj with ⟨rfl, rfl⟩ | ⟨_, hj⟩
    · exact hu hc
    · exact hi.unit j c hj hc

theorem holds_of_result {e : Quota.Entry} (hr : e.call.result = some (.ok ()))
    (hf : e.released = false) : e.holds = true := by
  rw [Quota.Entry.holds, hf]
  cases hc : e.call <;> simp_all [Quota.Call.result, Quota.Call.granted]

theorem step_slotInv {a : Act} (hi : SlotInv s) (h : step s a = some s') : SlotInv s' := by
  cases step_sound h with
  | allocate quota hq =>
    obtain ⟨c₀, hcalls⟩ := Quota.reserve_calls hq
    have hlen := hi.length
    refine ⟨by simp [hcalls, hlen], fun i e hc he => ?_, fun i c hc hu => ?_⟩
    · simp only [hcalls] at he
      rcases getElem?_concat_some he with he | ⟨rfl, rfl⟩
      · rcases getElem?_concat_some hc with hc | ⟨rfl, _⟩
        · exact hi.fresh i e hc he
        · exact absurd (lt_of_getElem? he) (by omega)
      · rfl
    · rcases getElem?_concat_some hc with hc | ⟨_, rfl⟩
      · obtain ⟨e, he, hh⟩ := hi.unit i c hc hu
        simp only [hcalls]
        exact ⟨e, getElem?_append_some he, hh⟩
      · simp [Call.hasUnit] at hu
  | quota _ b quota hq hb =>
    refine slotInv_of_quota hi hq ?_ fun i h => ?_
    · cases hb <;> simp
    · cases hb <;> simp at h
  | move i _ c c' hc hm =>
    cases hm with
    | reserved e he hr =>
      exact slotInv_of_set hi (by simp) fun _ => ⟨e, he, holds_of_result hr (hi.fresh i e hc he)⟩
    | browser => exact slotInv_of_set hi (by simp) fun _ => hi.unit i _ hc rfl
    | error => exact slotInv_of_set hi (by simp) fun _ => hi.unit i _ hc rfl
    | refused => exact slotInv_of_set hi (by simp) (by simp [Call.hasUnit])
    | panic => exact slotInv_of_set hi (by simp) (by simp [Call.hasUnit])
    | innerClose trash => exact slotInv_of_set hi (by simp) (by simp [Call.hasUnit])
  | release i quota hc hq =>
    have hset : SlotInv (s.setCall i .failed) := slotInv_of_set hi (by simp) (by simp [Call.hasUnit])
    apply slotInv_of_quota hset hq (by simp)
    intro j hj c hcj
    obtain rfl := Quota.Act.release.inj hj
    simp only [State.setCall] at hcj
    rw [getElem?_set_eq hc, Option.some.injEq] at hcj
    exact hcj ▸ ⟨rfl, by simp⟩
  | close i trash quota hc hq =>
    have hset : SlotInv (s.setCall i (.closing trash)) :=
      slotInv_of_set hi (by simp) (by simp [Call.hasUnit])
    apply slotInv_of_quota hset hq (by simp)
    intro j hj c hcj
    obtain rfl := Quota.Act.release.inj hj
    simp only [State.setCall] at hcj
    rw [getElem?_set_eq hc, Option.some.injEq] at hcj
    exact hcj ▸ ⟨rfl, by simp⟩

theorem reach_slotInv {limit qLimit : Int} {C : State → Act → Prop}
    (h : (machine limit qLimit).Reach C s) : SlotInv s :=
  h.invariant ⟨rfl, by simp [machine], by simp [machine]⟩ (fun _ _ _ hi _ hs => step_slotInv hi hs)

/-- The release that a call with a unit makes is never refused. -/
theorem release_enabled (hi : SlotInv s) {i : Nat} {c : Call} (hc : s.calls[i]? = some c)
    (hu : c.hasUnit = true) : ∃ quota, Quota.step s.quota (.release i) = some quota := by
  obtain ⟨e, he, hh⟩ := hi.unit i c hc hu
  simp [Quota.step, Quota.stepRelease, he, hh]

end Selebrow.Limited
