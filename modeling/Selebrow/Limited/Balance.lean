import Selebrow.Limited.Manager

/-!
# The balance of the slots

The slots that the authorizer counts are those of the `Allocate` calls that are past
their `Reserve` and have not ended, those of the browsers that are not closed, and
those of the calls that a panic of the wrapped `Allocate` ended.  Nobody gives the last
kind back, so the balance that `Allocate` and `Close` keep holds as long as the wrapped
manager does not panic.
-/

namespace Selebrow.Limited

open Transition

/-- The call is between a successful `Reserve`, whose entry is `e`, and its end. -/
def Call.inAllocate (e : Quota.Entry) : Call → Bool
  | .reserve => e.holds
  | .allocate | .release => true
  | _ => false

/-- `Allocate` has ended, and a browser that it returned has been closed. -/
def Call.finished : Call → Bool
  | .refused | .failed | .panicked | .closing _ | .closed => true
  | _ => false

namespace State

def allocating (s : State) : Nat :=
  (s.calls.zip s.quota.calls).countP fun x => x.1.inAllocate x.2

def unclosed (s : State) : Nat := s.calls.countP (· == .returned)

def panicked (s : State) : Nat := s.calls.countP (· == .panicked)

end State

/-- The authorizer counts what is in use, and nothing is left when every call and every
browser has come to its end. -/
def Balanced (s : State) : Prop :=
  s.quota.qa.allocated = s.allocating + s.unclosed ∧
    ((∀ c ∈ s.calls, c.finished = true) → s.quota.qa.allocated = 0)

/-- The wrapped `Allocate` does not panic. -/
def NoPanic (_ : State) : Act → Prop
  | .inner _ res => res ≠ .panic
  | _ => True

/-! ## Calls and entries -/

/-- What the entry of a call's `Reserve` is in each section. -/
def Call.Fits (e : Quota.Entry) : Call → Prop
  | .reserve => True
  | .allocate | .release | .returned | .panicked => e.holds = true
  | .refused => ∃ err, e.call.result = some (.error err)
  | .failed | .closing _ | .closed => e.released = true

def Fitted (s : State) : Prop :=
  ∀ (i : Nat) (c : Call) (e : Quota.Entry), s.calls[i]? = some c →
    s.quota.calls[i]? = some e → c.Fits e

variable {limit qLimit : Int} {s s' : State}

theorem Call.Fits.evolve {c : Call} {e e' : Quota.Entry} (h : c.Fits e) (hev : e.Evolves e')
    (hrel : e'.released = true → e.released = true) : c.Fits e' := by
  have hholds : e.holds = true → e'.holds = true := by
    intro hh
    simp only [Quota.Entry.holds, Bool.and_eq_true, Bool.not_eq_true'] at hh ⊢
    refine ⟨hev.granted hh.1, ?_⟩
    cases hr : e'.released with
    | false => rfl
    | true =>
      rw [hrel hr] at hh
      exact absurd hh.2 (by decide)
  cases c with
  | reserve => trivial
  | allocate | release | returned | panicked => exact hholds h
  | refused =>
    obtain ⟨err, hr⟩ := h
    exact ⟨err, hev.result _ hr⟩
  | failed | closing _ | closed => exact hev.released h

theorem entry_of_call (hi : SlotInv s) {i : Nat} {c : Call} (hc : s.calls[i]? = some c) :
    ∃ e, s.quota.calls[i]? = some e := by
  have hlt := lt_of_getElem? hc
  rw [hi.length] at hlt
  exact ⟨_, List.getElem?_eq_getElem hlt⟩

/-- The calls whose slot a quota step does not release keep what they are. -/
theorem fits_of_quota {b : Quota.Act} {quota : Quota.State} (hi : SlotInv s) (h : Fitted s)
    (hq : Quota.step s.quota b = some quota) {i : Nat} {c : Call} {e' : Quota.Entry}
    (hc : s.calls[i]? = some c) (he' : quota.calls[i]? = some e') (hb : b ≠ .release i) :
    c.Fits e' := by
  obtain ⟨e, he⟩ := entry_of_call hi hc
  obtain ⟨e'', he'', hev⟩ := Quota.step_evolves hq he
  rw [he', Option.some.injEq] at he''
  subst he''
  refine (h i c e hc he).evolve hev fun hr => ?_
  rcases Quota.step_released hq he' hr with hrel | ⟨e₀, he₀, hr₀⟩
  · exact absurd hrel hb
  · rw [he, Option.some.injEq] at he₀
    exact he₀ ▸ hr₀

theorem fitted_of_release {i : Nat} {c' : Call} {quota : Quota.State} (hi : SlotInv s)
    (h : Fitted s) (hq : Quota.step s.quota (.release i) = some quota)
    (hc' : ∀ e, e.released = true → Call.Fits e c') :
    Fitted { s.setCall i c' with quota := quota } := by
  intro j c e hc he
  rcases getElem?_set_some hc with ⟨rfl, rfl⟩ | ⟨hij, hc⟩
  · obtain ⟨e₀, he₀, hr⟩ := Quota.release_released hq
    have hee : quota.calls[i]? = some e := he
    rw [he₀, Option.some.injEq] at hee
    exact hee ▸ hc' e₀ hr
  · refine fits_of_quota hi h hq hc he fun heq => ?_
    exact hij (Quota.Act.release.inj heq)

theorem fitted_of_set {i : Nat} {c' : Call} (h : Fitted s)
    (hc' : ∀ e, s.quota.calls[i]? = some e → c'.Fits e) : Fitted (s.setCall i c') := by
  intro j c e hc he
  rcases getElem?_set_some hc with ⟨rfl, rfl⟩ | ⟨_, hc⟩
  · exact hc' e he
  · exact h j c e hc he

/-- A call that `Reserve` refused has an error for its result. -/
theorem refused_result {i : Nat} {e : Quota.Entry} (hc : s.calls[i]? = some .reserve)
    (he : s.quota.calls[i]? = some e) (hs : step s (.reserved i) = some (s.setCall i .refused)) :
    ∃ err, e.call.result = some (.error err) := by
  simp only [step, stepReserved, hc, he] at hs
  split at hs
  · -- A result without an error moves the call to another section.
    have hcalls := congrArg (fun t => t.calls[i]?) (Option.some.inj hs)
    simp only [State.setCall, getElem?_set_eq hc, Option.some.injEq] at hcalls
    contradiction
  · rename_i err hr
    exact ⟨err, hr⟩
  · simp at hs

theorem step_fitted {a : Act} (hi : SlotInv s) (h : Fitted s) (hs : step s a = some s') :
    Fitted s' := by
  cases step_sound hs with
  | allocate quota hq =>
    intro i c e hc he
    rcases getElem?_concat_some hc with hc | ⟨_, rfl⟩
    · exact fits_of_quota hi h hq hc he (by simp)
    · trivial
  | quota _ b quota hq hb =>
    intro i c e hc he
    refine fits_of_quota hi h hq hc he ?_
    cases hb <;> simp
  | move i _ c c' hc hm =>
    apply fitted_of_set h
    intro e he
    have hfit := h i c e hc he
    cases hm with
    | reserved e₀ he₀ hr =>
      rw [he, Option.some.injEq] at he₀
      subst he₀
      exact holds_of_result hr (hi.fresh i e hc he)
    | refused => exact refused_result hc he hs
    | browser | error | panic => exact hfit
    | innerClose trash => exact hfit
  | release i quota hc hq => exact fitted_of_release hi h hq fun _ => id
  | close i trash quota hc hq => exact fitted_of_release hi h hq fun _ => id

theorem reach_fitted {C : State → Act → Prop} (h : (machine limit qLimit).Reach C s) :
    Fitted s := by
  have hboth := h.invariant (P := fun t => SlotInv t ∧ Fitted t)
    ⟨⟨rfl, by simp [machine], by simp [machine]⟩, by simp [machine, Fitted]⟩
    fun _ _ _ ht _ hs => ⟨step_slotInv ht.1 hs, step_fitted ht.1 ht.2 hs⟩
  exact hboth.2

/-! ## The count -/

theorem Call.Fits.holds {c : Call} {e : Quota.Entry} (h : c.Fits e) :
    e.holds.toNat = (c.inAllocate e).toNat + (c == .returned).toNat + (c == .panicked).toNat := by
  cases c with
  | reserve => rfl
  | allocate | release | returned | panicked =>
    rw [show e.holds = true from h]
    rfl
  | refused =>
    obtain ⟨err, hr⟩ := h
    have hg : e.call.granted = false := by
      cases hc : e.call <;> simp_all [Quota.Call.result, Quota.Call.granted]
    rw [Quota.Entry.holds, hg]
    rfl
  | failed | closing _ | closed =>
    rw [Quota.Entry.holds, show e.released = true from h, Bool.not_true, Bool.and_false]
    rfl

/-- In every run a slot is in use or lost to a panic. -/
theorem reach_allocated {C : State → Act → Prop} (h : (machine limit qLimit).Reach C s) :
    s.quota.qa.allocated = s.allocating + s.unclosed + s.panicked := by
  have hlen := (reach_slotInv h).length
  have hfit := reach_fitted h
  rw [(Quota.reach_inv (reach_quota h)).allocated, State.unclosed, State.panicked, State.allocating,
    ← countP_zip_snd Quota.Entry.holds hlen, ← countP_zip_fst (· == .returned) hlen,
    ← countP_zip_fst (· == .panicked) hlen]
  simp only [countP_eq_tally]
  rw [tally_congr (w := fun x => (x.1.inAllocate x.2).toNat + (x.1 == .returned).toNat +
    (x.1 == .panicked).toNat), tally_add, tally_add]
  · push_cast
    rfl
  · intro x hx
    obtain ⟨i, hi⟩ := List.mem_iff_getElem?.mp hx
    rw [List.getElem?_zip_eq_some] at hi
    exact (hfit i x.1 x.2 hi.1 hi.2).holds

theorem step_panicked {a : Act} (ha : NoPanic s a) (hs : step s a = some s') :
    s'.panicked = s.panicked := by
  have hset : ∀ {i : Nat} {c c' : Call}, s.calls[i]? = some c → c ≠ .panicked → c' ≠ .panicked →
      (s.calls.set i c').countP (· == .panicked) = s.calls.countP (· == .panicked) := by
    intro i c c' hc hne hne'
    have h := countP_set_add (· == Call.panicked) c' hc
    rw [beq_eq_false_iff_ne.mpr hne, beq_eq_false_iff_ne.mpr hne'] at h
    exact h
  cases step_sound hs with
  | allocate quota hq =>
    show (s.calls ++ [Call.reserve]).countP (· == Call.panicked) = s.panicked
    rw [List.countP_append]
    rfl
  | quota _ b quota hq hb => rfl
  | move i _ c c' hc hm =>
    cases hm with
    | panic => exact absurd rfl ha
    | _ => exact hset hc (by simp) (by simp)
  | release i quota hc hq => exact hset hc (by decide) (by decide)
  | close i trash quota hc hq => exact hset hc (by decide) (by simp)

theorem reach_panicked (h : (machine limit qLimit).Reach NoPanic s) : s.panicked = 0 := by
  refine h.invariant (P := fun t => t.panicked = 0) rfl fun t a t' ht hc hs => ?_
  rw [step_panicked hc hs]
  exact ht

theorem finished_counts (h : ∀ c ∈ s.calls, c.finished = true) :
    s.allocating = 0 ∧ s.unclosed = 0 := by
  constructor
  · rw [State.allocating, List.countP_eq_zero]
    intro x hx
    have hfin := h x.1 (List.of_mem_zip hx).1
    cases hc : x.1 <;> simp_all [Call.finished, Call.inAllocate]
  · rw [State.unclosed, List.countP_eq_zero]
    intro c hc
    have hfin := h c hc
    cases c <;> simp_all [Call.finished]

/-- The slots balance exactly when no call was lost to a panic. -/
theorem balanced_iff {C : State → Act → Prop} (h : (machine limit qLimit).Reach C s) :
    Balanced s ↔ s.panicked = 0 := by
  have halloc := reach_allocated h
  constructor
  · intro hb
    have := hb.1
    omega
  · intro hzero
    constructor
    · omega
    · intro hfin
      obtain ⟨h1, h2⟩ := finished_counts hfin
      omega

/-- In the runs in which the wrapped `Allocate` does not panic no slot is lost. -/
theorem no_unit_leaked (h : (machine limit qLimit).Reach NoPanic s) : Balanced s :=
  (balanced_iff h).mpr (reach_panicked h)

/-- Call 0 returned a browser, which was closed, call 1 got the slot at the last moment
and failed. -/
def closedAndFailed : State :=
  { quota :=
      { qa := { limit := 1, allocated := 0, queue := [], qLimit := 1 },
        calls := [⟨.fastPath, true⟩, ⟨.served, true⟩] },
    calls := [.closed, .failed] }

theorem no_unit_leaked_closedAndFailed : Balanced closedAndFailed :=
  have hreach : (machine 1 1).Reach NoPanic closedAndFailed :=
    Machine.leads_of_run
      [.allocate, .reserved 0, .inner 0 .browser, .allocate, .ctxDone 1 .canceled, .close 0 false,
        .recheck 1, .reserved 1, .innerClose 0, .inner 1 .error, .release 1]
      ⟨trivial, trivial, nofun, trivial, trivial, trivial, trivial, trivial, trivial, nofun,
        trivial, trivial⟩ rfl
  no_unit_leaked hreach

/-- The wrapped `Allocate` panicked: the call has ended and nothing is left to close. -/
def leakedByPanic : State :=
  { quota :=
      { qa := { limit := 1, allocated := 1, queue := [], qLimit := 1 },
        calls := [⟨.fastPath, false⟩] },
    calls := [.panicked] }

theorem unit_leaked :
    (machine 1 1).Reachable leakedByPanic ∧ (∀ c ∈ leakedByPanic.calls, c.finished = true) ∧
      leakedByPanic.quota.qa.allocated ≠ 0 ∧
      ¬ ∀ s, (machine 1 1).Reachable s → Balanced s := by
  have hreach : (machine 1 1).Reachable leakedByPanic :=
    Machine.reachable_of_run [.allocate, .reserved 0, .inner 0 .panic] rfl
  have hfin : ∀ c ∈ leakedByPanic.calls, c.finished = true := by decide
  refine ⟨hreach, hfin, by decide, fun h => ?_⟩
  have hzero : leakedByPanic.quota.qa.allocated = 0 := (h _ hreach).2 hfin
  exact absurd hzero (by decide)

end Selebrow.Limited
