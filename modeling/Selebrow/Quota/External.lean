import Selebrow.Quota.Accounting

/-!
# External reservations

Slots that somebody else took are counted with `ExternalReserve`, without a look at the
limit, and given back with `Release` like any other.  The fast path of `Reserve` then
waits until a slot is free, but `Release` hands a slot on to the first waiter whatever
`allocated` is.

A caller may count any number of slots, so the sums are those of Go's `int` here: `reserve`
and `externalReserve` are the sections of the authorizer with additions that wrap, and
`reserve_eq` says that they are the same where no sum leaves the range.
-/

namespace Selebrow.Quota.External

open Transition

/-- What an `int`, of 64 bits, holds after an addition with the sum `n`. -/
def int (n : Int) : Int := n.bmod 18446744073709551616

/-- The first locked section of `Reserve`, for a call that would wait on `ch`. -/
def reserve (q : LimitQuotaAuthorizer) (ch : Nat) : LimitQuotaAuthorizer × Entered :=
  let qSize := (q.queue.length : Int)
  if int (q.allocated + qSize) < q.limit then
    ({ q with allocated := int (q.allocated + 1) }, .granted)
  else if qSize ≥ q.qLimit then
    (q, .rejected (newQuoteExceededError
      { code := none, cause := none, text := q.formatError "quota exceeded" }))
  else
    ({ q with queue := q.queue ++ [ch] }, .queued)

def externalReserve (q : LimitQuotaAuthorizer) (qty : Int) : LimitQuotaAuthorizer :=
  { q with allocated := int (q.allocated + qty) }

/-- The steps of `Reserve` as before; `Release` is anybody's. -/
inductive Act
  | reserve
  | wake (i : Nat)
  | ctxDone (i : Nat) (err : CtxErr)
  | recheck (i : Nat)
  | release
  | externalReserve (qty : Nat)
deriving DecidableEq

def stepReserve (s : State) : State :=
  let (qa, res) := reserve s.qa s.calls.length
  let call : Call :=
    match res with
    | .granted => .fastPath
    | .rejected err => .rejected err
    | .queued => .select false
  { qa := qa, calls := s.calls ++ [⟨call, false⟩] }

def stepRelease (s : State) : State :=
  let (qa, ch) := s.qa.release
  { qa := qa, calls := closeChannel s.calls ch }

def step (s : State) : Act → Option State
  | .reserve => some (stepReserve s)
  | .wake i => stepWake s i
  | .ctxDone i err => stepCtxDone s i err
  | .recheck i => stepRecheck s i
  | .release => some (stepRelease s)
  | .externalReserve qty =>
    -- a larger `qty` is no `int`
    if qty < 9223372036854775808 then some { s with qa := externalReserve s.qa qty } else none

def machine (limit qLimit : Int) : Machine State Act :=
  { init := { qa := .new limit qLimit, calls := [] }, step := step }

/-- Whoever is granted a slot by the step, no more than the limit are allocated then. -/
def Honours (s : State) (a : Act) : Prop :=
  ∀ s', step s a = some s' → ∀ j, Grants s s' j → s'.qa.allocated ≤ s'.qa.limit

/-- The sum of the fast path's test, and that of `ExternalReserve`, is an `int`. -/
def Fits (s : State) : Act → Prop
  | .reserve => s.qa.allocated + s.qa.queue.length < 9223372036854775808
  | .externalReserve qty => s.qa.allocated + qty < 9223372036854775808
  | _ => True

/-- Nobody waits when more than the limit are allocated: no `Reserve` joins the queue then,
and an `ExternalReserve` that goes over the limit finds the queue empty. -/
def Orderly (s : State) : Act → Prop
  | .reserve => s.qa.allocated ≤ s.qa.limit ∨ s.qa.qLimit ≤ s.qa.queue.length
  | .externalReserve qty => s.qa.queue = [] ∨ s.qa.allocated + qty ≤ s.qa.limit
  | _ => True

/-- Whatever step with sums in range comes next, its grants respect the limit. -/
def Safe (s : State) : Prop := ∀ a, Fits s a → Honours s a

/-! ## Sums -/

theorem le_int (n : Int) : -9223372036854775808 ≤ int n := by
  have := Int.le_bmod (x := n) (m := 18446744073709551616) (by decide)
  unfold int
  omega

theorem int_eq {n : Int} (hlow : -9223372036854775808 ≤ n) (hhigh : n < 9223372036854775808) :
    int n = n :=
  Int.bmod_eq_of_le (by omega) (by omega)

theorem int_le {n : Int} (h : -9223372036854775808 ≤ n) : int n ≤ n := by
  by_cases hhigh : n < 9223372036854775808
  · exact Int.le_of_eq (int_eq h hhigh)
  · have := Int.bmod_lt (x := n) (m := 18446744073709551616) (by decide)
    unfold int
    omega

/-- Where the sums are `int`s the section is the authorizer's. -/
theorem reserve_eq {q : LimitQuotaAuthorizer} (hlow : -9223372036854775808 ≤ q.allocated)
    (hfits : q.allocated + q.queue.length < 9223372036854775808)
    (hlimit : q.limit < 9223372036854775808) (ch : Nat) :
    reserve q ch = q.reserve ch := by
  have hsum : int (q.allocated + q.queue.length) = q.allocated + q.queue.length :=
    int_eq (by omega) hfits
  rw [reserve, LimitQuotaAuthorizer.reserve, hsum]
  by_cases h : q.allocated + q.queue.length < q.limit
  · have hone : int (q.allocated + 1) = q.allocated + 1 := int_eq (by omega) (by omega)
    simp only [h, if_true, hone]
  · simp only [h, if_false]

theorem externalReserve_eq {q : LimitQuotaAuthorizer} {qty : Nat}
    (hlow : -9223372036854775808 ≤ q.allocated) (hfits : q.allocated + qty < 9223372036854775808) :
    externalReserve q qty = q.externalReserve qty := by
  rw [externalReserve, LimitQuotaAuthorizer.externalReserve, int_eq (by omega) hfits]

/-! ## What a step can do -/

/-- The steps, one constructor for each branch of the source. -/
inductive Step (s : State) : Act → State → Prop
  | fastPath (h : int (s.qa.allocated + s.qa.queue.length) < s.qa.limit) :
      Step s .reserve
        { qa := { s.qa with allocated := int (s.qa.allocated + 1) },
          calls := s.calls ++ [⟨.fastPath, false⟩] }
  | rejected (err : ReserveError) (h : s.qa.limit ≤ int (s.qa.allocated + s.qa.queue.length))
      (hq : s.qa.qLimit ≤ s.qa.queue.length) :
      Step s .reserve { s with calls := s.calls ++ [⟨.rejected err, false⟩] }
  | queued (h : s.qa.limit ≤ int (s.qa.allocated + s.qa.queue.length))
      (hq : (s.qa.queue.length : Int) < s.qa.qLimit) :
      Step s .reserve
        { qa := { s.qa with queue := s.qa.queue ++ [s.calls.length] },
          calls := s.calls ++ [⟨.select false, false⟩] }
  | wake (i : Nat) (r : Bool) (h : s.calls[i]? = some ⟨.select true, r⟩) :
      Step s (.wake i) { s with calls := s.calls.set i ⟨.served, r⟩ }
  | ctxDone (i : Nat) (err : CtxErr) (closed r : Bool)
      (h : s.calls[i]? = some ⟨.select closed, r⟩) :
      Step s (.ctxDone i err) { s with calls := s.calls.set i ⟨.ctxDone err closed, r⟩ }
  | lastMoment (i : Nat) (err : CtxErr) (r : Bool)
      (h : s.calls[i]? = some ⟨.ctxDone err true, r⟩) :
      Step s (.recheck i) { s with calls := s.calls.set i ⟨.served, r⟩ }
  | cancel (i : Nat) (err : CtxErr) (e : ReserveError) (r : Bool)
      (h : s.calls[i]? = some ⟨.ctxDone err false, r⟩) :
      Step s (.recheck i)
        { qa := { s.qa with queue := s.qa.queue.erase i },
          calls := s.calls.set i ⟨.failed e, r⟩ }
  | handOver (ch : Nat) (rest : List Nat) (hq : s.qa.queue = ch :: rest) :
      Step s .release
        { qa := { s.qa with queue := rest },
          calls := s.calls.modify ch fun e => { e with call := e.call.close } }
  | free (n : Int) (hn : 0 ≤ n) (hq : s.qa.queue = []) :
      Step s .release { s with qa := { s.qa with allocated := n } }
  | external (qty : Nat) :
      Step s (.externalReserve qty) { s with qa := externalReserve s.qa qty }

theorem stepReserve_sound (s : State) : Step s .reserve (stepReserve s) := by
  unfold stepReserve reserve
  by_cases h : int (s.qa.allocated + s.qa.queue.length) < s.qa.limit
  · simp only [h, if_true]
    exact .fastPath h
  · by_cases hq : (s.qa.queue.length : Int) ≥ s.qa.qLimit
    · simp only [h, hq, if_true, if_false]
      exact .rejected _ (by omega) hq
    · simp only [h, hq, if_false]
      exact .queued (by omega) (by omega)

theorem stepRelease_sound (s : State) : Step s .release (stepRelease s) := by
  rw [stepRelease, LimitQuotaAuthorizer.release]
  cases hq : s.qa.queue with
  | nil =>
    by_cases h : s.qa.allocated < 1
    · simp only [h, if_true, closeChannel]
      exact hq ▸ .free 0 (Int.le_refl 0) hq
    · simp only [h, if_false, closeChannel]
      exact hq ▸ .free _ (by omega) hq
  | cons ch rest => exact .handOver ch rest hq

theorem step_sound {s s' : State} {a : Act} (h : step s a = some s') : Step s a s' := by
  cases a with
  | reserve => exact Option.some.inj h ▸ stepReserve_sound s
  | wake i =>
    cases Quota.step_sound (a := .wake i) h with
    | wake _ r hi => exact .wake i r hi
  | ctxDone i err =>
    cases Quota.step_sound (a := .ctxDone i err) h with
    | ctxDone _ _ closed r hi => exact .ctxDone i err closed r hi
  | recheck i =>
    cases Quota.step_sound (a := .recheck i) h with
    | lastMoment _ err r hi => exact .lastMoment i err r hi
    | cancel _ err e r hi => exact .cancel i err e r hi
  | release => exact Option.some.inj h ▸ stepRelease_sound s
  | externalReserve qty =>
    simp only [step] at h
    split at h
    · exact Option.some.inj h ▸ .external qty
    · contradiction

/-! ## The queue -/

section

variable {s s' : State} {a : Act}

/-- What is in the queue are calls that wait, each of them once, and `allocated` is an
`int`. -/
structure Queued (s : State) : Prop where
  waits : ∀ i ∈ s.qa.queue, WaitsAt s.calls i
  nodup : s.qa.queue.Nodup
  low : -9223372036854775808 ≤ s.qa.allocated

theorem queued_init (limit qLimit : Int) : Queued (machine limit qLimit).init := by
  constructor
  · intro i hi
    exact absurd hi List.not_mem_nil
  · exact List.nodup_nil
  · show (-9223372036854775808 : Int) ≤ 0
    decide

theorem Queued.append (h : Queued s) (n : Int) (hn : -9223372036854775808 ≤ n) (e : Entry) :
    Queued { qa := { s.qa with allocated := n }, calls := s.calls ++ [e] } := by
  refine ⟨?_, h.nodup, hn⟩
  intro i hi
  rw [waitsAt_append]
  exact .inl (h.waits i hi)

theorem Queued.enqueue (h : Queued s) : Queued
    { qa := { s.qa with queue := s.qa.queue ++ [s.calls.length] },
      calls := s.calls ++ [⟨.select false, false⟩] } := by
  refine ⟨?_, ?_, h.low⟩
  · intro i hi
    rw [waitsAt_append]
    rcases List.mem_append.mp hi with hi | hi
    · exact .inl (h.waits i hi)
    · rw [List.mem_singleton] at hi
      exact .inr ⟨hi, rfl⟩
  · show (s.qa.queue ++ [s.calls.length]).Nodup
    rw [List.nodup_append]
    refine ⟨h.nodup, by simp, ?_⟩
    intro i hi j hj
    have := waitsAt_lt (h.waits i hi)
    rw [List.mem_singleton] at hj
    omega

theorem Queued.set (h : Queued s) {i : Nat} {e e' : Entry} (hi : s.calls[i]? = some e)
    (hw : e'.call.waits = e.call.waits) : Queued { s with calls := s.calls.set i e' } := by
  refine ⟨?_, h.nodup, h.low⟩
  intro j hj
  rw [waitsAt_set_same hi hw]
  exact h.waits j hj

theorem Queued.erase (h : Queued s) {i : Nat} {e : Entry} (hi : s.calls[i]? = some e)
    (e' : Entry) : Queued
      { qa := { s.qa with queue := s.qa.queue.erase i }, calls := s.calls.set i e' } := by
  refine ⟨?_, h.nodup.erase i, h.low⟩
  intro j hj
  rw [h.nodup.mem_erase_iff] at hj
  rw [waitsAt_set _ hi, if_neg hj.1]
  exact h.waits j hj.2

theorem Queued.close (h : Queued s) {ch : Nat} {rest : List Nat} (hq : s.qa.queue = ch :: rest) :
    Queued
      { qa := { s.qa with queue := rest },
        calls := s.calls.modify ch fun e => { e with call := e.call.close } } := by
  have hnodup := h.nodup
  rw [hq, List.nodup_cons] at hnodup
  refine ⟨?_, hnodup.2, h.low⟩
  intro i hi
  obtain ⟨e, he, hw⟩ := h.waits i (by rw [hq]; exact List.mem_cons_of_mem ch hi)
  have hne : ch ≠ i := by
    rintro rfl
    exact hnodup.1 hi
  refine ⟨e, ?_, hw⟩
  show (s.calls.modify ch _)[i]? = some e
  simp only [List.getElem?_modify, hne, if_false, id_map', he]

theorem step_queued (h : Queued s) (hs : step s a = some s') : Queued s' := by
  cases step_sound hs with
  | fastPath _ => exact h.append _ (le_int _) _
  | rejected err _ _ => exact h.append _ h.low _
  | queued _ _ => exact h.enqueue
  | wake i r hi => exact h.set hi rfl
  | ctxDone i err closed r hi => exact h.set hi rfl
  | lastMoment i err r hi => exact h.set hi rfl
  | cancel i err e r hi => exact h.erase hi _
  | handOver ch rest hq => exact h.close hq
  | free n hn hq => exact ⟨h.waits, h.nodup, Int.le_trans (by decide) hn⟩
  | external qty => exact ⟨h.waits, h.nodup, le_int _⟩

/-! ## Who is granted what -/

theorem close_granted {c : Call} (h : c.waits = true) : c.close.granted = true := by
  cases c with
  | select closed => rfl
  | ctxDone err closed => rfl
  | _ => contradiction

/-- A `Release` that finds the queue `ch :: rest` grants its slot to `ch`. -/
theorem release_grants (h : Queued s) {ch : Nat} {rest : List Nat} (hq : s.qa.queue = ch :: rest) :
    Grants s
      { qa := { s.qa with queue := rest },
        calls := s.calls.modify ch fun e => { e with call := e.call.close } } ch := by
  obtain ⟨e, he, hw⟩ := h.waits ch (by rw [hq]; exact List.mem_cons_self)
  refine ⟨⟨{ e with call := e.call.close }, ?_, close_granted hw⟩, ?_⟩
  · show (s.calls.modify ch _)[ch]? = _
    simp only [List.getElem?_modify, he, if_true, Option.map_eq_map, Option.map_some]
  · intro e' he'
    rw [he, Option.some.injEq] at he'
    rw [← he']
    exact waits_not_granted hw

/-- Nobody waits while more than the limit are allocated. -/
def Within (s : State) : Prop := s.qa.queue = [] ∨ s.qa.allocated ≤ s.qa.limit

theorem Within.le (hw : Within s) {ch : Nat} {rest : List Nat} (hq : s.qa.queue = ch :: rest) :
    s.qa.allocated ≤ s.qa.limit := by
  rcases hw with hnil | hle
  · rw [hq] at hnil
    contradiction
  · exact hle

/-- With a sum in range the fast path looks at the slots there are. -/
theorem room_of_fastPath (h : Queued s) (hfits : Fits s .reserve)
    (hlt : int (s.qa.allocated + s.qa.queue.length) < s.qa.limit) :
    s.qa.allocated < s.qa.limit ∧ int (s.qa.allocated + 1) ≤ s.qa.limit := by
  have hfits : s.qa.allocated + s.qa.queue.length < 9223372036854775808 := hfits
  have hlow := h.low
  rw [int_eq (by omega) hfits] at hlt
  have hle : int (s.qa.allocated + 1) ≤ s.qa.allocated + 1 := int_le (by omega)
  constructor
  · omega
  · omega

/-- Only a hand-over can go beyond the limit. -/
theorem Within.honours (hw : Within s) (h : Queued s) (hfits : Fits s a) : Honours s a := by
  intro s' hs j hgrants
  cases step_sound hs with
  | fastPath hlt => exact (room_of_fastPath h hfits hlt).2
  | rejected err _ _ => exact absurd hgrants (not_grants_append rfl rfl)
  | queued _ _ => exact absurd hgrants (not_grants_append rfl rfl)
  | wake i r hi => exact absurd hgrants (not_grants_set hi rfl rfl)
  | ctxDone i err closed r hi => exact absurd hgrants (not_grants_set hi rfl rfl)
  | lastMoment i err r hi => exact absurd hgrants (not_grants_set hi rfl rfl)
  | cancel i err e r hi => exact absurd hgrants (not_grants_set hi rfl rfl)
  | handOver ch rest hq => exact hw.le hq
  | free n hn hq => exact absurd hgrants (not_grants_same rfl)
  | external qty => exact absurd hgrants (not_grants_same rfl)

theorem safe_iff (h : Queued s) : Safe s ↔ Within s := by
  constructor
  · intro hsafe
    cases hq : s.qa.queue with
    | nil => exact .inl hq
    | cons ch rest =>
      have hs : step s .release = some
          { qa := { s.qa with queue := rest },
            calls := s.calls.modify ch fun e => { e with call := e.call.close } } := by
        rw [step, stepRelease, LimitQuotaAuthorizer.release, hq]
        rfl
      have hle := hsafe .release trivial _ hs ch (release_grants h hq)
      exact .inr hle
  · intro hw a hfits
    exact hw.honours h hfits

/-- A step from a state in which nobody waits above the limit keeps it so exactly if it is
an orderly one: neither a `Release` nor a call that gives up can make somebody wait. -/
theorem within_step (hw : Within s) (h : Queued s) (hfits : Fits s a) (hs : step s a = some s') :
    Within s' ↔ Orderly s a := by
  have hlow := h.low
  cases step_sound hs with
  | fastPath hlt =>
    obtain ⟨hroom, hle⟩ := room_of_fastPath h hfits hlt
    exact ⟨fun _ => .inl (Int.le_of_lt hroom), fun _ => .inr hle⟩
  | rejected err _ hq => exact ⟨fun _ => .inr hq, fun _ => hw⟩
  | queued _ hq =>
    constructor
    · intro hw'
      rcases hw' with hnil | hle
      · exact absurd hnil (by simp)
      · exact .inl hle
    · intro ho
      rcases ho with hle | hfull
      · exact .inr hle
      · omega
  | wake i r hi => exact ⟨fun _ => trivial, fun _ => hw⟩
  | ctxDone i err closed r hi => exact ⟨fun _ => trivial, fun _ => hw⟩
  | lastMoment i err r hi => exact ⟨fun _ => trivial, fun _ => hw⟩
  | cancel i err e r hi =>
    refine ⟨fun _ => trivial, fun _ => ?_⟩
    rcases hw with hnil | hle
    · left
      show s.qa.queue.erase i = []
      rw [hnil]
      rfl
    · exact .inr hle
  | handOver ch rest hq => exact ⟨fun _ => trivial, fun _ => .inr (hw.le hq)⟩
  | free n hn hq => exact ⟨fun _ => trivial, fun _ => .inl hq⟩
  | external qty =>
    have hfits : s.qa.allocated + qty < 9223372036854775808 := hfits
    show s.qa.queue = [] ∨ int (s.qa.allocated + qty) ≤ s.qa.limit ↔ _
    rw [int_eq (by omega) hfits]
    exact Iff.rfl

end

/-! ## Whole runs -/

/-- In a run whose sums are in range every state is safe exactly if all the steps are
orderly, and then all the grants of the run respect the limit. -/
theorem reservations_honoured_iff (limit qLimit : Int) {acts : List Act} {t : State}
    (h : (machine limit qLimit).run (machine limit qLimit).init acts = some t)
    (hfits : (machine limit qLimit).Meets Fits (machine limit qLimit).init acts) :
    ((machine limit qLimit).Meets Orderly (machine limit qLimit).init acts →
      (machine limit qLimit).Meets Honours (machine limit qLimit).init acts) ∧
    ((machine limit qLimit).Along Safe (machine limit qLimit).init acts ↔
      (machine limit qLimit).Meets Orderly (machine limit qLimit).init acts) := by
  have hinit : Safe (machine limit qLimit).init :=
    (safe_iff (queued_init limit qLimit)).mpr (.inl rfl)
  have hiff := Machine.along_iff_meets (M := machine limit qLimit) (I := Queued) (P := Safe)
    (fun _ _ _ hq hs => step_queued hq hs)
    (fun s a s' hq hf hsafe hs => by
      rw [safe_iff (step_queued hq hs)]
      exact within_step ((safe_iff hq).mp hsafe) hq hf hs)
    acts (queued_init limit qLimit) hinit hfits h
  refine ⟨?_, hiff⟩
  intro hmeets
  exact Machine.Along.meets (fun s a hsafe hf => hsafe a hf) acts (hiff.mpr hmeets) hfits

/-- With a limit of two: three more slots are taken while a call holds one, and a further
call is granted its own when all but one have been given back. -/
def broughtDown : List Act :=
  [.reserve, .externalReserve 3, .release, .release, .release, .reserve]

theorem reservations_honoured_broughtDown :
    (machine 2 1).Meets Orderly (machine 2 1).init broughtDown ∧
      (machine 2 1).Meets Honours (machine 2 1).init broughtDown ∧
      (machine 2 1).Along Safe (machine 2 1).init broughtDown := by
  have hfits : (machine 2 1).Meets Fits (machine 2 1).init broughtDown := by
    refine ⟨?_, ?_, trivial, trivial, trivial, ?_, trivial⟩
    · exact (by decide : (0 : Int) + (0 : Nat) < 9223372036854775808)
    · exact (by decide : (1 : Int) + (3 : Nat) < 9223372036854775808)
    · exact (by decide : (1 : Int) + (0 : Nat) < 9223372036854775808)
  have horderly : (machine 2 1).Meets Orderly (machine 2 1).init broughtDown := by
    refine ⟨.inl ?_, .inl rfl, trivial, trivial, trivial, .inl ?_, trivial⟩
    · exact (by decide : (0 : Int) ≤ 2)
    · exact (by decide : (1 : Int) ≤ 2)
  have hrun : ∃ t, (machine 2 1).run (machine 2 1).init broughtDown = some t := ⟨_, rfl⟩
  obtain ⟨t, ht⟩ := hrun
  obtain ⟨hhonours, hsafe⟩ := reservations_honoured_iff 2 1 ht hfits
  exact ⟨horderly, hhonours horderly, hsafe.mpr horderly⟩

/-- With a limit of one: a call holds the slot and another waits, somebody takes a second
slot, and the first one is given back. -/
def overLimit : List Act := [.reserve, .reserve, .externalReserve 1, .release]

/-- Two calls wait, and so many slots are taken that the sum of the fast path's test is
2^63, which is negative as an `int`. -/
def overflown : List Act :=
  [.reserve, .reserve, .reserve, .externalReserve 9223372036854775805, .reserve]

theorem handed_over_above_limit :
    (∃ s s' : State, (machine 1 1).Reachable s ∧ step s .release = some s' ∧ Grants s s' 1 ∧
      s'.qa.limit < s'.qa.allocated) ∧
    (∃ s s' : State, (machine 1 2).Reachable s ∧ step s .reserve = some s' ∧ Grants s s' 3 ∧
      s'.qa.limit < s'.qa.allocated) ∧
    ¬ ∀ acts, (machine 1 1).Meets Honours (machine 1 1).init acts := by
  have hrun : ∃ s s' : State, (machine 1 1).run (machine 1 1).init overLimit.dropLast = some s ∧
      step s .release = some s' ∧ Grants s s' 1 ∧ s'.qa.limit < s'.qa.allocated := by
    refine ⟨_, _, rfl, rfl, ⟨⟨_, rfl, rfl⟩, ?_⟩, by decide⟩
    intro e he
    cases he
    rfl
  have hwrap : ∃ s s' : State, (machine 1 2).run (machine 1 2).init overflown.dropLast = some s ∧
      step s .reserve = some s' ∧ Grants s s' 3 ∧ s'.qa.limit < s'.qa.allocated := by
    refine ⟨_, _, rfl, rfl, ⟨⟨_, rfl, rfl⟩, ?_⟩, by decide⟩
    intro e he
    contradiction
  obtain ⟨s, s', hs, hstep, hgrants, hlt⟩ := hrun
  obtain ⟨u, u', hu, hwrapped⟩ := hwrap
  refine ⟨⟨s, s', Machine.reachable_of_run _ hs, hstep, hgrants, hlt⟩,
    ⟨u, u', Machine.reachable_of_run _ hu, hwrapped⟩, ?_⟩
  intro h
  have hmeets := h overLimit
  cases hs
  exact absurd (hmeets.2.2.2.1 s' hstep 1 hgrants) (by omega)

end Selebrow.Quota.External
