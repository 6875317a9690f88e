import Mathlib.Data.List.Pairwise
import Selebrow.Quota.Authorizer
import Selebrow.Transition.Entries
import Selebrow.Transition.Tally

/-!
# Quota accounting and arrival order

The invariant ties the authorizer's counter and queue to the calls: the counter
is the number of slots held, the queue is the list of the waiting calls in the
order of their arrival, and somebody waits only when no slot is free.  Each step
without `ExternalReserve` preserves it.
-/

namespace Selebrow.Quota

open Transition

/-- Call `i` is in the `select` or past its `ctx.Done` case, with an open channel. -/
def WaitsAt (calls : List Entry) (i : Nat) : Prop :=
  ∃ e, calls[i]? = some e ∧ e.call.waits = true

structure Inv (limit qLimit : Int) (s : State) : Prop where
  limit_eq : s.qa.limit = limit
  qLimit_eq : s.qa.qLimit = qLimit
  allocated : s.qa.allocated = s.calls.countP Entry.holds
  bound : s.qa.allocated ≤ max limit 0
  queue : ∀ i, i ∈ s.qa.queue ↔ WaitsAt s.calls i
  sorted : s.qa.queue.Pairwise (· < ·)
  short : (s.qa.queue.length : Int) ≤ max qLimit 0
  full : s.qa.queue ≠ [] → limit ≤ s.qa.allocated
  released : ∀ e ∈ s.calls, e.released = true → e.call.granted = true

theorem waits_not_granted {c : Call} (h : c.waits = true) : c.granted = false := by
  cases c <;> simp_all [Call.waits, Call.granted]

theorem waitsAt_set {calls : List Entry} {i : Nat} {e : Entry} (e' : Entry)
    (h : calls[i]? = some e) (j : Nat) :
    WaitsAt (calls.set i e') j ↔ if j = i then e'.call.waits = true else WaitsAt calls j := by
  by_cases hj : j = i
  · subst hj
    simp [WaitsAt, getElem?_set_eq h]
  · simp [WaitsAt, hj, List.getElem?_set_ne (Ne.symm hj)]

/-- A call that goes on waiting, or that did not wait and does not, leaves the
waiting calls as they were. -/
theorem waitsAt_set_same {calls : List Entry} {i : Nat} {e e' : Entry}
    (h : calls[i]? = some e) (hw : e'.call.waits = e.call.waits) (j : Nat) :
    WaitsAt (calls.set i e') j ↔ WaitsAt calls j := by
  rw [waitsAt_set e' h]
  by_cases hj : j = i
  · subst hj
    simp [WaitsAt, h, hw]
  · simp [hj]

theorem waitsAt_append (calls : List Entry) (e : Entry) (j : Nat) :
    WaitsAt (calls ++ [e]) j ↔ WaitsAt calls j ∨ (j = calls.length ∧ e.call.waits = true) := by
  unfold WaitsAt
  rw [List.getElem?_append]
  by_cases hj : j < calls.length
  · have : j ≠ calls.length := by omega
    simp [hj, this]
  · by_cases hjl : j = calls.length
    · subst hjl
      simp
    · have h1 : [e][j - calls.length]? = none := List.getElem?_eq_none (by simp; omega)
      simp [hj, hjl, h1]

theorem waitsAt_lt {calls : List Entry} {i : Nat} (h : WaitsAt calls i) : i < calls.length := by
  obtain ⟨e, he, _⟩ := h
  exact lt_of_getElem? he

theorem init_inv (limit qLimit : Int) : Inv limit qLimit (machine limit qLimit).init := by
  refine ⟨rfl, rfl, rfl, ?_, ?_, .nil, ?_, ?_, ?_⟩
  · exact Int.le_max_right limit 0
  · intro i
    simp [machine, LimitQuotaAuthorizer.new, WaitsAt]
  · exact Int.le_max_right qLimit 0
  · simp [machine, LimitQuotaAuthorizer.new]
  · simp [machine]

/-- A call that returned from the first section without waiting. -/
theorem inv_of_returned {limit qLimit : Int} {s : State} {c : Call} {n : Int}
    (hi : Inv limit qLimit s) (hw : c.waits = false)
    (hn : n = s.qa.allocated + c.granted.toNat) (hb : n ≤ max limit 0) :
    Inv limit qLimit
      { qa := { s.qa with allocated := n }, calls := s.calls ++ [⟨c, false⟩] } := by
  refine ⟨hi.limit_eq, hi.qLimit_eq, ?_, hb, ?_, hi.sorted, hi.short, ?_,
    forall_mem_append hi.released (by simp)⟩
  · have hc : List.countP Entry.holds [(⟨c, false⟩ : Entry)] = c.granted.toNat := by
      cases hg : c.granted <;> simp [Entry.holds, hg]
    have := hi.allocated
    show n = ((s.calls ++ [(⟨c, false⟩ : Entry)]).countP Entry.holds : Nat)
    rw [List.countP_append, hc]
    omega
  · intro i
    rw [waitsAt_append, ← hi.queue i]
    simp [hw]
  · intro hq
    have := hi.full hq
    have : (0 : Int) ≤ c.granted.toNat := Int.natCast_nonneg _
    simp only at hq ⊢
    omega

/-- A call that moves on without changing what it holds or whether it waits. -/
theorem inv_of_set_same {limit qLimit : Int} {s : State} {i : Nat} {c c' : Call} {r : Bool}
    (hi : Inv limit qLimit s) (h : s.calls[i]? = some ⟨c, r⟩)
    (hg : c'.granted = c.granted) (hw : c'.waits = c.waits) :
    Inv limit qLimit { s with calls := s.calls.set i ⟨c', r⟩ } := by
  refine ⟨hi.limit_eq, hi.qLimit_eq, ?_, hi.bound, ?_, hi.sorted, hi.short, hi.full, ?_⟩
  · have := hi.allocated
    have hs := countP_set_add Entry.holds ⟨c', r⟩ h
    simp only [Entry.holds, hg] at hs ⊢
    rw [this]
    omega
  · intro j
    rw [waitsAt_set_same h hw, ← hi.queue j]
  · exact forall_mem_set hi.released (fun hr => hg ▸ hi.released _ (List.mem_of_getElem? h) hr)

theorem inv_of_cancel {limit qLimit : Int} {s : State} {i : Nat} {err : CtxErr}
    {e : ReserveError} {r : Bool} (hi : Inv limit qLimit s)
    (h : s.calls[i]? = some ⟨.ctxDone err false, r⟩) :
    Inv limit qLimit
      { qa := { s.qa with queue := s.qa.queue.erase i },
        calls := s.calls.set i ⟨.failed e, r⟩ } := by
  have hnd : s.qa.queue.Nodup := hi.sorted.imp (fun hab => Nat.ne_of_lt hab)
  refine ⟨hi.limit_eq, hi.qLimit_eq, ?_, hi.bound, ?_, ?_, ?_, ?_, ?_⟩
  · have := hi.allocated
    have hs := countP_set_add Entry.holds ⟨.failed e, r⟩ h
    simp only [Entry.holds, Call.granted, Bool.false_and, Bool.toNat_false] at hs ⊢
    rw [this]
    omega
  · intro j
    rw [hnd.mem_erase_iff, waitsAt_set _ h, hi.queue j]
    by_cases hj : j = i <;> simp [hj, Call.waits]
  · exact hi.sorted.sublist List.erase_sublist
  · have := List.length_erase_le (a := i) (l := s.qa.queue)
    have := hi.short
    simp only
    omega
  · intro hq
    refine hi.full (fun hnil => hq ?_)
    simp [hnil]
  · refine forall_mem_set hi.released (fun hr => ?_)
    have := hi.released _ (List.mem_of_getElem? h) hr
    simp [Call.granted] at this

theorem inv_of_queued {limit qLimit : Int} {s : State} (hi : Inv limit qLimit s)
    (h : s.qa.limit ≤ s.qa.allocated + s.qa.queue.length)
    (hq : (s.qa.queue.length : Int) < s.qa.qLimit) :
    Inv limit qLimit
      { qa := { s.qa with queue := s.qa.queue ++ [s.calls.length] },
        calls := s.calls ++ [⟨.select false, false⟩] } := by
  refine ⟨hi.limit_eq, hi.qLimit_eq, ?_, hi.bound, ?_, ?_, ?_, ?_,
    forall_mem_append hi.released (by simp)⟩
  · have := hi.allocated
    simpa [List.countP_append, List.countP_singleton, Entry.holds, Call.granted] using this
  · intro i
    rw [waitsAt_append, ← hi.queue i, List.mem_append, List.mem_singleton]
    simp [Call.waits]
  · rw [List.pairwise_append]
    refine ⟨hi.sorted, List.pairwise_singleton _ _, fun a ha b hb => ?_⟩
    rw [List.mem_singleton] at hb
    exact hb ▸ waitsAt_lt ((hi.queue a).mp ha)
  · have := hi.qLimit_eq
    simp only [List.length_append, List.length_singleton]
    omega
  · intro _
    have hl := hi.limit_eq
    by_cases hnil : s.qa.queue = []
    · simp only [hnil, List.length_nil] at h ⊢
      omega
    · exact hi.full hnil

/-- The slot of call `i` goes to the first waiter. -/
theorem inv_of_handOver {limit qLimit : Int} {s : State} {i ch : Nat} {c : Call}
    {rest : List Nat} (hi : Inv limit qLimit s) (h : s.calls[i]? = some ⟨c, false⟩)
    (hc : c.granted = true) (hq : s.qa.queue = ch :: rest) :
    Inv limit qLimit
      { qa := { s.qa with queue := rest },
        calls := (s.calls.set i ⟨c, true⟩).modify ch fun e => { e with call := e.call.close } } := by
  obtain ⟨d, hd, hw⟩ := (hi.queue ch).mp (by simp [hq])
  have hne : i ≠ ch := by
    intro heq
    subst heq
    rw [h] at hd
    have := waits_not_granted (Option.some.inj hd ▸ hw)
    simp [hc] at this
  have hr : d.released = false := by
    by_contra hr
    have := hi.released d (List.mem_of_getElem? hd) (by simpa using hr)
    rw [waits_not_granted hw] at this
    simp at this
  have hd' : (s.calls.set i ⟨c, true⟩)[ch]? = some d := by
    rw [List.getElem?_set_ne hne]
    exact hd
  have hmod : (s.calls.set i ⟨c, true⟩).modify ch (fun e => { e with call := e.call.close }) =
      (s.calls.set i ⟨c, true⟩).set ch { d with call := d.call.close } := by
    rw [List.modify_eq_set_getElem?, hd']
    rfl
  have hclose : d.call.close.granted = true ∧ d.call.close.waits = false := by
    cases hdc : d.call <;> rw [hdc] at hw <;> simp_all [Call.waits, Call.close, Call.granted]
  have hsorted := hi.sorted
  rw [hq, List.pairwise_cons] at hsorted
  rw [hmod]
  refine ⟨hi.limit_eq, hi.qLimit_eq, ?_, hi.bound, ?_, hsorted.2, ?_, ?_, ?_⟩
  · have h1 := countP_set_add Entry.holds ⟨c, true⟩ h
    have h2 := countP_set_add Entry.holds { d with call := d.call.close } hd'
    have := hi.allocated
    simp only [Entry.holds, hc, hr, hclose.1, waits_not_granted hw] at h1 h2 this ⊢
    simp at h1 h2
    rw [this]
    omega
  · intro j
    rw [waitsAt_set _ hd', waitsAt_set_same h (by rfl), ← hi.queue j, hq]
    by_cases hj : j = ch
    · subst hj
      simp only [if_true, hclose.2]
      have hmem : j ∉ rest := fun hm => Nat.lt_irrefl j (hsorted.1 j hm)
      simp [hmem]
    · simp [hj]
  · have := hi.short
    rw [hq] at this
    simp only [List.length_cons] at this ⊢
    omega
  · intro _
    exact hi.full (by simp [hq])
  · refine forall_mem_set (forall_mem_set hi.released (fun _ => hc)) (fun hr' => ?_)
    simp [hr] at hr'

theorem inv_of_free {limit qLimit : Int} {s : State} {i : Nat} {c : Call}
    (hi : Inv limit qLimit s) (h : s.calls[i]? = some ⟨c, false⟩) (hc : c.granted = true)
    (hq : s.qa.queue = []) :
    Inv limit qLimit
      { qa := { s.qa with allocated := s.qa.allocated - 1 },
        calls := s.calls.set i ⟨c, true⟩ } := by
  refine ⟨hi.limit_eq, hi.qLimit_eq, ?_, ?_, ?_, hi.sorted, hi.short, ?_, ?_⟩
  · have hs := countP_set_add Entry.holds ⟨c, true⟩ h
    have := hi.allocated
    simp only [Entry.holds, hc] at hs this ⊢
    simp at hs
    omega
  · have := hi.bound
    simp only
    omega
  · intro j
    rw [waitsAt_set_same h (by rfl), ← hi.queue j]
  · intro hne
    exact absurd hq hne
  · exact forall_mem_set hi.released (fun _ => hc)

/-- Every step but `ExternalReserve` keeps the invariant. -/
theorem step_inv {limit qLimit : Int} {s s' : State} {a : Act} (hi : Inv limit qLimit s)
    (ha : NoExternal s a) (h : step s a = some s') : Inv limit qLimit s' := by
  cases step_sound h with
  | fastPath hlt =>
    apply inv_of_returned hi (by rfl) (by simp [Call.granted])
    have := hi.limit_eq
    omega
  | rejected err _ _ => exact inv_of_returned hi (by rfl) (by simp [Call.granted]) hi.bound
  | queued hl hq => exact inv_of_queued hi hl hq
  | wake i r hc => exact inv_of_set_same hi hc rfl rfl
  | ctxDone i err closed r hc => exact inv_of_set_same hi hc rfl rfl
  | lastMoment i err r hc => exact inv_of_set_same hi hc rfl rfl
  | cancel i err e r hc => exact inv_of_cancel hi hc
  | handOver i c ch rest hc hg hq => exact inv_of_handOver hi hc hg hq
  | underrun i c hc hg hq hlt =>
    -- Call `i` holds a slot, so the counter is at least one.
    have hpos : 0 < s.calls.countP Entry.holds := by
      rw [List.countP_pos_iff]
      exact ⟨_, List.mem_of_getElem? hc, by simp [Entry.holds, hg]⟩
    have := hi.allocated
    omega
  | free i c hc hg hq _ => exact inv_of_free hi hc hg hq
  | external qty => exact absurd ha (by simp [NoExternal])

theorem reach_inv {limit qLimit : Int} {s : State}
    (h : (machine limit qLimit).Reach NoExternal s) : Inv limit qLimit s :=
  h.invariant (init_inv limit qLimit) (fun _ _ _ hi ha hs => step_inv hi ha hs)

/-! ## How a call evolves -/

/-- What later steps keep of a call: its grant, its result and its release. -/
structure Entry.Evolves (e e' : Entry) : Prop where
  granted : e.call.granted = true → e'.call.granted = true
  result : ∀ r, e.call.result = some r → e'.call.result = some r
  released : e.released = true → e'.released = true

theorem Entry.Evolves.rfl {e : Entry} : e.Evolves e := ⟨id, fun _ => id, id⟩

theorem Entry.Evolves.trans {e e' e'' : Entry} (h : e.Evolves e') (h' : e'.Evolves e'') :
    e.Evolves e'' :=
  ⟨fun hg => h'.granted (h.granted hg), fun r hr => h'.result r (h.result r hr),
    fun hr => h'.released (h.released hr)⟩

theorem evolves_close {calls : List Entry} (ch : Nat) {j : Nat} {e : Entry}
    (hj : calls[j]? = some e) :
    ∃ e', (calls.modify ch fun e => { e with call := e.call.close })[j]? = some e' ∧
      e.Evolves e' := by
  rw [List.getElem?_modify, hj]
  by_cases hch : ch = j
  · refine ⟨{ e with call := e.call.close }, by simp [hch], ?_, ?_, id⟩
    · cases hc : e.call <;> simp [Call.close, Call.granted]
    · intro r
      cases hc : e.call <;> simp [Call.close, Call.result]
  · exact ⟨e, by simp [hch], .rfl⟩

theorem step_evolves {s s' : State} {a : Act} (h : step s a = some s') {j : Nat} {e : Entry}
    (hj : s.calls[j]? = some e) : ∃ e', s'.calls[j]? = some e' ∧ e.Evolves e' := by
  cases step_sound h with
  | fastPath _ => exact ⟨e, getElem?_append_some hj, .rfl⟩
  | rejected err _ _ => exact ⟨e, getElem?_append_some hj, .rfl⟩
  | queued _ _ => exact ⟨e, getElem?_append_some hj, .rfl⟩
  | wake i r hi => exact exists_getElem?_set (fun _ => .rfl) hi ⟨id, by simp [Call.result], id⟩ hj
  | ctxDone i err closed r hi => exact exists_getElem?_set (fun _ => .rfl) hi ⟨id, by simp [Call.result], id⟩ hj
  | lastMoment i err r hi => exact exists_getElem?_set (fun _ => .rfl) hi ⟨id, by simp [Call.result], id⟩ hj
  | cancel i err x r hi => exact exists_getElem?_set (fun _ => .rfl) hi ⟨id, by simp [Call.result], id⟩ hj
  | handOver i c ch rest hi _ _ =>
    have hgrant : Entry.Evolves ⟨c, false⟩ ⟨c, true⟩ := ⟨id, fun _ => id, by simp⟩
    obtain ⟨e', he', hev⟩ := exists_getElem?_set (fun _ => .rfl) hi hgrant hj
    obtain ⟨e'', he'', hev'⟩ := evolves_close ch he'
    exact ⟨e'', he'', hev.trans hev'⟩
  | underrun i c hi _ _ _ => exact exists_getElem?_set (fun _ => .rfl) hi ⟨id, fun _ => id, by simp⟩ hj
  | free i c hi _ _ _ => exact exists_getElem?_set (fun _ => .rfl) hi ⟨id, fun _ => id, by simp⟩ hj
  | external _ => exact ⟨e, hj, .rfl⟩

theorem leads_evolves {limit qLimit : Int} {C : State → Act → Prop} {s t : State}
    (h : (machine limit qLimit).Leads C s t) {j : Nat} {e : Entry}
    (hj : s.calls[j]? = some e) : ∃ e', t.calls[j]? = some e' ∧ e.Evolves e' := by
  induction h with
  | refl => exact ⟨e, hj, .rfl⟩
  | tail _ _ hs ih =>
    obtain ⟨e', he', hev⟩ := ih
    obtain ⟨e'', he'', hev'⟩ := step_evolves hs he'
    exact ⟨e'', he'', hev.trans hev'⟩

/-- Only its own `Release` marks a call as released. -/
theorem step_released {s s' : State} {a : Act} (h : step s a = some s') {j : Nat} {e' : Entry}
    (hj : s'.calls[j]? = some e') (hr : e'.released = true) :
    a = .release j ∨ ∃ e, s.calls[j]? = some e ∧ e.released = true := by
  have happend : ∀ {c : Call}, (s.calls ++ [⟨c, false⟩])[j]? = some e' →
      ∃ e, s.calls[j]? = some e ∧ e.released = true := by
    intro c hj
    rcases getElem?_concat_some hj with hj | ⟨_, rfl⟩
    · exact ⟨e', hj, hr⟩
    · simp at hr
  have hset : ∀ {i : Nat} {c c' : Call} {r : Bool}, s.calls[i]? = some ⟨c, r⟩ →
      (s.calls.set i ⟨c', r⟩)[j]? = some e' → ∃ e, s.calls[j]? = some e ∧ e.released = true := by
    intro i c c' r hi hj
    rcases getElem?_set_some hj with ⟨rfl, rfl⟩ | ⟨_, hj⟩
    · exact ⟨_, hi, hr⟩
    · exact ⟨e', hj, hr⟩
  have hrel : ∀ {i : Nat} {c : Call}, (s.calls.set i ⟨c, true⟩)[j]? = some e' →
      Act.release i = .release j ∨ ∃ e, s.calls[j]? = some e ∧ e.released = true := by
    intro i c hj
    rcases getElem?_set_some hj with ⟨rfl, _⟩ | ⟨_, hj⟩
    · exact .inl rfl
    · exact .inr ⟨e', hj, hr⟩
  cases step_sound h with
  | fastPath _ => exact .inr (happend hj)
  | rejected err _ _ => exact .inr (happend hj)
  | queued _ _ => exact .inr (happend hj)
  | wake i r hi => exact .inr (hset hi hj)
  | ctxDone i err closed r hi => exact .inr (hset hi hj)
  | lastMoment i err r hi => exact .inr (hset hi hj)
  | cancel i err x r hi => exact .inr (hset hi hj)
  | handOver i c ch rest _ _ _ =>
    -- Closing the channel of a waiter leaves its mark alone.
    rw [List.getElem?_modify, Option.map_eq_map, Option.map_eq_some_iff] at hj
    obtain ⟨d, hd, hde⟩ := hj
    have hdr : d.released = true := by
      rw [← hr, ← hde]
      split <;> rfl
    rcases getElem?_set_some hd with ⟨rfl, _⟩ | ⟨_, hd⟩
    · exact .inl rfl
    · exact .inr ⟨d, hd, hdr⟩
  | underrun i c _ _ _ _ => exact hrel hj
  | free i c _ _ _ _ => exact hrel hj
  | external _ => exact .inr ⟨e', hj, hr⟩

/-- A `Release` marks its call as released. -/
theorem release_released {s s' : State} {i : Nat} (h : step s (.release i) = some s') :
    ∃ e, s'.calls[i]? = some e ∧ e.released = true := by
  generalize ha : Act.release i = a at h
  cases step_sound h with
  | handOver j c ch rest hj _ _ =>
    obtain rfl := Act.release.inj ha
    obtain ⟨e, he, hev⟩ := evolves_close ch (getElem?_set_eq (d := ⟨c, true⟩) hj)
    exact ⟨e, he, hev.released rfl⟩
  | underrun j c hj _ _ _ =>
    obtain rfl := Act.release.inj ha
    exact ⟨_, getElem?_set_eq hj, rfl⟩
  | free j c hj _ _ _ =>
    obtain rfl := Act.release.inj ha
    exact ⟨_, getElem?_set_eq hj, rfl⟩
  | _ => simp at ha

theorem step_length {s s' : State} {a : Act} (h : step s a = some s') (ha : a ≠ .reserve) :
    s'.calls.length = s.calls.length := by
  cases step_sound h with
  | fastPath _ => exact absurd rfl ha
  | rejected err _ _ => exact absurd rfl ha
  | queued _ _ => exact absurd rfl ha
  | handOver i c ch rest _ _ _ => rw [List.length_modify, List.length_set]
  | external _ => rfl
  | _ => exact List.length_set

theorem reserve_calls {s s' : State} (h : step s .reserve = some s') :
    ∃ c : Call, s'.calls = s.calls ++ [⟨c, false⟩] := by
  generalize ha : Act.reserve = a at h
  cases step_sound h with
  | fastPath _ => exact ⟨_, rfl⟩
  | rejected err _ _ => exact ⟨_, rfl⟩
  | queued _ _ => exact ⟨_, rfl⟩
  | _ => simp at ha

/-! ## Accounting -/

def Call.errored : Call → Bool
  | .rejected _ | .failed _ => true
  | _ => false

/-- A call that waits, a call that has its slot and a call that failed are three
different things, and there is nothing else. -/
theorem waits_granted_errored (c : Call) :
    [c.waits, c.granted, c.errored].count true = 1 := by
  cases c with
  | select closed => cases closed <;> rfl
  | ctxDone err closed => cases closed <;> rfl
  | _ => rfl

/-- Without external reservations the authorizer counts exactly the slots that
are held, never more than the limit, queues at most the queue limit and only when
every slot is taken, and gives every call one outcome that no later step changes:
it waits in the queue, or it has its slot, or it failed and has none. -/
theorem quota_accounting {limit qLimit : Int} (hlimit : 1 ≤ limit) {s : State}
    (h : (machine limit qLimit).Reach NoExternal s) :
    s.qa.allocated = s.calls.countP Entry.holds ∧
    0 ≤ s.qa.allocated ∧ s.qa.allocated ≤ limit ∧
    (s.qa.queue.length : Int) ≤ max qLimit 0 ∧
    (s.qa.queue ≠ [] → s.qa.allocated = limit) ∧
    s.qa.queue.Nodup ∧
    ∀ i e, s.calls[i]? = some e →
      [decide (i ∈ s.qa.queue), e.call.granted, e.call.errored].count true = 1 ∧
      (∀ err, e.call.result = some (.error err) → e.holds = false ∧ i ∉ s.qa.queue) ∧
      (e.call.result = some (.ok ()) → e.holds = !e.released ∧ i ∉ s.qa.queue) ∧
      ∀ t, (machine limit qLimit).Leads NoExternal s t →
        ∃ e', t.calls[i]? = some e' ∧ e.Evolves e' := by
  have hi := reach_inv h
  have hbound := hi.bound
  refine ⟨hi.allocated, ?_, by omega, hi.short, ?_, ?_, ?_⟩
  · rw [hi.allocated]
    exact Int.natCast_nonneg _
  · intro hq
    have := hi.full hq
    omega
  · exact hi.sorted.imp (fun hab => Nat.ne_of_lt hab)
  · intro i e he
    have hq : decide (i ∈ s.qa.queue) = e.call.waits := by
      rw [Bool.eq_iff_iff, decide_eq_true_iff, hi.queue i]
      simp [WaitsAt, he]
    have hmem : i ∈ s.qa.queue ↔ e.call.waits = true := by
      rw [← hq, decide_eq_true_iff]
    refine ⟨hq ▸ waits_granted_errored e.call, ?_, ?_, fun t ht => leads_evolves ht he⟩
    · intro err hr
      rw [hmem, Entry.holds]
      cases hc : e.call <;> rw [hc] at hr <;> simp_all [Call.result, Call.granted, Call.waits]
    · intro hr
      rw [hmem, Entry.holds]
      cases hc : e.call <;> rw [hc] at hr <;> simp_all [Call.result, Call.granted, Call.waits]

/-- A waiter whose context is done gets the slot before it locks again. -/
def lastMoment : State :=
  { qa := { limit := 1, allocated := 1, queue := [], qLimit := 1 },
    calls := [⟨.fastPath, true⟩, ⟨.served, false⟩] }

theorem quota_accounting_lastMoment :
    lastMoment.qa.allocated = lastMoment.calls.countP Entry.holds ∧
      lastMoment.qa.allocated ≤ 1 := by
  have hreach : (machine 1 1).Reach NoExternal lastMoment :=
    Machine.leads_of_run [.reserve, .reserve, .ctxDone 1 .canceled, .release 0, .recheck 1]
      ⟨trivial, trivial, trivial, trivial, trivial, trivial⟩ rfl
  have h := quota_accounting (by decide) hreach
  exact ⟨h.1, h.2.2.1⟩

/-! ## Arrival order -/

/-- The step from `s` to `s'` grants call `j` its slot. -/
def Grants (s s' : State) (j : Nat) : Prop :=
  (∃ e', s'.calls[j]? = some e' ∧ e'.call.granted = true) ∧
    ∀ e, s.calls[j]? = some e → e.call.granted = false

theorem not_grants_set {s s' : State} {i j : Nat} {d d' : Entry} (hd : s.calls[i]? = some d)
    (hcalls : s'.calls = s.calls.set i d') (hg : d'.call.granted = d.call.granted) :
    ¬ Grants s s' j := by
  rintro ⟨⟨e', hj, hgranted⟩, hn⟩
  rw [hcalls] at hj
  rcases getElem?_set_some hj with ⟨rfl, rfl⟩ | ⟨_, hj⟩
  · rw [hg, hn d hd] at hgranted
    contradiction
  · rw [hn e' hj] at hgranted
    contradiction

theorem not_grants_append {s s' : State} {j : Nat} {d : Entry} (hcalls : s'.calls = s.calls ++ [d])
    (hd : d.call.granted = false) : ¬ Grants s s' j := by
  rintro ⟨⟨e', hj, hgranted⟩, hn⟩
  rw [hcalls] at hj
  rcases getElem?_concat_some hj with hj | ⟨_, rfl⟩
  · rw [hn e' hj] at hgranted
    contradiction
  · rw [hd] at hgranted
    contradiction

theorem not_grants_same {s s' : State} {j : Nat} (hcalls : s'.calls = s.calls) :
    ¬ Grants s s' j := by
  rintro ⟨⟨e', hj, hgranted⟩, hn⟩
  rw [hcalls] at hj
  rw [hn e' hj] at hgranted
  contradiction

/-- The calls that a step grants a slot to: the new call on the fast path, or the
first one of the queue. -/
theorem granted_by_step {s s' : State} {a : Act} (hs : step s a = some s') {j : Nat}
    (hgrants : Grants s s' j) :
    (s.qa.allocated + s.qa.queue.length < s.qa.limit) ∨ s.qa.queue.head? = some j := by
  cases step_sound hs with
  | fastPath h => exact .inl h
  | rejected err _ _ => exact absurd hgrants (not_grants_append rfl rfl)
  | queued _ _ => exact absurd hgrants (not_grants_append rfl rfl)
  | wake i r hi => exact absurd hgrants (not_grants_set hi rfl rfl)
  | ctxDone i err closed r hi => exact absurd hgrants (not_grants_set hi rfl rfl)
  | lastMoment i err r hi => exact absurd hgrants (not_grants_set hi rfl rfl)
  | cancel i err x r hi => exact absurd hgrants (not_grants_set hi rfl rfl)
  | handOver i c ch rest hi _ hq =>
    by_cases hch : ch = j
    · exact .inr (by rw [hq, ← hch]; rfl)
    · obtain ⟨⟨e', hj, hg⟩, hn⟩ := hgrants
      simp only [List.getElem?_modify, hch, if_false, id_map'] at hj
      have hno : ¬ Grants s { s with calls := s.calls.set i ⟨c, true⟩ } j :=
        not_grants_set hi rfl rfl
      exact absurd ⟨⟨e', hj, hg⟩, hn⟩ hno
  | underrun i c hi _ _ _ => exact absurd hgrants (not_grants_set hi rfl rfl)
  | free i c hi _ _ _ => exact absurd hgrants (not_grants_set hi rfl rfl)
  | external _ => exact absurd hgrants (not_grants_same rfl)

/-- Slots are granted in arrival order: when a step grants call `j` its slot, each
call that was queued before `j` took the lock has been granted one or has left
the queue by cancellation. -/
theorem granted_in_arrival_order {limit qLimit : Int} {s s' : State} {a : Act}
    (h : (machine limit qLimit).Reach NoExternal s) (hs : step s a = some s')
    {j : Nat} {e' : Entry} (hj : s'.calls[j]? = some e')
    (hg : e'.call.granted = true) (hn : ∀ e, s.calls[j]? = some e → e.call.granted = false)
    {i : Nat} {e : Entry} (hij : i < j) (hi : s.calls[i]? = some e)
    (he : e.call.enqueued = true) :
    i ∉ s.qa.queue ∧ (e.call.granted = true ∨ ∃ err, e.call = .failed err) := by
  have hinv := reach_inv h
  have hnot : i ∉ s.qa.queue := by
    intro hmem
    rcases granted_by_step hs ⟨⟨e', hj, hg⟩, hn⟩ with hlt | hhead
    · -- The fast path needs a free slot, and nobody waits while one is free.
      have := hinv.full (List.ne_nil_of_mem hmem)
      have := hinv.limit_eq
      omega
    · -- The queue is in arrival order, so its head came no later than `i`.
      cases hq : s.qa.queue with
      | nil => simp [hq] at hhead
      | cons ch rest =>
        have hsorted := hinv.sorted
        rw [hq, List.head?_cons, Option.some.injEq] at hhead
        rw [hq, List.pairwise_cons] at hsorted
        rw [hq, List.mem_cons] at hmem
        rcases hmem with hmem | hmem
        · omega
        · have := hsorted.1 i hmem
          omega
  refine ⟨hnot, ?_⟩
  rw [hinv.queue i] at hnot
  have hw : e.call.waits = false := by
    by_contra hw
    exact hnot ⟨e, hi, by simpa using hw⟩
  cases hc : e.call with
  | failed err => exact .inr ⟨err, rfl⟩
  | _ => rw [hc] at hw he; simp_all [Call.waits, Call.enqueued, Call.granted]

/-- Calls 1 and 2 wait; the slot of call 0 went to call 1, and that of call 1 is
about to go to call 2. -/
def thirdInLine : State :=
  { qa := { limit := 1, allocated := 1, queue := [2], qLimit := 2 },
    calls := [⟨.fastPath, true⟩, ⟨.select true, false⟩, ⟨.select false, false⟩] }

theorem granted_in_arrival_order_thirdInLine :
    1 ∉ thirdInLine.qa.queue ∧
      ((Call.select true).granted = true ∨ ∃ err, Call.select true = .failed err) :=
  have hreach : (machine 1 2).Reach NoExternal thirdInLine :=
    Machine.leads_of_run [.reserve, .reserve, .reserve, .release 0]
      ⟨trivial, trivial, trivial, trivial, trivial⟩ rfl
  have hgranted : ∃ s' : State, step thirdInLine (.release 1) = some s' ∧
      s'.calls[2]? = some ⟨.select true, false⟩ := ⟨_, rfl, rfl⟩
  let ⟨_, hs, hj⟩ := hgranted
  granted_in_arrival_order hreach hs hj rfl (fun _ he => Option.some.inj he ▸ rfl)
    (by decide : 1 < 2) rfl rfl

end Selebrow.Quota
