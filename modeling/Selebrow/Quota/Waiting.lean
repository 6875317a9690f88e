import Mathlib.Data.List.Basic
import Selebrow.Quota.Accounting
import Selebrow.Transition.Progress

/-!
# How long a `Reserve` waits

The place in the queue is a bound: no step lets anybody in before a waiting call, and each
`Release` while it waits takes one call off before it or is its own turn.  As somebody waits
only when no slot is free, there is always a slot whose `Release` is still to come.
-/

namespace Selebrow.Quota

open Transition

/-- The call has a slot, or has left without one. -/
def Settled (i : Nat) (s : State) : Prop :=
  ∃ e, s.calls[i]? = some e ∧ (e.call.granted = true ∨ ∃ err, e.call = .failed err)

def Act.isRelease : Act → Bool
  | .release _ => true
  | _ => false

/-- A queued call waits until it is settled. -/
theorem waits_of_not_settled {i : Nat} {s : State} {e : Entry} (hi : s.calls[i]? = some e)
    (he : e.call.enqueued = true) (h : ¬ Settled i s) : WaitsAt s.calls i := by
  refine ⟨e, hi, ?_⟩
  rw [Settled] at h
  cases hc : e.call with
  | fastPath =>
    rw [hc] at he
    contradiction
  | rejected err =>
    rw [hc] at he
    contradiction
  | select closed =>
    cases closed with
    | false => rfl
    | true => exact absurd ⟨e, hi, .inl (by rw [hc]; rfl)⟩ h
  | ctxDone err closed =>
    cases closed with
    | false => rfl
    | true => exact absurd ⟨e, hi, .inl (by rw [hc]; rfl)⟩ h
  | served => exact absurd ⟨e, hi, .inl (by rw [hc]; rfl)⟩ h
  | failed err => exact absurd ⟨e, hi, .inr ⟨err, hc⟩⟩ h

theorem waits_enqueued {c : Call} (h : c.waits = true) : c.enqueued = true := by
  cases c with
  | fastPath => contradiction
  | rejected err => contradiction
  | _ => rfl

/-- A queued call stays one. -/
theorem step_enqueued {s s' : State} {a : Act} (h : step s a = some s') {j : Nat} {e : Entry}
    (hj : s.calls[j]? = some e) (he : e.call.enqueued = true) :
    ∃ e', s'.calls[j]? = some e' ∧ e'.call.enqueued = true := by
  have happend (d : Entry) : ∃ e', (s.calls ++ [d])[j]? = some e' ∧ e'.call.enqueued = true :=
    ⟨e, getElem?_append_some hj, he⟩
  have hset {i : Nat} {d : Entry} (hi : s.calls[i]? = some d) (d' : Entry)
      (hd : d.call.enqueued = true → d'.call.enqueued = true) :
      ∃ e', (s.calls.set i d')[j]? = some e' ∧ e'.call.enqueued = true := by
    obtain ⟨e', he', hev⟩ := exists_getElem?_set
      (R := fun d d' : Entry => d.call.enqueued = true → d'.call.enqueued = true)
      (fun _ => id) hi hd hj
    exact ⟨e', he', hev he⟩
  cases step_sound h with
  | fastPath _ => exact happend _
  | rejected err _ _ => exact happend _
  | queued _ _ => exact happend _
  | wake i r hi => exact hset hi _ fun _ => rfl
  | ctxDone i err closed r hi => exact hset hi _ fun _ => rfl
  | lastMoment i err r hi => exact hset hi _ fun _ => rfl
  | cancel i err x r hi => exact hset hi _ fun _ => rfl
  | handOver i c ch rest hi _ _ =>
    obtain ⟨e', he', henq⟩ := hset hi ⟨c, true⟩ id
    rw [List.getElem?_modify, he']
    by_cases hch : ch = j
    · refine ⟨{ e' with call := e'.call.close }, by simp [hch], ?_⟩
      cases hc : e'.call <;> simp_all [Call.close, Call.enqueued]
    · exact ⟨e', by simp [hch], henq⟩
  | underrun i c hi _ _ _ => exact hset hi _ id
  | free i c hi _ _ _ => exact hset hi _ id
  | external _ => exact ⟨e, hj, he⟩

/-- A call that waits keeps waiting until it is settled. -/
theorem waits_step {i : Nat} {s s' : State} {a : Act} (hw : WaitsAt s.calls i)
    (hs : step s a = some s') (h : ¬ Settled i s') : WaitsAt s'.calls i := by
  obtain ⟨e, hi, hwaits⟩ := hw
  obtain ⟨e', hi', henq'⟩ := step_enqueued hs hi (waits_enqueued hwaits)
  exact waits_of_not_settled hi' henq' h

/-- Erasing another call can only bring a waiting call forward. -/
theorem idxOf_erase_le {l : List Nat} {i j : Nat} (hij : i ≠ j) (h : i ∈ l) :
    (l.erase j).idxOf i ≤ l.idxOf i := by
  induction l with
  | nil => contradiction
  | cons k l ih =>
    by_cases hki : k = i
    · rw [List.erase_cons_tail (by simpa [hki] using hij), hki, List.idxOf_cons_self]
      exact Nat.zero_le _
    · have hmem : i ∈ l := (List.mem_cons.mp h).resolve_left (Ne.symm hki)
      by_cases hkj : k = j
      · rw [hkj, List.erase_cons_head, List.idxOf_cons_ne _ (Ne.symm hij)]
        exact Nat.le_succ _
      · rw [List.erase_cons_tail (by simpa using hkj), List.idxOf_cons_ne _ hki,
          List.idxOf_cons_ne _ hki]
        exact Nat.succ_le_succ (ih hmem)

section

variable {limit qLimit : Int} {s s' : State} {i : Nat} {a : Act}

/-- One step: while the call waits, what stands before it and the releases add up to no more
than what stood before it. -/
theorem place_step (hinv : Inv limit qLimit s) (ha : NoExternal s a) (hs : step s a = some s')
    (hw : WaitsAt s.calls i) (hw' : WaitsAt s'.calls i) :
    s'.qa.queue.idxOf i + a.isRelease.toNat ≤ s.qa.queue.idxOf i := by
  have hmem : i ∈ s.qa.queue := (hinv.queue i).mpr hw
  have hmem' : i ∈ s'.qa.queue := ((step_inv hinv ha hs).queue i).mpr hw'
  cases step_sound hs with
  | queued _ _ =>
    show (s.qa.queue ++ [s.calls.length]).idxOf i + 0 ≤ _
    rw [List.idxOf_append_of_mem hmem]
    exact Nat.le_refl _
  | cancel j err e r hj =>
    have hij : i ≠ j := by
      rintro rfl
      obtain ⟨e', he', hwaits⟩ := hw'
      rw [getElem?_set_eq hj, Option.some.injEq] at he'
      rw [← he'] at hwaits
      contradiction
    exact idxOf_erase_le hij hmem
  | handOver j c ch rest hj hc hq =>
    have hne : ch ≠ i := by
      rintro rfl
      have hsorted := hinv.sorted
      rw [hq, List.pairwise_cons] at hsorted
      exact Nat.lt_irrefl ch (hsorted.1 ch hmem')
    have hplace : (ch :: rest).idxOf i = rest.idxOf i + 1 := List.idxOf_cons_ne _ hne
    show rest.idxOf i + 1 ≤ _
    rw [hq]
    omega
  | underrun j c hj hc hq ha =>
    rw [hq] at hmem
    contradiction
  | free j c hj hc hq ha =>
    rw [hq] at hmem
    contradiction
  | _ => exact Nat.le_refl _

/-- While somebody waits, a slot is held, and its `Release` can be made. -/
theorem release_enabled (hlimit : 1 ≤ limit) (hinv : Inv limit qLimit s)
    (hw : WaitsAt s.calls i) : ∃ a : Act, a.isRelease = true ∧ (step s a).isSome = true := by
  have hne : s.qa.queue ≠ [] := List.ne_nil_of_mem ((hinv.queue i).mpr hw)
  have hpos : 0 < s.calls.countP Entry.holds := by
    have := hinv.full hne
    have := hinv.allocated
    omega
  obtain ⟨e, he, hholds⟩ := List.countP_pos_iff.mp hpos
  obtain ⟨j, hj⟩ := List.mem_iff_getElem?.mp he
  refine ⟨.release j, rfl, ?_⟩
  rw [step, stepRelease, hj]
  show (if e.holds = true then _ else none).isSome = true
  rw [if_pos hholds]
  rfl

end

/-- What holds of a call that is not settled yet. -/
structure Waiting (limit qLimit : Int) (i : Nat) (s : State) : Prop where
  inv : Inv limit qLimit s
  waits : Settled i s ∨ WaitsAt s.calls i

/-- Waiting is bounded: a call with `k` others before it sees at most `k` calls of `Release`
before it has a slot or has left, however calls arrive, leave and go on in between, and until
then there is a slot whose `Release` has not been made.  Its place is within the queue
limit. -/
theorem waiting_bounded {limit qLimit : Int} (hlimit : 1 ≤ limit) {s : State}
    (h : (machine limit qLimit).Reach NoExternal s) {i : Nat} (hi : i ∈ s.qa.queue) :
    (machine limit qLimit).Inevitable NoExternal Act.isRelease (Settled i)
        (s.qa.queue.idxOf i) s ∧
      ((s.qa.queue.idxOf i : Nat) : Int) < qLimit := by
  have hinv := reach_inv h
  have hw := (hinv.queue i).mp hi
  have hstart : Waiting limit qLimit i s := ⟨hinv, .inr hw⟩
  constructor
  · apply Machine.Inevitable.of_measure (fun t => t.qa.queue.idxOf i) ?_ ?_ ?_ hstart (Nat.le_refl _)
    · intro t a t' ht ha hs hx hx'
      exact ⟨step_inv ht.inv ha hs, .inr (waits_step (ht.waits.resolve_left hx) hs hx')⟩
    · intro t a t' ht ha hs hx hx'
      have hwt := ht.waits.resolve_left hx
      exact place_step ht.inv ha hs hwt (waits_step hwt hs hx')
    · intro t ht hx
      exact release_enabled hlimit ht.inv (ht.waits.resolve_left hx)
  · have hlt := List.idxOf_lt_length_of_mem hi
    have hshort := hinv.short
    omega

/-- Call 2 is second in the queue. -/
def secondInLine : State :=
  { qa := { limit := 1, allocated := 1, queue := [1, 2], qLimit := 2 },
    calls := [⟨.fastPath, false⟩, ⟨.select false, false⟩, ⟨.select false, false⟩] }

theorem waiting_bounded_secondInLine :
    (machine 1 2).Inevitable NoExternal Act.isRelease (Settled 2) 1 secondInLine := by
  have hreach : (machine 1 2).Reach NoExternal secondInLine :=
    Machine.leads_of_run [.reserve, .reserve, .reserve] ⟨trivial, trivial, trivial, trivial⟩ rfl
  exact (waiting_bounded (by decide) hreach (by decide)).1

end Selebrow.Quota
