import Selebrow.Kubernetes.Watcher
import Selebrow.Transition.Entries

/-!
# The channels of the pod watcher

What a step of the watcher can do, and what holds of the channels in every run: a
registered channel is open and registered for one pod, and every call waits on a
channel of its own.  So no send and no close ever meets a closed channel.
-/

namespace Selebrow.Kubernetes

open Transition

/-- Every container of the pod has a status, and every status is ready. -/
def Pod.allReady (pod : Pod) : Bool :=
  pod.statuses.length == pod.containers && pod.statuses.all id

/-- A pod of one container. -/
def samplePod (ready : Bool) : Pod :=
  { name := bytes "p", containers := 1, statuses := [ready], podIP := bytes "10.0.0.1" }

/-- The event that makes the loop notify: the pod is ready, and the loop has not
recorded that. -/
def Notifies (s : State) (e : Event) (pod : Pod) : Prop :=
  e.type = .modified ∧ s.podsReady pod.name = false ∧ pod.allReady = true

inductive Step (s : State) : Act → State → Prop
  | waitPodReady (podName : GoString) :
      Step s (.waitPodReady podName) { s with calls := s.calls ++ [.addWaiter podName] }
  | addWaiter (i : Nat) (podName : GoString) (hc : s.calls[i]? = some (.addWaiter podName))
      (hl : s.rLocked = false) :
      Step s (.addWaiter i) ((s.addWaiter podName).setCall i (.select podName s.channels.length))
  | receive (i : Nat) (podName : GoString) (ch : Nat) (ip : GoString) (closed : Bool)
      (hc : s.calls[i]? = some (.select podName ch))
      (hch : s.channels[ch]? = some ⟨some ip, closed⟩) :
      Step s (.receive i)
        { s.setCall i (.removeWaiter podName ip true none) with
          channels := s.channels.set ch ⟨none, closed⟩ }
  | receiveClosed (i : Nat) (podName : GoString) (ch : Nat)
      (hc : s.calls[i]? = some (.select podName ch)) :
      Step s (.receive i) (s.setCall i (.removeWaiter podName [] false none))
  | ctxDone (i : Nat) (err : CtxErr) (podName : GoString) (ch : Nat)
      (hc : s.calls[i]? = some (.select podName ch)) :
      Step s (.ctxDone i err) (s.setCall i (.removeWaiter podName [] false (some err)))
  | removeWaiter (i : Nat) (podName ip : GoString) (ok : Bool) (err : Option CtxErr)
      (hc : s.calls[i]? = some (.removeWaiter podName ip ok err)) (hl : s.rLocked = false) :
      Step s (.removeWaiter i)
        ((s.removeWaiter podName).setCall i (.returned (waitResult ip ok err)))
  | ignored (e : Event) (hl : s.loop = .idle)
      (hq : ∀ pod, e.object = some pod → e.type ≠ .deleted ∧ ¬ Notifies s e pod) :
      Step s (.event e) { s with processed := e :: s.processed }
  | added (pod : Pod) (hl : s.loop = .idle) :
      Step s (.event ⟨.added, some pod⟩)
        { s with
          processed := ⟨.added, some pod⟩ :: s.processed,
          podsReady := Function.update s.podsReady pod.name false }
  | ready (pod : Pod) (hl : s.loop = .idle) (hn : Notifies s ⟨.modified, some pod⟩ pod) :
      Step s (.event ⟨.modified, some pod⟩)
        { s with
          processed := ⟨.modified, some pod⟩ :: s.processed,
          podsReady := Function.update s.podsReady pod.name true,
          loop := .notifyWaiter pod.name pod.podIP }
  | deleted (pod : Pod) (hl : s.loop = .idle) :
      Step s (.event ⟨.deleted, some pod⟩)
        { s with
          processed := ⟨.deleted, some pod⟩ :: s.processed,
          podsReady := Function.update s.podsReady pod.name false,
          loop := .removeWaiter pod.name }
  | closed (hl : s.loop = .idle) : Step s .closed { s with loop := .done }
  | notify (podName ip : GoString) (ch : Nat) (hl : s.loop = .notifyWaiter podName ip)
      (hw : s.waiters podName = some ch) : Step s .notifyWaiter { s with loop := .sending ch ip }
  | nobody (podName ip : GoString) (hl : s.loop = .notifyWaiter podName ip)
      (hw : s.waiters podName = none) : Step s .notifyWaiter { s with loop := .idle }
  | send (ch : Nat) (ip : GoString) (hl : s.loop = .sending ch ip)
      (hch : s.channels[ch]? = some ⟨none, false⟩) :
      Step s .send
        { s with channels := s.channels.set ch ⟨some ip, false⟩, loop := .idle }
  | sendClosed (ch : Nat) (ip : GoString) (c : Chan) (hl : s.loop = .sending ch ip)
      (hch : s.channels[ch]? = some c) (hclosed : c.closed = true) :
      Step s .send { s with panicked := true }
  | deletePod (podName : GoString) (hl : s.loop = .removeWaiter podName) :
      Step s .deletePod { s.removeWaiter podName with loop := .idle }

theorem readyCount_eq_length (l : List Bool) : readyCount l = l.length ↔ l.all id = true := by
  induction l with
  | nil => simp [readyCount]
  | cons r rest ih =>
    cases r with
    | false => simp [readyCount]
    | true =>
      rw [readyCount, List.length_cons, List.all_cons, Nat.add_right_cancel_iff, ih]
      simp

/-- The loop's test for readiness is `allReady`. -/
theorem allReady_iff (pod : Pod) :
    pod.allReady = true ↔
      (pod.statuses.length != pod.containers) = false ∧ readyCount pod.statuses = pod.containers := by
  rw [Pod.allReady, Bool.and_eq_true, beq_iff_eq, ← readyCount_eq_length]
  simp only [bne_eq_false_iff_eq]
  constructor
  · rintro ⟨hlen, hcount⟩
    exact ⟨hlen, hcount.trans hlen⟩
  · rintro ⟨hlen, hcount⟩
    exact ⟨hlen, hcount.trans hlen.symm⟩

variable {s s' : State}

theorem stepReceive_sound {i : Nat} (h : stepReceive s i = some s') : Step s (.receive i) s' := by
  unfold stepReceive at h
  split at h
  · rename_i podName ch hc
    split at h
    · rename_i ip closed hch
      exact Option.some.inj h ▸ .receive i podName ch ip closed hc hch
    · exact Option.some.inj h ▸ .receiveClosed i podName ch hc
    · simp at h
  · simp at h

theorem stepEvent_sound {e : Event} (h : stepEvent s e = some s') : Step s (.event e) s' := by
  obtain ⟨type, object⟩ := e
  unfold stepEvent at h
  split at h
  · rename_i hl
    cases object with
    | none => exact Option.some.inj h ▸ .ignored _ hl (by simp)
    | some pod =>
      cases type with
      | added => exact Option.some.inj h ▸ .added pod hl
      | modified =>
        simp only at h
        split at h
        · rename_i hb
          refine Option.some.inj h ▸ .ignored _ hl ?_
          rintro _ ⟨⟩
          refine ⟨by simp, fun hn => ?_⟩
          rw [Notifies, allReady_iff] at hn
          rw [hn.2.1, hn.2.2.1] at hb
          simp at hb
        · rename_i hb
          rw [Bool.or_eq_true, not_or, Bool.not_eq_true, Bool.not_eq_true] at hb
          split at h
          · rename_i hcount
            exact Option.some.inj h ▸
              .ready pod hl ⟨rfl, hb.1, (allReady_iff pod).mpr ⟨hb.2, hcount⟩⟩
          · rename_i hcount
            refine Option.some.inj h ▸ .ignored _ hl ?_
            rintro _ ⟨⟩
            refine ⟨by simp, fun hn => hcount ?_⟩
            exact ((allReady_iff pod).mp hn.2.2).2
      | deleted => exact Option.some.inj h ▸ .deleted pod hl
      | other => exact Option.some.inj h ▸ .ignored _ hl (by simp [Notifies])
  · simp at h

theorem stepNotifyWaiter_sound (h : stepNotifyWaiter s = some s') : Step s .notifyWaiter s' := by
  unfold stepNotifyWaiter at h
  split at h
  · rename_i podName ip hl
    split at h
    · rename_i ch hw
      exact Option.some.inj h ▸ .notify podName ip ch hl hw
    · rename_i hw
      exact Option.some.inj h ▸ .nobody podName ip hl hw
  · simp at h

theorem stepSend_sound (h : stepSend s = some s') : Step s .send s' := by
  unfold stepSend at h
  split at h
  · rename_i ch ip hl
    split at h
    · rename_i c hch
      split at h
      · rename_i hclosed
        exact Option.some.inj h ▸ .sendClosed ch ip c hl hch hclosed
      · rename_i hopen
        split at h
        · rename_i hbuf
          obtain ⟨buf, closed⟩ := c
          simp only [Bool.not_eq_true] at hopen hbuf
          subst hopen hbuf
          exact Option.some.inj h ▸ .send ch ip hl hch
        · simp at h
    · simp at h
  · simp at h

theorem step_sound {a : Act} (h : step s a = some s') : s.panicked = false ∧ Step s a s' := by
  unfold step at h
  split at h
  · simp at h
  rename_i hp
  refine ⟨by simpa using hp, ?_⟩
  cases a with
  | waitPodReady podName => exact Option.some.inj h ▸ .waitPodReady podName
  | addWaiter i =>
    simp only [stepAddWaiter] at h
    split at h
    · rename_i podName hc
      split at h
      · simp at h
      · rename_i hl
        exact Option.some.inj h ▸ .addWaiter i podName hc (by simpa using hl)
    · simp at h
  | receive i => exact stepReceive_sound h
  | ctxDone i err =>
    simp only [stepCtxDone] at h
    split at h
    · rename_i podName ch hc
      exact Option.some.inj h ▸ .ctxDone i err podName ch hc
    · simp at h
  | removeWaiter i =>
    simp only [stepRemoveWaiter] at h
    split at h
    · rename_i podName ip ok err hc
      split at h
      · simp at h
      · rename_i hl
        exact Option.some.inj h ▸ .removeWaiter i podName ip ok err hc (by simpa using hl)
    · simp at h
  | event e => exact stepEvent_sound h
  | closed =>
    simp only at h
    split at h
    · rename_i hl
      exact Option.some.inj h ▸ .closed hl
    · simp at h
  | notifyWaiter => exact stepNotifyWaiter_sound h
  | send => exact stepSend_sound h
  | deletePod =>
    simp only [stepDeletePod] at h
    split at h
    · rename_i podName hl
      exact Option.some.inj h ▸ .deletePod podName hl
    · simp at h

/-! ## The invariant -/

structure Inv (s : State) : Prop where
  opened : ∀ (podName : GoString) (ch : Nat), s.waiters podName = some ch →
    ∃ buf, s.channels[ch]? = some ⟨buf, false⟩
  single : ∀ (podName podName' : GoString) (ch : Nat), s.waiters podName = some ch →
    s.waiters podName' = some ch → podName = podName'
  selects : ∀ (i : Nat) (podName : GoString) (ch : Nat),
    s.calls[i]? = some (Call.select podName ch) → ch < s.channels.length
  own : ∀ (i j : Nat) (podName podName' : GoString) (ch : Nat),
    s.calls[i]? = some (Call.select podName ch) → s.calls[j]? = some (Call.select podName' ch) → i = j
  sending : ∀ (ch : Nat) (ip : GoString), s.loop = .sending ch ip →
    ∃ podName, s.waiters podName = some ch
  alive : s.panicked = false

theorem init_inv : Inv State.init := by
  refine ⟨?_, ?_, ?_, ?_, ?_, rfl⟩ <;> intros <;> simp_all [State.init]

theorem Inv.lt (hi : Inv s) {podName : GoString} {ch : Nat} (h : s.waiters podName = some ch) :
    ch < s.channels.length := by
  obtain ⟨buf, hch⟩ := hi.opened podName ch h
  exact lt_of_getElem? hch

/-- An entry that is not in its `select` replaced another, so what is in a `select`
was there before. -/
theorem select_of_set {calls : List Call} {i j : Nat} {c : Call} {podName : GoString} {ch : Nat}
    (hc : ∀ P k, c ≠ .select P k) (h : (calls.set i c)[j]? = some (Call.select podName ch)) :
    i ≠ j ∧ calls[j]? = some (Call.select podName ch) := by
  rcases getElem?_set_some h with ⟨_, h⟩ | h
  · exact absurd h.symm (hc podName ch)
  · exact h

/-- A call that has just begun is not in its `select`. -/
theorem select_of_append {calls : List Call} {j : Nat} {P podName : GoString} {ch : Nat}
    (h : (calls ++ [Call.addWaiter P])[j]? = some (Call.select podName ch)) :
    calls[j]? = some (Call.select podName ch) := by
  rcases getElem?_concat_some h with h | ⟨_, h⟩
  · exact h
  · simp at h

theorem inv_setCall {i : Nat} {c : Call} (hi : Inv s) (hc : ∀ P k, c ≠ .select P k) :
    Inv (s.setCall i c) := by
  refine ⟨hi.opened, hi.single, fun j P ch hj => ?_, fun j k P Q ch hj hk => ?_, hi.sending,
    hi.alive⟩
  · exact hi.selects j P ch (select_of_set hc hj).2
  · exact hi.own j k P Q ch (select_of_set hc hj).2 (select_of_set hc hk).2

/-- A value goes into a channel or out of it. -/
theorem inv_setBuf {ch : Nat} {closed : Bool} {buf : Option GoString} (buf' : Option GoString)
    (hi : Inv s) (hch : s.channels[ch]? = some ⟨buf, closed⟩) :
    Inv { s with channels := s.channels.set ch ⟨buf', closed⟩ } := by
  refine ⟨fun P k hk => ?_, hi.single, fun j P k hj => ?_, hi.own, hi.sending, hi.alive⟩
  · obtain ⟨b, hb⟩ := hi.opened P k hk
    by_cases hck : ch = k
    · subst hck
      rw [hch, Option.some.injEq, Chan.mk.injEq] at hb
      refine ⟨buf', ?_⟩
      show (s.channels.set ch ⟨buf', closed⟩)[ch]? = _
      rw [getElem?_set_eq hch, hb.2]
    · refine ⟨b, ?_⟩
      show (s.channels.set ch ⟨buf', closed⟩)[k]? = _
      rw [List.getElem?_set_ne hck]
      exact hb
  · show k < (s.channels.set ch ⟨buf', closed⟩).length
    rw [List.length_set]
    exact hi.selects j P k hj

/-- `removeWaiter` does nothing, or closes an open channel and forgets it. -/
theorem removeWaiter_spec (hi : Inv s) (podName : GoString) :
    (s.waiters podName = none ∧ s.removeWaiter podName = s) ∨
    ∃ ch buf, s.waiters podName = some ch ∧ s.channels[ch]? = some ⟨buf, false⟩ ∧
      s.removeWaiter podName =
        { s with
          channels := s.channels.set ch ⟨buf, true⟩,
          waiters := Function.update s.waiters podName none } := by
  cases hw : s.waiters podName with
  | none => exact .inl ⟨rfl, by simp [State.removeWaiter, hw]⟩
  | some ch =>
    obtain ⟨buf, hch⟩ := hi.opened podName ch hw
    exact .inr ⟨ch, buf, rfl, hch, by simp [State.removeWaiter, State.closeChan, hw, hch]⟩

theorem update_none {waiters : GoString → Option Nat} {P Q : GoString} {ch : Nat}
    (h : Function.update waiters P none Q = some ch) : P ≠ Q ∧ waiters Q = some ch := by
  rw [Function.update_apply] at h
  split at h
  · simp at h
  · rename_i hne
    exact ⟨Ne.symm hne, h⟩

theorem inv_removeWaiter (hi : Inv s) (hl : s.rLocked = false) (podName : GoString) :
    Inv (s.removeWaiter podName) := by
  rcases removeWaiter_spec hi podName with ⟨_, heq⟩ | ⟨ch, buf, hw, hch, heq⟩
  · rw [heq]
    exact hi
  rw [heq]
  refine ⟨fun P k hk => ?_, fun P Q k hP hQ => ?_, fun j P k hj => ?_, hi.own, fun k ip hk => ?_,
    hi.alive⟩
  · obtain ⟨hne, hk⟩ := update_none hk
    obtain ⟨b, hb⟩ := hi.opened P k hk
    have hck : ch ≠ k := fun h => hne (hi.single podName P ch hw (h ▸ hk))
    refine ⟨b, ?_⟩
    show (s.channels.set ch ⟨buf, true⟩)[k]? = _
    rw [List.getElem?_set_ne hck]
    exact hb
  · exact hi.single P Q k (update_none hP).2 (update_none hQ).2
  · show k < (s.channels.set ch ⟨buf, true⟩).length
    rw [List.length_set]
    exact hi.selects j P k hj
  · have : s.loop = .sending k ip := hk
    simp [State.rLocked, this] at hl

/-- `removeWaiter` touches the waiters and the channels only. -/
theorem removeWaiter_frame (s : State) (podName : GoString) :
    (s.removeWaiter podName).loop = s.loop ∧ (s.removeWaiter podName).processed = s.processed := by
  unfold State.removeWaiter State.closeChan
  split
  · split
    · split <;> exact ⟨rfl, rfl⟩
    · exact ⟨rfl, rfl⟩
  · exact ⟨rfl, rfl⟩

theorem inv_addWaiter {i : Nat} {podName : GoString} (hi : Inv s) (hl : s.rLocked = false) :
    Inv ((s.addWaiter podName).setCall i (.select podName s.channels.length)) := by
  have hnew : (s.channels ++ [makeChan])[s.channels.length]? = some ⟨none, false⟩ :=
    List.getElem?_concat_length
  have hold : ∀ (P : GoString) (k : Nat),
      Function.update s.waiters podName (some s.channels.length) P = some k →
        (P = podName ∧ k = s.channels.length) ∨ (s.waiters P = some k ∧ k < s.channels.length) := by
    intro P k hk
    rw [Function.update_apply] at hk
    split at hk
    · rename_i hP
      exact .inl ⟨hP, (Option.some.inj hk).symm⟩
    · exact .inr ⟨hk, hi.lt hk⟩
  have hsel : ∀ (j : Nat) (P : GoString) (k : Nat),
      (s.calls.set i (.select podName s.channels.length))[j]? = some (Call.select P k) →
        (j = i ∧ k = s.channels.length) ∨ s.calls[j]? = some (Call.select P k) := by
    intro j P k hj
    rcases getElem?_set_some hj with ⟨hij, heq⟩ | ⟨_, hj⟩
    · exact .inl ⟨hij.symm, (Call.select.inj heq).2⟩
    · exact .inr hj
  refine ⟨fun P k hk => ?_, fun P Q k hP hQ => ?_, fun j P k hj => ?_, fun j j' P Q k hj hj' => ?_,
    fun k ip hk => ?_, hi.alive⟩
  · rcases hold P k hk with ⟨_, rfl⟩ | ⟨hk, hlt⟩
    · exact ⟨none, hnew⟩
    · obtain ⟨b, hb⟩ := hi.opened P k hk
      exact ⟨b, getElem?_append_some hb⟩
  · rcases hold P k hP with ⟨rfl, rfl⟩ | ⟨hP, hlt⟩ <;>
      rcases hold Q _ hQ with ⟨rfl, hk⟩ | ⟨hQ, hlt'⟩
    · rfl
    · omega
    · omega
    · exact hi.single P Q k hP hQ
  · show k < (s.channels ++ [makeChan]).length
    rw [List.length_append, List.length_singleton]
    rcases hsel j P k hj with ⟨_, rfl⟩ | hj
    · omega
    · have := hi.selects j P k hj
      omega
  · rcases hsel j P k hj with ⟨hji, hk⟩ | hold <;> rcases hsel j' Q k hj' with ⟨hji', hk'⟩ | hold'
    · rw [hji, hji']
    · have := hi.selects _ _ _ hold'
      omega
    · have := hi.selects _ _ _ hold
      omega
    · exact hi.own j j' P Q k hold hold'
  · have : s.loop = .sending k ip := hk
    simp [State.rLocked, this] at hl

theorem step_inv {a : Act} (hi : Inv s) (h : step s a = some s') : Inv s' := by
  cases (step_sound h).2 with
  | waitPodReady podName =>
    exact ⟨hi.opened, hi.single, fun j P k hj => hi.selects j P k (select_of_append hj),
      fun j j' P Q k hj hj' => hi.own j j' P Q k (select_of_append hj) (select_of_append hj'),
      hi.sending, hi.alive⟩
  | addWaiter i podName hc hl => exact inv_addWaiter hi hl
  | receive i podName ch ip closed hc hch =>
    exact inv_setCall (inv_setBuf none hi hch) (by simp)
  | receiveClosed i podName ch hc => exact inv_setCall hi (by simp)
  | ctxDone i err podName ch hc => exact inv_setCall hi (by simp)
  | removeWaiter i podName ip ok err hc hl =>
    exact inv_setCall (inv_removeWaiter hi hl podName) (by simp)
  | notify podName ip ch hl hw =>
    refine ⟨hi.opened, hi.single, hi.selects, hi.own, fun k ip' hk => ?_, hi.alive⟩
    rw [Loop.sending.injEq] at hk
    exact ⟨podName, hk.1 ▸ hw⟩
  | send ch ip hl hch =>
    have hb := inv_setBuf (some ip) hi hch
    exact ⟨hb.opened, hb.single, hb.selects, hb.own, by simp, hb.alive⟩
  | sendClosed ch ip c hl hch hclosed =>
    obtain ⟨podName, hw⟩ := hi.sending ch ip hl
    obtain ⟨buf, hopen⟩ := hi.opened podName ch hw
    rw [hch, Option.some.injEq] at hopen
    simp [hopen] at hclosed
  | deletePod podName hl =>
    have hr := inv_removeWaiter hi (by simp [State.rLocked, hl]) podName
    exact ⟨hr.opened, hr.single, hr.selects, hr.own, by simp, hr.alive⟩
  | added pod hl => exact ⟨hi.opened, hi.single, hi.selects, hi.own, hi.sending, hi.alive⟩
  | ignored e hl hq => exact ⟨hi.opened, hi.single, hi.selects, hi.own, hi.sending, hi.alive⟩
  | _ => exact ⟨hi.opened, hi.single, hi.selects, hi.own, by simp, hi.alive⟩

end Selebrow.Kubernetes
