import Selebrow.Kubernetes.Channels

/-!
# Lost wake-ups of the pod watcher

A `WaitPodReady` call waits until the loop sends it the address of its pod.  The
loop sends only when a `Modified` event first shows the pod ready, to whoever is
registered then.  A call that registers later, or whose pod the loop sees ready in
any other event, waits although the pod is ready.  The runs without these two
steps lose no wake-up.
-/

namespace Selebrow.Kubernetes

open Transition

def Event.isFor (podName : GoString) (e : Event) : Bool :=
  match e.object with
  | some pod => pod.name == podName
  | none => false

/-- The event is not a `Deleted` one and shows every container ready. -/
def Event.showsReady (e : Event) : Bool :=
  match e.object with
  | some pod => e.type != .deleted && pod.allReady
  | none => false

/-- The last event that the loop took for the pod. -/
def State.lastEvent (s : State) (podName : GoString) : Option Event :=
  s.processed.find? (Event.isFor podName)

/-- A call is in its `select`, registered for the pod, and its channel is open and
empty. -/
def Waits (s : State) (podName : GoString) (ch : Nat) : Prop :=
  (∃ i : Nat, s.calls[i]? = some (Call.select podName ch)) ∧ s.waiters podName = some ch ∧
    s.channels[ch]? = some makeChan

/-- The loop is between events, and a call waits for a pod that was ready in the
last event the loop took for it. -/
def LostWakeup (s : State) : Prop :=
  s.loop = .idle ∧ ∃ podName ch e, Waits s podName ch ∧ s.lastEvent podName = some e ∧
    e.showsReady = true

/-- No call registers for a pod whose last event showed it ready, unless the loop is
about to notify; and no event that shows a pod ready while a call waits for it is an
`Added` one or finds the pod recorded as ready. -/
def ReadySeen (s : State) : Act → Prop
  | .addWaiter i =>
    ∀ (podName : GoString) (e : Event), s.calls[i]? = some (Call.addWaiter podName) →
      s.lastEvent podName = some e → e.showsReady = true →
        ∃ ip, s.loop = .notifyWaiter podName ip
  | .event e =>
    ∀ (pod : Pod) (ch : Nat), e.object = some pod → e.showsReady = true → Waits s pod.name ch →
      e.type = .modified ∧ s.podsReady pod.name = false
  | _ => True

/-- A call that waits for a ready pod is about to be notified. -/
def WakeupInv (s : State) : Prop :=
  ∀ (podName : GoString) (ch : Nat) (e : Event), Waits s podName ch →
    s.lastEvent podName = some e → e.showsReady = true →
      (∃ ip, s.loop = .notifyWaiter podName ip) ∨ ∃ ip, s.loop = .sending ch ip

variable {s s' : State}

theorem lastEvent_cons {e : Event} {podName : GoString} {t : State}
    (ht : t.processed = e :: s.processed) :
    t.lastEvent podName = if e.isFor podName then some e else s.lastEvent podName := by
  rw [State.lastEvent, ht, List.find?_cons]
  cases e.isFor podName <;> rfl

/-- A step that takes no event, leaves the loop where it is and lets nobody start to
wait. -/
theorem wakeup_of_waits (hw : WakeupInv s) (hsub : ∀ P ch, Waits s' P ch → Waits s P ch)
    (hp : s'.processed = s.processed) (hl : s'.loop = s.loop) : WakeupInv s' := by
  intro P ch e hwait he hr
  rw [hl]
  rw [State.lastEvent, hp] at he
  exact hw P ch e (hsub P ch hwait) he hr

/-- While the loop is between events nobody waits for a ready pod. -/
theorem not_ready_of_idle (hw : WakeupInv s) (hl : s.loop = .idle) {P : GoString} {ch : Nat}
    {e : Event} (hwait : Waits s P ch) (he : s.lastEvent P = some e) : e.showsReady = false := by
  cases hr : e.showsReady with
  | false => rfl
  | true => rcases hw P ch e hwait he hr with ⟨ip, h⟩ | ⟨ip, h⟩ <;> simp [hl] at h

/-- The loop takes an event; what it does about the pod of the event is left to the
caller. -/
theorem wakeup_of_event {e : Event} (hw : WakeupInv s) (hl : s.loop = .idle)
    (hsub : ∀ P ch, Waits s' P ch → Waits s P ch) (hp : s'.processed = e :: s.processed)
    (he : ∀ (pod : Pod) (ch : Nat), e.object = some pod → e.showsReady = true →
      Waits s pod.name ch → ∃ ip, s'.loop = .notifyWaiter pod.name ip) : WakeupInv s' := by
  intro P ch e' hwait hlast hr
  have hwait := hsub P ch hwait
  rw [lastEvent_cons hp] at hlast
  split at hlast
  · rename_i hfor
    obtain rfl := Option.some.inj hlast
    cases ho : e.object with
    | none => simp [Event.isFor, ho] at hfor
    | some pod =>
      have hname : pod.name = P := by simpa [Event.isFor, ho] using hfor
      subst hname
      exact .inl (he pod ch ho hr hwait)
  · rw [not_ready_of_idle hw hl hwait hlast] at hr
    contradiction

theorem waits_setCall {i : Nat} {c : Call} (hc : ∀ P k, c ≠ .select P k) {P : GoString} {ch : Nat}
    (h : Waits (s.setCall i c) P ch) : Waits s P ch := by
  obtain ⟨⟨j, hj⟩, hw, hch⟩ := h
  exact ⟨⟨j, (select_of_set hc hj).2⟩, hw, hch⟩

theorem waits_removeWaiter (hi : Inv s) {podName P : GoString} {ch : Nat}
    (h : Waits (s.removeWaiter podName) P ch) : Waits s P ch := by
  rcases removeWaiter_spec hi podName with ⟨_, heq⟩ | ⟨k, buf, hw, _, heq⟩
  · rw [heq] at h
    exact h
  rw [heq] at h
  obtain ⟨hj, hP, hch⟩ := h
  obtain ⟨hne, hP⟩ := update_none hP
  have hkc : k ≠ ch := fun hk => hne (hi.single podName P k hw (hk ▸ hP))
  refine ⟨hj, hP, ?_⟩
  rw [← hch]
  exact (List.getElem?_set_ne hkc).symm

/-- The value that call `i` receives was in its own channel. -/
theorem waits_receive (hi : Inv s) {i k : Nat} {podName ip : GoString} {closed : Bool}
    (hc : s.calls[i]? = some (.select podName k)) {P : GoString} {ch : Nat}
    (h : Waits { s.setCall i (.removeWaiter podName ip true none) with
      channels := s.channels.set k ⟨none, closed⟩ } P ch) : Waits s P ch := by
  obtain ⟨⟨j, hj⟩, hw, hch⟩ := h
  obtain ⟨hij, hj⟩ := select_of_set (by simp) hj
  have hkc : k ≠ ch := fun hk => hij (hi.own i j podName P k hc (hk ▸ hj))
  refine ⟨⟨j, hj⟩, hw, ?_⟩
  rw [← hch]
  exact (List.getElem?_set_ne hkc).symm

theorem wakeup_addWaiter (hi : Inv s) (hw : WakeupInv s) {i : Nat} {podName : GoString}
    (hnotify : ∀ e, s.lastEvent podName = some e → e.showsReady = true →
      ∃ ip, s.loop = .notifyWaiter podName ip) :
    WakeupInv ((s.addWaiter podName).setCall i (.select podName s.channels.length)) := by
  intro P ch e ⟨⟨j, hj⟩, hP, hch⟩ he hr
  by_cases hname : P = podName
  · subst hname
    exact .inl (hnotify e he hr)
  · have hP : s.waiters P = some ch := by
      rw [← hP]
      exact (Function.update_of_ne hname _ _).symm
    have hj : s.calls[j]? = some (Call.select P ch) := by
      rcases getElem?_set_some hj with ⟨_, heq⟩ | ⟨_, hj⟩
      · exact absurd (Call.select.inj heq).1 hname
      · exact hj
    have hch : s.channels[ch]? = some makeChan := by
      rw [← hch]
      exact (List.getElem?_append_left (hi.lt hP)).symm
    exact hw P ch e ⟨⟨j, hj⟩, hP, hch⟩ he hr

theorem step_wakeupInv {a : Act} (hi : Inv s) (hw : WakeupInv s) (ha : ReadySeen s a)
    (h : step s a = some s') : WakeupInv s' := by
  cases (step_sound h).2 with
  | waitPodReady podName =>
    exact wakeup_of_waits hw
      (fun P ch ⟨⟨j, hj⟩, hP, hch⟩ => ⟨⟨j, select_of_append hj⟩, hP, hch⟩) rfl rfl
  | addWaiter i podName hc _ => exact wakeup_addWaiter hi hw (fun e => ha podName e hc)
  | receive i podName ch ip closed hc _ =>
    exact wakeup_of_waits hw (fun P k => waits_receive hi hc) rfl rfl
  | receiveClosed i podName ch _ =>
    exact wakeup_of_waits hw (fun P k => waits_setCall (by simp)) rfl rfl
  | ctxDone i err podName ch _ =>
    exact wakeup_of_waits hw (fun P k => waits_setCall (by simp)) rfl rfl
  | removeWaiter i podName ip ok err _ _ =>
    refine wakeup_of_waits hw (fun P k hk => waits_removeWaiter hi (waits_setCall (by simp) hk))
      ?_ (removeWaiter_frame s podName).1
    exact (removeWaiter_frame s podName).2
  | ignored e hl hq =>
    refine wakeup_of_event hw hl (fun _ _ h => h) rfl fun pod ch ho hr hwait => ?_
    obtain ⟨htype, hready⟩ := ha pod ch ho hr hwait
    refine absurd ⟨htype, hready, ?_⟩ (hq pod ho).2
    rw [Event.showsReady, ho, Bool.and_eq_true] at hr
    exact hr.2
  | added pod hl =>
    refine wakeup_of_event hw hl (fun _ _ h => h) rfl fun pod' ch ho hr hwait => ?_
    have := (ha pod' ch ho hr hwait).1
    simp at this
  | ready pod hl _ =>
    refine wakeup_of_event hw hl (fun _ _ h => h) rfl fun pod' ch ho _ _ => ?_
    rw [Option.some.injEq] at ho
    exact ⟨pod.podIP, by rw [ho]⟩
  | deleted pod hl =>
    refine wakeup_of_event hw hl (fun _ _ h => h) rfl fun pod' ch ho hr _ => ?_
    simp [Event.showsReady] at hr
  | closed hl =>
    intro P ch e hwait he hr
    rw [not_ready_of_idle hw hl hwait he] at hr
    contradiction
  | notify podName ip ch hl hreg =>
    intro P k e hwait he hr
    rcases hw P k e hwait he hr with ⟨ip', h⟩ | ⟨ip', h⟩
    · rw [hl, Loop.notifyWaiter.injEq] at h
      have hk : some ch = some k := by rw [← hreg, h.1, ← hwait.2.1]
      exact .inr ⟨ip, by rw [Option.some.inj hk]⟩
    · simp [hl] at h
  | nobody podName ip hl hreg =>
    intro P k e hwait he hr
    rcases hw P k e hwait he hr with ⟨ip', h⟩ | ⟨ip', h⟩
    · rw [hl, Loop.notifyWaiter.injEq] at h
      have := hwait.2.1
      rw [← h.1, show s.waiters podName = none from hreg] at this
      simp at this
    · simp [hl] at h
  | send ch ip hl hch =>
    intro P k e ⟨hj, hP, hk⟩ he hr
    rcases getElem?_set_some hk with ⟨_, heq⟩ | ⟨hck, hk⟩
    · simp [makeChan] at heq
    · rcases hw P k e ⟨hj, hP, hk⟩ he hr with ⟨ip', h⟩ | ⟨ip', h⟩
      · simp [hl] at h
      · rw [hl, Loop.sending.injEq] at h
        exact absurd h.1 hck
  | sendClosed ch ip c _ _ _ => exact wakeup_of_waits hw (fun _ _ h => h) rfl rfl
  | deletePod podName hl =>
    intro P k e hwait he hr
    have hwait : Waits (s.removeWaiter podName) P k := hwait
    have he : s.lastEvent P = some e := by
      rw [← he, State.lastEvent, State.lastEvent]
      exact congrArg _ (removeWaiter_frame s podName).2.symm
    rcases hw P k e (waits_removeWaiter hi hwait) he hr with ⟨ip', h⟩ | ⟨ip', h⟩ <;> simp [hl] at h

/-- No wake-up is lost in the runs that register in time and in which the loop
notifies about every ready event that somebody waits for. -/
theorem no_lost_wakeup (h : machine.Reach ReadySeen s) : ¬ LostWakeup s := by
  have hw : Inv s ∧ WakeupInv s := by
    refine h.invariant (P := fun s => Inv s ∧ WakeupInv s) ⟨init_inv, ?_⟩
      (fun _ _ _ hw ha hs => ⟨step_inv hw.1 hs, step_wakeupInv hw.1 hw.2 ha hs⟩)
    rintro P ch e ⟨⟨i, hi⟩, _⟩
    simp [machine, State.init] at hi
  rintro ⟨hl, P, ch, e, hwait, he, hr⟩
  rw [not_ready_of_idle hw.2 hl hwait he] at hr
  contradiction

/-- The call registers, the pod starts, and the loop sends the address. -/
def registeredInTime : List Act :=
  [.waitPodReady (bytes "p"), .addWaiter 0, .event ⟨.added, some (samplePod false)⟩,
    .event ⟨.modified, some (samplePod true)⟩, .notifyWaiter, .send]

theorem no_lost_wakeup_registeredInTime :
    ∃ s, machine.run .init registeredInTime = some s ∧ ¬ LostWakeup s := by
  refine ⟨_, rfl, no_lost_wakeup (Machine.leads_of_run registeredInTime ?_ rfl)⟩
  refine ⟨trivial, fun _ _ _ he => ?_, fun _ _ _ hr => ?_, fun pod _ ho _ _ => ?_, trivial,
    trivial, trivial⟩
  · simp [State.lastEvent, machine, State.init] at he
  · simp [Event.showsReady, Pod.allReady, samplePod] at hr
  · obtain rfl := Option.some.inj ho
    exact ⟨rfl, rfl⟩

/-- The pod is ready before the call registers. -/
def registeredLate : List Act :=
  [.waitPodReady (bytes "p"), .event ⟨.added, some (samplePod false)⟩,
    .event ⟨.modified, some (samplePod true)⟩, .notifyWaiter, .addWaiter 0]

/-- The call is registered, and the watch that starts again announces the pod as
ready. -/
def announcedReady : List Act :=
  [.waitPodReady (bytes "p"), .event ⟨.added, some (samplePod false)⟩, .addWaiter 0,
    .event ⟨.added, some (samplePod true)⟩]

theorem lost_wakeup :
    (∃ s, machine.run .init registeredLate = some s ∧ LostWakeup s) ∧
    (∃ s, machine.run .init announcedReady = some s ∧ LostWakeup s) ∧
    ¬ ∀ s, machine.Reachable s → ¬ LostWakeup s := by
  have hlate : ∃ s, machine.run .init registeredLate = some s ∧ LostWakeup s :=
    ⟨_, rfl, rfl, bytes "p", 0, ⟨.modified, some (samplePod true)⟩, ⟨⟨0, rfl⟩, rfl, rfl⟩, rfl, rfl⟩
  have hannounced : ∃ s, machine.run .init announcedReady = some s ∧ LostWakeup s :=
    ⟨_, rfl, rfl, bytes "p", 0, ⟨.added, some (samplePod true)⟩, ⟨⟨0, rfl⟩, rfl, rfl⟩, rfl, rfl⟩
  refine ⟨hlate, hannounced, fun h => ?_⟩
  obtain ⟨s, hs, hlost⟩ := hlate
  exact h s (Machine.reachable_of_run registeredLate hs) hlost

end Selebrow.Kubernetes
