import Selebrow.Kubernetes.Channels

/-!
# The send of the pod watcher

The loop sends under the read lock into a channel with room for one value.  It
relies on sending once for each registration, which `podsReady` is there to
remember and which an `Added` event makes it forget.  If an address that nobody
received is still in the registered channel then, the next send can find the
channel full, and once the call has left its `select` the loop is blocked for
good, and every section that needs the write lock with it.
-/

namespace Selebrow.Kubernetes

open Transition

/-- The channel of the send has room or its call can still receive, and the loop
gets past its send. -/
def SendReturns (s : State) : Prop :=
  ∀ (ch : Nat) (ip : GoString), s.loop = .sending ch ip →
    ((∃ closed, s.channels[ch]? = some ⟨none, closed⟩) ∨
      ∃ (i : Nat) (podName : GoString), s.calls[i]? = some (Call.select podName ch)) ∧
    ∃ t, machine.Leads (fun _ _ => True) s t ∧ t.loop = .idle

/-- No `Added` event for a pod is taken while the channel registered for it holds an
address that nobody has received. -/
def AddedAfterReceive (s : State) : Act → Prop
  | .event ⟨.added, some pod⟩ =>
    ∀ (ch : Nat) (c : Chan), s.waiters pod.name = some ch → s.channels[ch]? = some c →
      c.buf = none
  | _ => True

/-- Where a send may go, the channel is empty; where an address waits in a registered
channel, the pod is recorded as ready, or its channel is about to be closed. -/
structure SendInv (s : State) : Prop where
  full : ∀ (podName : GoString) (ch : Nat) (c : Chan), s.waiters podName = some ch →
    s.channels[ch]? = some c → c.buf ≠ none →
      s.podsReady podName = true ∨ s.loop = .removeWaiter podName
  notify : ∀ (podName ip : GoString), s.loop = .notifyWaiter podName ip →
    s.podsReady podName = true ∧
    ∀ (ch : Nat) (c : Chan), s.waiters podName = some ch → s.channels[ch]? = some c → c.buf = none
  sending : ∀ (ch : Nat) (ip : GoString), s.loop = .sending ch ip →
    (∃ podName, s.waiters podName = some ch ∧ s.podsReady podName = true) ∧
    ∀ c : Chan, s.channels[ch]? = some c → c.buf = none

theorem init_sendInv : SendInv State.init := by
  refine ⟨?_, ?_, ?_⟩ <;> intros <;> simp_all [State.init]

variable {s s' : State}

/-- A step that lets nobody register, fills no channel and leaves the loop and its
record alone. -/
theorem sendInv_of_sub (hv : SendInv s) (hr : s'.podsReady = s.podsReady)
    (hloop : s'.loop = s.loop)
    (hw : ∀ P ch, s'.waiters P = some ch → s.waiters P = some ch)
    (hsend : ∀ ch ip, s.loop = .sending ch ip → s'.waiters = s.waiters)
    (hch : ∀ (ch : Nat) (c : Chan), s'.channels[ch]? = some c →
      ∃ c' : Chan, s.channels[ch]? = some c' ∧ (c'.buf = none → c.buf = none)) :
    SendInv s' := by
  refine ⟨fun P ch c hP hc hb => ?_, fun P ip hl => ?_, fun ch ip hl => ?_⟩
  · obtain ⟨c', hc', himp⟩ := hch ch c hc
    rw [hr, hloop]
    exact hv.full P ch c' (hw P ch hP) hc' (fun h => hb (himp h))
  · rw [hloop] at hl
    obtain ⟨hready, hempty⟩ := hv.notify P ip hl
    constructor
    · rw [hr]
      exact hready
    intro ch c hP hc
    obtain ⟨c', hc', himp⟩ := hch ch c hc
    exact himp (hempty ch c' (hw P ch hP) hc')
  · rw [hloop] at hl
    obtain ⟨⟨P, hP, hready⟩, hempty⟩ := hv.sending ch ip hl
    refine ⟨⟨P, by rw [hsend ch ip hl]; exact hP, by rw [hr]; exact hready⟩, fun c hc => ?_⟩
    obtain ⟨c', hc', himp⟩ := hch ch c hc
    exact himp (hempty c' hc')

theorem sendInv_setCall (hv : SendInv s) (i : Nat) (c : Call) : SendInv (s.setCall i c) :=
  ⟨hv.full, hv.notify, hv.sending⟩

theorem sendInv_removeWaiter (hi : Inv s) (hv : SendInv s) (hl : s.rLocked = false)
    (podName : GoString) : SendInv (s.removeWaiter podName) := by
  rcases removeWaiter_spec hi podName with ⟨_, heq⟩ | ⟨k, buf, _, hk, heq⟩
  · rw [heq]
    exact hv
  rw [heq]
  refine sendInv_of_sub hv rfl rfl (fun P ch hP => (update_none hP).2) (fun ch ip h => ?_)
    fun ch c hc => ?_
  · simp [State.rLocked, h] at hl
  · rcases getElem?_set_some hc with ⟨rfl, rfl⟩ | ⟨_, hc⟩
    · exact ⟨⟨buf, false⟩, hk, id⟩
    · exact ⟨c, hc, id⟩

theorem sendInv_receive (hv : SendInv s) {ch : Nat} {closed : Bool} :
    SendInv { s with channels := s.channels.set ch ⟨none, closed⟩ } := by
  refine sendInv_of_sub hv rfl rfl (fun _ _ h => h) (fun _ _ _ => rfl) fun k c hc => ?_
  rcases getElem?_set_some hc with ⟨rfl, rfl⟩ | ⟨_, hc⟩
  · have hlt := lt_of_getElem? hc
    rw [List.length_set] at hlt
    exact ⟨s.channels[ch], List.getElem?_eq_getElem hlt, fun _ => rfl⟩
  · exact ⟨c, hc, id⟩

theorem sendInv_addWaiter (hi : Inv s) (hv : SendInv s) (hl : s.rLocked = false)
    (podName : GoString) : SendInv (s.addWaiter podName) := by
  have hget : ∀ (P : GoString) (ch : Nat) (c : Chan),
      Function.update s.waiters podName (some s.channels.length) P = some ch →
        (s.channels ++ [makeChan])[ch]? = some c →
          c.buf = none ∨ (s.waiters P = some ch ∧ s.channels[ch]? = some c) := by
    intro P ch c hP hc
    rw [Function.update_apply] at hP
    split at hP
    · obtain rfl := Option.some.inj hP
      rw [List.getElem?_concat_length, Option.some.injEq] at hc
      exact .inl (by rw [← hc]; rfl)
    · rw [List.getElem?_append_left (hi.lt hP)] at hc
      exact .inr ⟨hP, hc⟩
  refine ⟨fun P ch c hP hc hb => ?_, fun P ip hloop => ?_, fun ch ip hloop => ?_⟩
  · rcases hget P ch c hP hc with hnone | ⟨hP, hc⟩
    · exact absurd hnone hb
    · exact hv.full P ch c hP hc hb
  · obtain ⟨hready, hempty⟩ := hv.notify P ip hloop
    refine ⟨hready, fun ch c hP hc => ?_⟩
    rcases hget P ch c hP hc with hnone | ⟨hP, hc⟩
    · exact hnone
    · exact hempty ch c hP hc
  · have : s.loop = .sending ch ip := hloop
    simp [State.rLocked, this] at hl

/-- An address waits only for a pod recorded as ready, or for one that is being removed. -/
theorem ready_of_loop (hv : SendInv s) {podName : GoString} {ch : Nat} {c : Chan}
    (hl : s.loop ≠ .removeWaiter podName) (hw : s.waiters podName = some ch)
    (hc : s.channels[ch]? = some c) (hb : c.buf ≠ none) : s.podsReady podName = true := by
  rcases hv.full podName ch c hw hc hb with hready | hloop
  · exact hready
  · exact absurd hloop hl

theorem removeWaiter_waiters (hi : Inv s) (podName : GoString) :
    (s.removeWaiter podName).waiters podName = none := by
  rcases removeWaiter_spec hi podName with ⟨hw, heq⟩ | ⟨_, _, _, _, heq⟩
  · rw [heq, hw]
  · rw [heq]
    exact Function.update_self _ _ _

theorem step_sendInv {a : Act} (hi : Inv s) (hv : SendInv s) (ha : AddedAfterReceive s a)
    (h : step s a = some s') : SendInv s' := by
  cases (step_sound h).2 with
  | waitPodReady podName => exact ⟨hv.full, hv.notify, hv.sending⟩
  | addWaiter i podName _ hl => exact sendInv_setCall (sendInv_addWaiter hi hv hl podName) i _
  | receive i podName ch ip closed _ _ => exact sendInv_setCall (sendInv_receive hv) i _
  | receiveClosed i podName ch _ => exact sendInv_setCall hv i _
  | ctxDone i err podName ch _ => exact sendInv_setCall hv i _
  | removeWaiter i podName ip ok err _ hl =>
    exact sendInv_setCall (sendInv_removeWaiter hi hv hl podName) i _
  | ignored e hl _ => exact ⟨hv.full, by simp [hl], by simp [hl]⟩
  | added pod hl =>
    refine ⟨fun P ch c hP hc hb => ?_, by simp [hl], by simp [hl]⟩
    simp only at hP hc ⊢
    rw [Function.update_apply]
    split
    · rename_i hname
      rw [hname] at hP
      exact absurd (ha ch c hP hc) hb
    · exact hv.full P ch c hP hc hb
  | ready pod hl hn =>
    refine ⟨fun P ch c hP hc hb => ?_, fun P ip hloop => ?_, by simp⟩
    · simp only at hP hc ⊢
      rw [Function.update_apply]
      split
      · exact .inl rfl
      · exact .inl (ready_of_loop hv (by simp [hl]) hP hc hb)
    · simp only [Loop.notifyWaiter.injEq] at hloop
      obtain ⟨rfl, rfl⟩ := hloop
      refine ⟨Function.update_self _ _ _, fun ch c hP hc => ?_⟩
      -- The pod was not recorded as ready, so no address waits for its call.
      by_contra hb
      have hready := ready_of_loop hv (by simp [hl]) hP hc hb
      rw [hn.2.1] at hready
      contradiction
  | deleted pod hl =>
    refine ⟨fun P ch c hP hc hb => ?_, by simp, by simp⟩
    simp only at hP hc ⊢
    rw [Function.update_apply]
    split
    · rename_i hname
      exact .inr (by rw [hname])
    · exact .inl (ready_of_loop hv (by simp [hl]) hP hc hb)
  | closed hl =>
    exact ⟨fun P ch c hP hc hb => .inl (ready_of_loop hv (by simp [hl]) hP hc hb), by simp, by simp⟩
  | notify podName ip ch hl hw =>
    obtain ⟨hready, hempty⟩ := hv.notify podName ip hl
    refine ⟨fun P k c hP hc hb => ?_, by simp, fun k ip' hloop => ?_⟩
    · exact .inl (ready_of_loop hv (by simp [hl]) hP hc hb)
    rw [Loop.sending.injEq] at hloop
    obtain ⟨rfl, rfl⟩ := hloop
    exact ⟨⟨podName, hw, hready⟩, fun c hc => hempty ch c hw hc⟩
  | nobody podName ip hl hw =>
    refine ⟨fun P k c hP hc hb => ?_, by simp, by simp⟩
    exact .inl (ready_of_loop hv (by simp [hl]) hP hc hb)
  | send ch ip hl hch =>
    obtain ⟨⟨P₀, hP₀, hready⟩, _⟩ := hv.sending ch ip hl
    refine ⟨fun P k c hP hc hb => ?_, by simp, by simp⟩
    rcases getElem?_set_some hc with ⟨rfl, _⟩ | ⟨_, hc⟩
    · refine .inl ?_
      rw [hi.single P P₀ ch hP hP₀]
      exact hready
    · exact .inl (ready_of_loop hv (by simp [hl]) hP hc hb)
  | sendClosed ch ip c _ _ _ => exact ⟨hv.full, hv.notify, hv.sending⟩
  | deletePod podName hl =>
    have hr := sendInv_removeWaiter hi hv (by simp [State.rLocked, hl]) podName
    refine ⟨fun P ch c hP hc hb => ?_, by simp, by simp⟩
    refine .inl (ready_of_loop hr (fun hloop => ?_) hP hc hb)
    -- The channel of the deleted pod is not registered any more.
    rw [(removeWaiter_frame s podName).1, hl, Loop.removeWaiter.injEq] at hloop
    have hgone := removeWaiter_waiters hi podName
    subst hloop
    rw [show (s.removeWaiter podName).waiters podName = some ch from hP] at hgone
    contradiction

/-- The loop never blocks in its send, and the read lock is released, in the runs in
which no `Added` event comes before the last address was received. -/
theorem send_returns (h : machine.Reach AddedAfterReceive s) : SendReturns s := by
  have hv : Inv s ∧ SendInv s :=
    h.invariant (P := fun s => Inv s ∧ SendInv s) ⟨init_inv, init_sendInv⟩
      (fun _ _ _ hv ha hs => ⟨step_inv hv.1 hs, step_sendInv hv.1 hv.2 ha hs⟩)
  intro ch ip hl
  obtain ⟨⟨podName, hw, _⟩, hempty⟩ := hv.2.sending ch ip hl
  obtain ⟨buf, hch⟩ := hv.1.opened podName ch hw
  obtain rfl : buf = none := hempty _ hch
  refine ⟨.inl ⟨false, hch⟩,
    { s with channels := s.channels.set ch ⟨some ip, false⟩, loop := .idle }, ?_, rfl⟩
  refine .tail .refl trivial (a := .send) ?_
  simp [machine, step, stepSend, hv.1.alive, hl, hch]

/-! ## The deadlock -/

/-- The loop is at its send, the channel is full, and nobody receives from it. -/
structure Stuck (s : State) (ch : Nat) (ip : GoString) : Prop where
  loop : s.loop = .sending ch ip
  full : ∃ v, s.channels[ch]? = some ⟨some v, false⟩
  gone : ∀ (i : Nat) (podName : GoString), s.calls[i]? ≠ some (Call.select podName ch)

theorem Stuck.rLocked {ch : Nat} {ip : GoString} (h : Stuck s ch ip) : s.rLocked = true := by
  simp [State.rLocked, h.loop]

theorem stuck_setCall {ch i : Nat} {ip : GoString} {c : Call} (h : Stuck s ch ip)
    (hc : ∀ P k, c ≠ .select P k) : Stuck (s.setCall i c) ch ip :=
  ⟨h.loop, h.full, fun j P hj => h.gone j P (select_of_set hc hj).2⟩

theorem step_stuck {a : Act} {ch : Nat} {ip : GoString} (h : Stuck s ch ip)
    (hs : step s a = some s') : Stuck s' ch ip := by
  have hloop := h.loop
  obtain ⟨v, hfull⟩ := h.full
  cases (step_sound hs).2 with
  | waitPodReady podName =>
    exact ⟨hloop, ⟨v, hfull⟩, fun j P hj => h.gone j P (select_of_append hj)⟩
  | addWaiter i podName _ hl => simp [h.rLocked] at hl
  | receive i podName k ip' closed hc hk =>
    -- The receiver has another channel.
    have hne : k ≠ ch := fun hkc => h.gone i podName (hkc ▸ hc)
    refine stuck_setCall (s := { s with channels := s.channels.set k ⟨none, closed⟩ })
      ⟨hloop, ⟨v, ?_⟩, h.gone⟩ (by simp)
    simp only
    rw [List.getElem?_set_ne hne]
    exact hfull
  | receiveClosed i podName k _ => exact stuck_setCall h (by simp)
  | ctxDone i err podName k _ => exact stuck_setCall h (by simp)
  | removeWaiter i podName ip' ok err _ hl => simp [h.rLocked] at hl
  | send k ip' hl hk =>
    rw [hloop, Loop.sending.injEq] at hl
    rw [← hl.1, hfull] at hk
    simp at hk
  | sendClosed k ip' c hl hk hclosed =>
    rw [hloop, Loop.sending.injEq] at hl
    rw [← hl.1, hfull, Option.some.injEq] at hk
    simp [← hk] at hclosed
  | ignored e hl _ => simp [hloop] at hl
  | added pod hl => simp [hloop] at hl
  | ready pod hl _ => simp [hloop] at hl
  | deleted pod hl => simp [hloop] at hl
  | closed hl => simp [hloop] at hl
  | notify podName ip' k hl _ => simp [hloop] at hl
  | nobody podName ip' hl _ => simp [hloop] at hl
  | deletePod podName hl => simp [hloop] at hl

/-- Once stuck, the loop is stuck for good. -/
theorem leads_stuck {t : State} {ch : Nat} {ip : GoString}
    (h : Stuck s ch ip) (ht : machine.Leads (fun _ _ => True) s t) : Stuck t ch ip :=
  ht.invariant (P := fun s => Stuck s ch ip) (fun _ _ _ h _ hs => step_stuck h hs) h

theorem not_sendReturns_of_stuck {ch : Nat} {ip : GoString} (h : Stuck s ch ip) :
    ¬ SendReturns s := by
  intro hret
  obtain ⟨_, t, ht, hidle⟩ := hret ch ip h.loop
  have := (leads_stuck h ht).loop
  simp [hidle] at this

/-- The address is sent and received, and the pod is announced again. -/
def announcedAgain : List Act :=
  [.waitPodReady (bytes "p"), .addWaiter 0, .event ⟨.added, some (samplePod false)⟩,
    .event ⟨.modified, some (samplePod true)⟩, .notifyWaiter, .send, .receive 0,
    .event ⟨.added, some (samplePod true)⟩, .event ⟨.modified, some (samplePod true)⟩, .notifyWaiter]

theorem send_returns_announcedAgain :
    ∃ s, machine.run .init announcedAgain = some s ∧
      s.loop = .sending 0 (bytes "10.0.0.1") ∧ SendReturns s := by
  refine ⟨_, rfl, rfl, send_returns (Machine.leads_of_run announcedAgain ?_ rfl)⟩
  refine ⟨trivial, trivial, fun ch c hw hc => ?_, trivial, trivial, trivial, trivial,
    fun ch c hw hc => ?_, trivial, trivial, trivial⟩
  · obtain rfl := Option.some.inj (show some 0 = some ch from hw)
    rw [← Option.some.inj hc]
    rfl
  · obtain rfl := Option.some.inj (show some 0 = some ch from hw)
    rw [← Option.some.inj hc]

/-- The call leaves its `select` on `ctx.Done()` with the address in its channel; the
watch starts again and the pod is modified before the call is removed. -/
def announcedBeforeReceive : List Act :=
  [.waitPodReady (bytes "p"), .addWaiter 0, .event ⟨.added, some (samplePod false)⟩,
    .event ⟨.modified, some (samplePod true)⟩, .notifyWaiter, .send, .ctxDone 0 .canceled,
    .event ⟨.added, some (samplePod true)⟩, .event ⟨.modified, some (samplePod true)⟩, .notifyWaiter]

theorem send_blocks_forever :
    (∃ s, machine.run .init announcedBeforeReceive = some s ∧
      ∀ t, machine.Leads (fun _ _ => True) s t →
        t.loop = .sending 0 (bytes "10.0.0.1") ∧ stepRemoveWaiter t 0 = none) ∧
    ¬ ∀ s, machine.Reachable s → SendReturns s := by
  have hrun : ∃ s, machine.run .init announcedBeforeReceive = some s ∧
      s.loop = .sending 0 (bytes "10.0.0.1") ∧
      s.channels = [⟨some (bytes "10.0.0.1"), false⟩] ∧
      s.calls = [.removeWaiter (bytes "p") [] false (some .canceled)] := ⟨_, rfl, rfl, rfl, rfl⟩
  obtain ⟨s, hs, hloop, hchannels, hcalls⟩ := hrun
  have hst : Stuck s 0 (bytes "10.0.0.1") := by
    refine ⟨hloop, ⟨_, by rw [hchannels]; rfl⟩, fun i P hi => ?_⟩
    rw [hcalls] at hi
    simpa using List.mem_of_getElem? hi
  refine ⟨⟨s, hs, fun t ht => ?_⟩, fun h => ?_⟩
  · have hst := leads_stuck hst ht
    refine ⟨hst.loop, ?_⟩
    unfold stepRemoveWaiter
    split
    · rw [hst.rLocked, if_pos rfl]
    · rfl
  · exact not_sendReturns_of_stuck hst
      (h s (Machine.reachable_of_run announcedBeforeReceive hs))

end Selebrow.Kubernetes
