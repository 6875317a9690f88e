import Selebrow.Event.Registry

/-!
# What the subscribers are given

What a step of the broker can do, and what holds of the channels in every run: each call
of `Publish` tries each channel that was registered for its type once, only a full channel
misses the event, no channel is used after it was closed, and each `ShutDown` closes the
channels that it finds once.
-/

namespace Selebrow.Event

open Transition

section

variable {π : Type} {s s' : State π}

/-! ## The steps -/

inductive Step (s : State π) : Act π → State π → Prop
  | subscribe (ts : EventTypes) (hr : s.rLocked = false) (hw : s.shutDown = none) :
      Step s (.subscribe ts)
        { s with
          subs := addSubs s.subs ts.names s.subscribers.length,
          subscribers := s.subscribers ++ [⟨.make s.bSize, ts, s.shutDowns, []⟩] }
  | publish (event : IEvent π) (hw : s.shutDown = none) :
      Step s (.publish event)
        { s with
          publishes := s.publishes ++
            [⟨event, chsOf s.subs event.eventType, false, s.registered event.eventType⟩] }
  | send (p : Nat) (event : IEvent π) (ch : Nat) (chs registered : List Nat)
      (sub : Subscriber π) (chan : Buffered (IEvent π))
      (hp : s.publishes[p]? = some ⟨event, ch :: chs, false, registered⟩)
      (hsub : s.subscribers[ch]? = some sub) (hchan : sub.chan.trySend p event = some chan) :
      Step s (.send p)
        { s.setChan ch sub chan with
          publishes := s.publishes.set p ⟨event, chs, false, registered⟩ }
  | sendClosed (p : Nat) (event : IEvent π) (ch : Nat) (chs registered : List Nat)
      (sub : Subscriber π)
      (hp : s.publishes[p]? = some ⟨event, ch :: chs, false, registered⟩)
      (hsub : s.subscribers[ch]? = some sub) (hchan : sub.chan.trySend p event = none) :
      Step s (.send p) { s with panicked := true }
  | publishReturns (p : Nat) (event : IEvent π) (registered : List Nat)
      (hp : s.publishes[p]? = some ⟨event, [], false, registered⟩) :
      Step s (.publishReturns p)
        { s with publishes := s.publishes.set p ⟨event, [], true, registered⟩ }
  | quiet (a : Act π) (c : Nat) (sub : Subscriber π) (chan : Buffered (IEvent π))
      (hsub : s.subscribers[c]? = some sub) (hq : Buffered.Quiet sub.chan chan)
      (hwhole : sub.chan.Whole → chan.Whole) : Step s a (s.setChan c sub chan)
  | shutDown (hr : s.rLocked = false) (hw : s.shutDown = none) :
      Step s .shutDown { s with shutDown := some ⟨[], none⟩ }
  | nextType (et : GoString) (closed chs : List Nat) (hd : s.shutDown = some ⟨closed, none⟩)
      (hchs : s.subs.lookup et = some chs) :
      Step s (.nextType et) { s with shutDown := some ⟨closed, some (et, chs)⟩ }
  | skip (closed : List Nat) (et : GoString) (ch : Nat) (chs : List Nat)
      (hd : s.shutDown = some ⟨closed, some (et, ch :: chs)⟩) (hch : ch ∈ closed) :
      Step s .close { s with shutDown := some ⟨closed, some (et, chs)⟩ }
  | close (closed : List Nat) (et : GoString) (ch : Nat) (chs : List Nat) (sub : Subscriber π)
      (chan : Buffered (IEvent π))
      (hd : s.shutDown = some ⟨closed, some (et, ch :: chs)⟩) (hch : ch ∉ closed)
      (hsub : s.subscribers[ch]? = some sub) (hchan : sub.chan.close = some chan) :
      Step s .close
        { s with
          subscribers := s.subscribers.set ch
            { sub with chan := chan, closedBy := sub.closedBy ++ [s.shutDowns] },
          shutDown := some ⟨ch :: closed, some (et, chs)⟩ }
  | closeClosed (closed : List Nat) (et : GoString) (ch : Nat) (chs : List Nat)
      (sub : Subscriber π) (hd : s.shutDown = some ⟨closed, some (et, ch :: chs)⟩)
      (hch : ch ∉ closed) (hsub : s.subscribers[ch]? = some sub)
      (hchan : sub.chan.close = none) : Step s .close { s with panicked := true }
  | deleteType (closed : List Nat) (et : GoString)
      (hd : s.shutDown = some ⟨closed, some (et, [])⟩) :
      Step s .deleteType
        { s with subs := s.subs.delete et, shutDown := some ⟨closed, none⟩ }
  | shutDownReturns (closed : List Nat) (hd : s.shutDown = some ⟨closed, none⟩)
      (hempty : s.subs.entries = []) :
      Step s .shutDownReturns { s with shutDown := none, shutDowns := s.shutDowns + 1 }

theorem unlocked (h : ¬ (s.rLocked || s.wLocked) = true) :
    s.rLocked = false ∧ s.shutDown = none := by
  rw [Bool.or_eq_true, not_or, Bool.not_eq_true, Bool.not_eq_true, State.wLocked,
    Option.isSome_eq_false_iff, Option.isNone_iff_eq_none] at h
  exact h

theorem stepSend_sound {p : Nat} (h : stepSend s p = some s') : Step s (.send p) s' := by
  unfold stepSend at h
  split at h
  · rename_i event ch chs registered hp
    split at h
    · rename_i sub hsub
      split at h
      · rename_i chan hchan
        exact Option.some.inj h ▸ .send p event ch chs registered sub chan hp hsub hchan
      · rename_i hchan
        exact Option.some.inj h ▸ .sendClosed p event ch chs registered sub hp hsub hchan
    · contradiction
  · contradiction

theorem stepClose_sound (h : stepClose s = some s') : Step s .close s' := by
  unfold stepClose at h
  split at h
  · rename_i closed et ch chs hd
    split at h
    · rename_i hch
      exact Option.some.inj h ▸ .skip closed et ch chs hd hch
    · rename_i hch
      split at h
      · rename_i sub hsub
        split at h
        · rename_i chan hchan
          exact Option.some.inj h ▸ .close closed et ch chs sub chan hd hch hsub hchan
        · rename_i hchan
          exact Option.some.inj h ▸ .closeClosed closed et ch chs sub hd hch hsub hchan
      · contradiction
  · contradiction

theorem stepChan_sound {c : Nat} {f : Buffered (IEvent π) → Buffered (IEvent π)}
    (hq : ∀ b, Buffered.Quiet b (f b)) (hwhole : ∀ b, b.Whole → (f b).Whole) (a : Act π)
    (h : stepChan s c f = some s') : Step s a s' := by
  unfold stepChan at h
  split at h
  · rename_i sub hsub
    exact Option.some.inj h ▸ .quiet a c sub (f sub.chan) hsub (hq _) (hwhole _)
  · contradiction

theorem step_sound {a : Act π} (h : step s a = some s') : Step s a s' := by
  unfold step at h
  split at h
  · contradiction
  cases a with
  | subscribe ts =>
    simp only [stepSubscribe] at h
    split at h
    · contradiction
    · rename_i hl
      exact Option.some.inj h ▸ .subscribe ts (unlocked hl).1 (unlocked hl).2
  | publish event =>
    simp only [stepPublish] at h
    split at h
    · contradiction
    · rename_i hw
      exact Option.some.inj h ▸ .publish event (by simpa [State.wLocked] using hw)
  | send p => exact stepSend_sound h
  | publishReturns p =>
    simp only [stepPublishReturns] at h
    split at h
    · rename_i event registered hp
      exact Option.some.inj h ▸ .publishReturns p event registered hp
    · contradiction
  | receive c =>
    exact stepChan_sound Buffered.quiet_receive (fun _ => Buffered.Whole.receive) _ h
  | leave c => exact stepChan_sound Buffered.quiet_leave (fun _ => Buffered.Whole.leave) _ h
  | shutDown =>
    simp only [stepShutDown] at h
    split at h
    · contradiction
    · rename_i hl
      exact Option.some.inj h ▸ .shutDown (unlocked hl).1 (unlocked hl).2
  | nextType et =>
    simp only [stepNextType] at h
    split at h
    · rename_i closed hd
      split at h
      · rename_i chs hchs
        exact Option.some.inj h ▸ .nextType et closed chs hd hchs
      · contradiction
    · contradiction
  | close => exact stepClose_sound h
  | deleteType =>
    simp only [stepDeleteType] at h
    split at h
    · rename_i closed et hd
      exact Option.some.inj h ▸ .deleteType closed et hd
    · contradiction
  | shutDownReturns =>
    simp only [stepShutDownReturns] at h
    split at h
    · rename_i closed hd
      split at h
      · rename_i hempty
        exact Option.some.inj h ▸ .shutDownReturns closed hd (List.isEmpty_iff.mp hempty)
      · contradiction
    · contradiction

/-! ## The invariant -/

/-- The call of `Publish` with this number tried the channel. -/
def TriedBy (i : Nat) (sub : Subscriber π) : Prop := ∃ a ∈ sub.chan.attempts, a.sender = i

structure Sent (publishes : List (Publish π)) (sub : Subscriber π) : Prop where
  whole : sub.chan.Whole
  source : ∀ a ∈ sub.chan.attempts, a.value.eventType ∈ sub.eventTypes.names ∧
    ∃ p, publishes[a.sender]? = some p ∧ p.event = a.value
  once : (sub.chan.attempts.map Attempt.sender).Nodup

/-- The channels that the call has still to try are open and not tried, and the rest of
those that were registered is tried. -/
structure Pending (subscribers : List (Subscriber π)) (i : Nat) (p : Publish π) : Prop where
  nodup : p.chs.Nodup
  ahead : ∀ c ∈ p.chs, ∃ sub, subscribers[c]? = some sub ∧
    p.event.eventType ∈ sub.eventTypes.names ∧ sub.chan.closed = false ∧ ¬ TriedBy i sub
  covered : ∀ c ∈ p.registered,
    c ∈ p.chs ∨ ∃ sub, subscribers[c]? = some sub ∧ TriedBy i sub
  busy : p.chs ≠ [] → p.returned = false

structure Inv (s : State π) : Prop where
  alive : s.panicked = false
  listed : Listed s.subs (s.subscribers.map Subscriber.status) s.shutDown s.shutDowns
  sent : ∀ sub ∈ s.subscribers, Sent s.publishes sub
  pending : ∀ i p, s.publishes[i]? = some p → Pending s.subscribers i p
  locked : s.shutDown = none ∨ s.rLocked = false

theorem init_inv (bufferSize : Nat) : Inv (newEventBrokerImpl bufferSize : State π) := by
  refine ⟨rfl, listed_init, ?_, ?_, .inl rfl⟩
  · intro sub hsub
    exact absurd hsub List.not_mem_nil
  · intro i p hp
    simp [newEventBrokerImpl] at hp

theorem mem_registered {et : GoString} {c : Nat} (h : c ∈ s.registered et) :
    ∃ sub, s.subscribers[c]? = some sub ∧ et ∈ sub.eventTypes.names ∧ sub.chan.closed = false := by
  rw [State.registered, List.mem_filter] at h
  have htest := h.2
  split at htest
  · rename_i sub hsub
    rw [Bool.and_eq_true, decide_eq_true_eq, Bool.not_eq_true'] at htest
    exact ⟨sub, hsub, htest⟩
  · contradiction

theorem Inv.idle_of_busy (hi : Inv s) {i : Nat} {p : Publish π} (hp : s.publishes[i]? = some p)
    (hbusy : p.returned = false) : s.shutDown = none := by
  rcases hi.locked with hidle | hfree
  · exact hidle
  · rw [State.rLocked, List.any_eq_false] at hfree
    have := hfree p (List.mem_of_getElem? hp)
    rw [hbusy] at this
    exact absurd rfl this

theorem Inv.free_of_shutDown (hi : Inv s) {d : ShutDown} (hd : s.shutDown = some d) :
    s.rLocked = false := by
  rcases hi.locked with hidle | hfree
  · rw [hd] at hidle
    contradiction
  · exact hfree

/-- While a `ShutDown` runs nothing is left to send. -/
theorem Inv.chs_of_shutDown (hi : Inv s) {d : ShutDown} (hd : s.shutDown = some d) {i : Nat}
    {p : Publish π} (hp : s.publishes[i]? = some p) : p.chs = [] := by
  by_contra hne
  have hidle := hi.idle_of_busy hp ((hi.pending i p hp).busy hne)
  rw [hd] at hidle
  contradiction

/-! ## What a change of the one list means for the other -/

/-- The calls are still there with their events. -/
def Later (publishes publishes' : List (Publish π)) : Prop :=
  ∀ (i : Nat) (p : Publish π), publishes[i]? = some p →
    ∃ p', publishes'[i]? = some p' ∧ p'.event = p.event

theorem later_append (publishes l : List (Publish π)) : Later publishes (publishes ++ l) := by
  intro i p hp
  exact ⟨p, getElem?_append_some hp, rfl⟩

theorem later_set {publishes : List (Publish π)} {i : Nat} {p p' : Publish π}
    (hp : publishes[i]? = some p) (hevent : p'.event = p.event) :
    Later publishes (publishes.set i p') := by
  intro j q hq
  exact exists_getElem?_set (R := fun q q' => q'.event = q.event) (fun _ => rfl) hp hevent hq

theorem Sent.later {publishes publishes' : List (Publish π)} {sub : Subscriber π}
    (h : Sent publishes sub) (hl : Later publishes publishes') : Sent publishes' sub := by
  refine ⟨h.whole, ?_, h.once⟩
  intro a ha
  obtain ⟨htype, p, hp, hevent⟩ := h.source a ha
  obtain ⟨p', hp', hevent'⟩ := hl a.sender p hp
  exact ⟨htype, p', hp', hevent'.trans hevent⟩

/-- For the call with this number the channel is what it was. -/
structure Same (i : Nat) (sub sub' : Subscriber π) : Prop where
  eventTypes : sub'.eventTypes = sub.eventTypes
  closed : sub'.chan.closed = sub.chan.closed
  tried : TriedBy i sub' ↔ TriedBy i sub

theorem Same.refl (i : Nat) (sub : Subscriber π) : Same i sub sub := ⟨rfl, rfl, Iff.rfl⟩

theorem Pending.same {subscribers subscribers' : List (Subscriber π)} {i : Nat} {p : Publish π}
    (h : Pending subscribers i p)
    (hs : ∀ (c : Nat) (sub : Subscriber π), subscribers[c]? = some sub →
      ∃ sub', subscribers'[c]? = some sub' ∧ Same i sub sub') :
    Pending subscribers' i p := by
  refine ⟨h.nodup, ?_, ?_, h.busy⟩
  · intro c hc
    obtain ⟨sub, hsub, htype, hopen, hnot⟩ := h.ahead c hc
    obtain ⟨sub', hsub', hsame⟩ := hs c sub hsub
    refine ⟨sub', hsub', ?_, ?_, ?_⟩
    · rw [hsame.eventTypes]
      exact htype
    · rw [hsame.closed]
      exact hopen
    · rw [hsame.tried]
      exact hnot
  · intro c hc
    rcases h.covered c hc with hc | ⟨sub, hsub, htried⟩
    · exact .inl hc
    · obtain ⟨sub', hsub', hsame⟩ := hs c sub hsub
      exact .inr ⟨sub', hsub', hsame.tried.mpr htried⟩

theorem Inv.pending_setChan (hi : Inv s) {c : Nat} {sub sub' : Subscriber π}
    (hsub : s.subscribers[c]? = some sub) {i : Nat} {p : Publish π}
    (hp : s.publishes[i]? = some p) (hsame : Same i sub sub') :
    Pending (s.subscribers.set c sub') i p := by
  apply (hi.pending i p hp).same
  intro c' sub'' hsub''
  exact exists_getElem?_set (Same.refl i) hsub hsame hsub''

theorem status_setChan {c : Nat} {sub : Subscriber π} {chan : Buffered (IEvent π)}
    (hsub : s.subscribers[c]? = some sub) (hclosed : chan.closed = sub.chan.closed) :
    (s.setChan c sub chan).subscribers.map Subscriber.status =
      s.subscribers.map Subscriber.status := by
  have hstatus : Subscriber.status { sub with chan := chan } = sub.status := by
    rw [Subscriber.status, hclosed]
    rfl
  show (s.subscribers.set c { sub with chan := chan }).map Subscriber.status = _
  rw [List.map_set, hstatus]
  apply set_eq_self
  rw [List.getElem?_map, hsub]
  rfl

/-! ## One step -/

theorem Inv.subscribe (hi : Inv s) (ts : EventTypes) (hw : s.shutDown = none) :
    Inv { s with
          subs := addSubs s.subs ts.names s.subscribers.length,
          subscribers := s.subscribers ++ [⟨.make s.bSize, ts, s.shutDowns, []⟩] } := by
  refine ⟨hi.alive, ?_, ?_, ?_, .inl hw⟩
  · have h := hi.listed
    rw [hw] at h
    have hadd := h.subscribe ts
    rw [List.length_map] at hadd
    rw [hw, List.map_append]
    exact hadd
  · apply forall_mem_append hi.sent
    intro sub hsub
    rw [List.mem_singleton] at hsub
    subst hsub
    exact ⟨Buffered.whole_make s.bSize, fun a ha => absurd ha List.not_mem_nil, List.nodup_nil⟩
  · intro i p hp
    apply (hi.pending i p hp).same
    intro c sub hsub
    exact ⟨sub, getElem?_append_some hsub, Same.refl i sub⟩

theorem Inv.publish (hi : Inv s) (event : IEvent π) (hw : s.shutDown = none) :
    Inv { s with
          publishes := s.publishes ++
            [⟨event, chsOf s.subs event.eventType, false, s.registered event.eventType⟩] } := by
  have hl := hi.listed
  rw [hw] at hl
  refine ⟨hi.alive, hi.listed, ?_, ?_, .inl hw⟩
  · intro sub hsub
    exact (hi.sent sub hsub).later (later_append _ _)
  · intro i p hp
    rcases getElem?_concat_some hp with hp | ⟨rfl, rfl⟩
    · exact hi.pending i p hp
    refine ⟨hl.nodup _, ?_, ?_, fun _ => rfl⟩
    · intro c hc
      obtain ⟨st, hst, htype, hopen⟩ := hl.open_of_idle hc
      rw [List.getElem?_map, Option.map_eq_some_iff] at hst
      obtain ⟨sub, hsub, rfl⟩ := hst
      refine ⟨sub, hsub, htype, hopen, ?_⟩
      -- no call had this number before
      rintro ⟨a, ha, hsender⟩
      obtain ⟨_, p, hp', _⟩ := (hi.sent sub (List.mem_of_getElem? hsub)).source a ha
      have := lt_of_getElem? hp'
      omega
    · intro c hc
      obtain ⟨sub, hsub, htype, hopen⟩ := mem_registered hc
      left
      apply hl.kept c sub.status event.eventType _ hopen htype
      rw [List.getElem?_map, hsub]
      rfl

theorem Sent.trySend {publishes : List (Publish π)} {sub : Subscriber π} {i : Nat}
    {event : IEvent π} {chan : Buffered (IEvent π)} (h : Sent publishes sub)
    (hchan : sub.chan.trySend i event = some chan) (htype : event.eventType ∈ sub.eventTypes.names)
    (hp : ∃ p, publishes[i]? = some p ∧ p.event = event) (hnot : ¬ TriedBy i sub) :
    Sent publishes { sub with chan := chan } := by
  obtain ⟨_, _, b, hattempts⟩ := Buffered.attempts_trySend hchan
  constructor
  · exact h.whole.trySend hchan
  · show ∀ a ∈ chan.attempts, _
    rw [hattempts]
    apply forall_mem_append h.source
    intro a ha
    rw [List.mem_singleton] at ha
    subst ha
    exact ⟨htype, hp⟩
  · show (chan.attempts.map Attempt.sender).Nodup
    rw [hattempts, List.map_append, List.nodup_append]
    refine ⟨h.once, by simp, ?_⟩
    intro j hj k hk hjk
    obtain ⟨a, ha, rfl⟩ := List.mem_map.mp hj
    simp only [List.map_cons, List.map_nil, List.mem_singleton] at hk
    exact hnot ⟨a, ha, hjk.trans hk⟩

theorem triedBy_trySend {sub : Subscriber π} {i : Nat} {event : IEvent π}
    {chan : Buffered (IEvent π)} (hchan : sub.chan.trySend i event = some chan) (j : Nat) :
    TriedBy j ({ sub with chan := chan } : Subscriber π) ↔ TriedBy j sub ∨ j = i := by
  obtain ⟨_, _, b, hattempts⟩ := Buffered.attempts_trySend hchan
  show (∃ a ∈ chan.attempts, a.sender = j) ↔ _
  rw [hattempts]
  constructor
  · rintro ⟨a, ha, rfl⟩
    rcases List.mem_append.mp ha with ha | ha
    · exact .inl ⟨a, ha, rfl⟩
    · rw [List.mem_singleton] at ha
      subst ha
      exact .inr rfl
  · rintro (⟨a, ha, rfl⟩ | rfl)
    · exact ⟨a, List.mem_append_left _ ha, rfl⟩
    · exact ⟨_, List.mem_append_right _ (List.mem_singleton_self _), rfl⟩

theorem Inv.send (hi : Inv s) {i ch : Nat} {event : IEvent π} {chs registered : List Nat}
    {sub : Subscriber π} {chan : Buffered (IEvent π)}
    (hp : s.publishes[i]? = some ⟨event, ch :: chs, false, registered⟩)
    (hsub : s.subscribers[ch]? = some sub) (hchan : sub.chan.trySend i event = some chan) :
    Inv { s.setChan ch sub chan with
          publishes := s.publishes.set i ⟨event, chs, false, registered⟩ } := by
  have hidle := hi.idle_of_busy hp rfl
  have hpend := hi.pending i _ hp
  have hlater : Later s.publishes (s.publishes.set i ⟨event, chs, false, registered⟩) :=
    later_set hp rfl
  obtain ⟨hopen, hopen', _⟩ := Buffered.attempts_trySend hchan
  obtain ⟨sub', hsub', htype, _, hnot⟩ := hpend.ahead ch List.mem_cons_self
  rw [hsub, Option.some.injEq] at hsub'
  subst hsub'
  have hnodup := List.nodup_cons.mp hpend.nodup
  refine ⟨hi.alive, ?_, ?_, ?_, .inl hidle⟩
  · show Listed s.subs ((s.setChan ch sub chan).subscribers.map Subscriber.status) _ _
    rw [status_setChan hsub (hopen'.trans hopen.symm)]
    exact hi.listed
  · apply forall_mem_set
    · intro sub' hsub'
      exact (hi.sent sub' hsub').later hlater
    · have hsent := (hi.sent sub (List.mem_of_getElem? hsub)).later hlater
      exact hsent.trySend hchan htype ⟨_, getElem?_set_eq hp, rfl⟩ hnot
  · intro j q hq
    rcases getElem?_set_some hq with ⟨rfl, rfl⟩ | ⟨hij, hq⟩
    · refine ⟨hnodup.2, ?_, ?_, fun _ => rfl⟩
      · intro c hc
        have hne : ch ≠ c := by
          rintro rfl
          exact hnodup.1 hc
        obtain ⟨sub', hsub', hrest⟩ := hpend.ahead c (List.mem_cons_of_mem ch hc)
        refine ⟨sub', ?_, hrest⟩
        show (s.subscribers.set ch _)[c]? = _
        rw [List.getElem?_set_ne hne]
        exact hsub'
      · intro c hc
        have hgoes : ∀ sub', s.subscribers[c]? = some sub' → (ch = c ∨ TriedBy i sub') →
            ∃ sub'', (s.setChan ch sub chan).subscribers[c]? = some sub'' ∧ TriedBy i sub'' := by
          intro sub' hsub' hor
          by_cases hne : ch = c
          · subst hne
            exact ⟨_, getElem?_set_eq hsub, (triedBy_trySend hchan i).mpr (.inr rfl)⟩
          · refine ⟨sub', ?_, hor.resolve_left hne⟩
            show (s.subscribers.set ch _)[c]? = _
            rw [List.getElem?_set_ne hne]
            exact hsub'
        rcases hpend.covered c hc with hc | ⟨sub', hsub', htried⟩
        · rcases List.mem_cons.mp hc with rfl | hc
          · exact .inr (hgoes sub hsub (.inl rfl))
          · exact .inl hc
        · exact .inr (hgoes sub' hsub' (.inr htried))
    · apply hi.pending_setChan hsub hq
      refine ⟨rfl, hopen'.trans hopen.symm, ?_⟩
      rw [triedBy_trySend hchan]
      constructor
      · rintro (h | rfl)
        · exact h
        · exact absurd rfl hij
      · exact .inl

theorem Inv.publishReturns (hi : Inv s) {i : Nat} {event : IEvent π} {registered : List Nat}
    (hp : s.publishes[i]? = some ⟨event, [], false, registered⟩) :
    Inv { s with publishes := s.publishes.set i ⟨event, [], true, registered⟩ } := by
  refine ⟨hi.alive, hi.listed, ?_, ?_, .inl (hi.idle_of_busy hp rfl)⟩
  · intro sub hsub
    exact (hi.sent sub hsub).later (later_set hp rfl)
  · intro j q hq
    rcases getElem?_set_some hq with ⟨rfl, rfl⟩ | ⟨_, hq⟩
    · have hpend := hi.pending i _ hp
      exact ⟨hpend.nodup, hpend.ahead, hpend.covered, fun hne => absurd rfl hne⟩
    · exact hi.pending j q hq

theorem Inv.quiet (hi : Inv s) {c : Nat} {sub : Subscriber π} {chan : Buffered (IEvent π)}
    (hsub : s.subscribers[c]? = some sub) (hq : Buffered.Quiet sub.chan chan)
    (hwhole : sub.chan.Whole → chan.Whole) : Inv (s.setChan c sub chan) := by
  refine ⟨hi.alive, ?_, ?_, ?_, hi.locked⟩
  · rw [status_setChan hsub hq.closed]
    exact hi.listed
  · apply forall_mem_set hi.sent
    have hsent := hi.sent sub (List.mem_of_getElem? hsub)
    constructor
    · exact hwhole hsent.whole
    · show ∀ a ∈ chan.attempts, _
      rw [hq.attempts]
      exact hsent.source
    · show (chan.attempts.map Attempt.sender).Nodup
      rw [hq.attempts]
      exact hsent.once
  · intro i p hp
    apply hi.pending_setChan hsub hp
    refine ⟨rfl, hq.closed, ?_⟩
    show (∃ a ∈ chan.attempts, a.sender = i) ↔ _
    rw [hq.attempts]
    exact Iff.rfl

theorem Inv.close (hi : Inv s) {closed : List Nat} {et : GoString} {ch : Nat} {chs : List Nat}
    {sub : Subscriber π} {chan : Buffered (IEvent π)}
    (hd : s.shutDown = some ⟨closed, some (et, ch :: chs)⟩) (hch : ch ∉ closed)
    (hsub : s.subscribers[ch]? = some sub) (hchan : sub.chan.close = some chan) :
    Inv { s with
          subscribers := s.subscribers.set ch
            { sub with chan := chan, closedBy := sub.closedBy ++ [s.shutDowns] },
          shutDown := some ⟨ch :: closed, some (et, chs)⟩ } := by
  have hl := hi.listed
  rw [hd] at hl
  have hst : (s.subscribers.map Subscriber.status)[ch]? = some sub.status := by
    rw [List.getElem?_map, hsub]
    rfl
  have hopen : sub.chan.closed = false := by
    obtain ⟨st, hst', hopen, _⟩ := hl.not_closed hch
    rw [hst, Option.some.injEq] at hst'
    subst hst'
    exact hopen
  rw [Buffered.close_of_open hopen, Option.some.injEq] at hchan
  subst hchan
  have hgoes : ∀ (i c : Nat) (sub' : Subscriber π), s.subscribers[c]? = some sub' → TriedBy i sub' →
      ∃ sub'', (s.subscribers.set ch
        { sub with
          chan := { sub.chan with closed := true, waiting := 0 },
          closedBy := sub.closedBy ++ [s.shutDowns] })[c]? = some sub'' ∧ TriedBy i sub'' := by
    intro i c sub' hsub' htried
    by_cases hne : ch = c
    · subst hne
      rw [hsub, Option.some.injEq] at hsub'
      subst hsub'
      exact ⟨_, getElem?_set_eq hsub, htried⟩
    · refine ⟨sub', ?_, htried⟩
      rw [List.getElem?_set_ne hne]
      exact hsub'
  refine ⟨hi.alive, ?_, ?_, ?_, .inr (hi.free_of_shutDown hd)⟩
  · show Listed s.subs ((s.subscribers.set ch _).map Subscriber.status) _ _
    rw [List.map_set]
    exact hl.close hch hst
  · apply forall_mem_set hi.sent
    have hsent := hi.sent sub (List.mem_of_getElem? hsub)
    exact ⟨hsent.whole.close, hsent.source, hsent.once⟩
  · intro i p hp
    have hpend := hi.pending i p hp
    have hnil := hi.chs_of_shutDown hd hp
    refine ⟨hpend.nodup, ?_, ?_, hpend.busy⟩
    · intro c hc
      rw [hnil] at hc
      exact absurd hc List.not_mem_nil
    · intro c hc
      rcases hpend.covered c hc with hc | ⟨sub', hsub', htried⟩
      · exact .inl hc
      · exact .inr (hgoes i c sub' hsub' htried)

theorem step_inv {a : Act π} (hi : Inv s) (h : step s a = some s') : Inv s' := by
  have hl := hi.listed
  cases step_sound h with
  | subscribe ts hr hw => exact hi.subscribe ts hw
  | publish event hw => exact hi.publish event hw
  | send i event ch chs registered sub chan hp hsub hchan => exact hi.send hp hsub hchan
  | sendClosed i event ch chs registered sub hp hsub hchan =>
    obtain ⟨sub', hsub', _, hopen, _⟩ := (hi.pending i _ hp).ahead ch List.mem_cons_self
    rw [hsub, Option.some.injEq] at hsub'
    subst hsub'
    obtain ⟨chan, hchan'⟩ := Buffered.trySend_of_open hopen i event
    rw [hchan] at hchan'
    contradiction
  | publishReturns i event registered hp => exact hi.publishReturns hp
  | quiet _ c sub chan hsub hq hwhole => exact hi.quiet hsub hq hwhole
  | shutDown hr hw =>
    rw [hw] at hl
    exact ⟨hi.alive, hl.shutDown, hi.sent, hi.pending, .inr hr⟩
  | nextType et closed chs hd hchs =>
    rw [hd] at hl
    exact ⟨hi.alive, hl.nextType hchs, hi.sent, hi.pending, .inr (hi.free_of_shutDown hd)⟩
  | skip closed et ch chs hd hch =>
    rw [hd] at hl
    exact ⟨hi.alive, hl.skip hch, hi.sent, hi.pending, .inr (hi.free_of_shutDown hd)⟩
  | close closed et ch chs sub chan hd hch hsub hchan => exact hi.close hd hch hsub hchan
  | closeClosed closed et ch chs sub hd hch hsub hchan =>
    rw [hd] at hl
    obtain ⟨st, hst, hopen, _⟩ := hl.not_closed hch
    rw [List.getElem?_map, hsub, Option.map_some, Option.some.injEq] at hst
    subst hst
    rw [Buffered.close_of_open hopen] at hchan
    contradiction
  | deleteType closed et hd =>
    rw [hd] at hl
    exact ⟨hi.alive, hl.deleteType, hi.sent, hi.pending, .inr (hi.free_of_shutDown hd)⟩
  | shutDownReturns closed hd hempty =>
    rw [hd] at hl
    exact ⟨hi.alive, hl.returns hempty, hi.sent, hi.pending, .inl rfl⟩

theorem reach_inv {bufferSize : Nat} (h : (machine bufferSize).Reachable s) : Inv s :=
  Machine.Reach.invariant (init_inv bufferSize) (fun _ _ _ hi _ hs => step_inv hi hs) h

/-! ## Every run -/

/-- What the subscribers can rely on. -/
structure Delivered (s : State π) : Prop where
  /-- What a channel gave and has is what it took, in the order of the sends to it. -/
  order : ∀ sub ∈ s.subscribers, sub.chan.received ++ sub.chan.buffer = sub.chan.taken ∧
    sub.chan.taken.Sublist (sub.chan.attempts.map Attempt.value)
  types : ∀ sub ∈ s.subscribers, ∀ a ∈ sub.chan.attempts,
    a.value.eventType ∈ sub.eventTypes.names ∧
      ∃ p, s.publishes[a.sender]? = some p ∧ p.event = a.value
  once : ∀ sub ∈ s.subscribers, (sub.chan.attempts.map Attempt.sender).Nodup
  /-- A call that has returned tried every channel that was registered as it began. -/
  reached : ∀ (i : Nat) (p : Publish π), s.publishes[i]? = some p → p.returned = true →
    ∀ c ∈ p.registered, ∃ sub : Subscriber π, s.subscribers[c]? = some sub ∧
      ∃ a ∈ sub.chan.attempts, a.sender = i ∧ a.value = p.event
  full : ∀ sub ∈ s.subscribers, ∀ a ∈ sub.chan.attempts,
    a.taken = false → a.held = sub.chan.capacity
  /-- No send met a closed channel, and no close. -/
  alive : s.panicked = false
  closedBy : ∀ sub ∈ s.subscribers,
    sub.closedBy = if sub.chan.closed then [sub.since] else []
  /-- The next `ShutDown` after a subscription closes the channel. -/
  shutDown : ∀ sub ∈ s.subscribers, sub.eventTypes.names ≠ [] → sub.since < s.shutDowns →
    sub.closedBy = [sub.since]

theorem Inv.reached (hi : Inv s) {i : Nat} {p : Publish π} (hp : s.publishes[i]? = some p)
    (hreturned : p.returned = true) {c : Nat} (hc : c ∈ p.registered) :
    ∃ sub : Subscriber π, s.subscribers[c]? = some sub ∧
      ∃ a ∈ sub.chan.attempts, a.sender = i ∧ a.value = p.event := by
  have hpend := hi.pending i p hp
  rcases hpend.covered c hc with hc | ⟨sub, hsub, a, ha, hsender⟩
  · have := hpend.busy (List.ne_nil_of_mem hc)
    rw [hreturned] at this
    contradiction
  · refine ⟨sub, hsub, a, ha, hsender, ?_⟩
    obtain ⟨_, q, hq, hevent⟩ := (hi.sent sub (List.mem_of_getElem? hsub)).source a ha
    rw [hsender, hp, Option.some.injEq] at hq
    rw [← hevent, hq]

theorem Inv.closedBy (hi : Inv s) {sub : Subscriber π} (hsub : sub ∈ s.subscribers) :
    sub.closedBy = if sub.chan.closed then [sub.since] else [] :=
  hi.listed.closedBy sub.status (List.mem_map_of_mem hsub)

theorem Inv.shutDown (hi : Inv s) {sub : Subscriber π} (hsub : sub ∈ s.subscribers)
    (hne : sub.eventTypes.names ≠ []) (hlt : sub.since < s.shutDowns) :
    sub.closedBy = [sub.since] := by
  rw [hi.closedBy hsub]
  cases hclosed : sub.chan.closed with
  | true => rfl
  | false =>
    have : sub.since = s.shutDowns :=
      hi.listed.since sub.status (List.mem_map_of_mem hsub) hclosed hne
    omega

/-- The broker delivers in order and at most once, loses only what meets a full buffer,
and closes every channel once, in every run. -/
theorem events_delivered {bufferSize : Nat} (h : (machine bufferSize).Reachable s) :
    Delivered s := by
  have hi := reach_inv h
  constructor
  · intro sub hsub
    exact ⟨(hi.sent sub hsub).whole.kept, sub.chan.taken_sublist⟩
  · intro sub hsub
    exact (hi.sent sub hsub).source
  · intro sub hsub
    exact (hi.sent sub hsub).once
  · intro i p hp hreturned c hc
    exact hi.reached hp hreturned hc
  · intro sub hsub
    exact (hi.sent sub hsub).whole.full
  · exact hi.alive
  · intro sub hsub
    exact hi.closedBy hsub
  · intro sub hsub hne hlt
    exact hi.shutDown hsub hne hlt

end

/-- A subscriber of two types with room for one event: the second event is dropped, and
the second `ShutDown` finds nothing to close. -/
def sampleRun : List (Act Nat) :=
  [.subscribe ⟨[bytes "a", bytes "b"], by decide⟩,
   .publish ⟨bytes "a", 1⟩, .publish ⟨bytes "b", 2⟩, .send 0, .send 1, .publishReturns 1,
   .publishReturns 0, .receive 0, .receive 0,
   .shutDown, .nextType (bytes "b"), .close, .deleteType, .nextType (bytes "a"), .close,
   .deleteType, .shutDownReturns, .shutDown, .shutDownReturns]

def sampleState : State Nat :=
  ((machine 1).run (newEventBrokerImpl 1) sampleRun).getD (newEventBrokerImpl 1)

theorem sampleState_reachable : (machine 1).Reachable sampleState :=
  Machine.reachable_of_run sampleRun rfl

theorem events_delivered_sample :
    Delivered sampleState ∧
      sampleState.subscribers.map (fun sub => (sub.chan.received, sub.chan.attempts.length)) =
        [([⟨bytes "a", 1⟩], 2)] ∧
      sampleState.subscribers.map Subscriber.closedBy = [[0]] :=
  ⟨events_delivered sampleState_reachable, rfl, rfl⟩

end Selebrow.Event
