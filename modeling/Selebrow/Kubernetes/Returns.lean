import Selebrow.Kubernetes.Channels

/-!
# What the waiting calls return

A history is kept beside the watcher: for each `WaitPodReady` call its pod, its channel,
the pods that were announced on the channel, and when its context ended or its pod was
deleted.  The steps are those of the watcher, but `ctx.Done` is ready only after the
context of the call has ended.
-/

namespace Selebrow.Kubernetes

open Transition

/-- The history of a call. -/
structure Record where
  podName : GoString
  /-- The channel that it registered. -/
  ch : Option Nat
  ctxEnded : Bool
  /-- Its `select` took the end of the context. -/
  took : Bool
  /-- The pods whose addresses were sent to it, each that of the event at the time. -/
  announced : List Pod
  /-- A `Deleted` event for the pod was taken while the call was registered and nothing
  had been sent to it. -/
  deletedFirst : Bool
deriving DecidableEq

def Record.new (podName : GoString) : Record :=
  { podName := podName, ch := none, ctxEnded := false, took := false, announced := [],
    deletedFirst := false }

structure Watch where
  w : State
  records : List Record

inductive WatchAct
  | step (a : Act)
  | ctxEnds (i : Nat)

/-- What a step of the watcher means for call `i`. -/
def mark (s : State) (a : Act) (i : Nat) (r : Record) : Record :=
  match a with
  | .addWaiter j => if i = j then { r with ch := some s.channels.length } else r
  | .ctxDone j _ => if i = j then { r with took := true } else r
  | .send =>
    match s.loop, s.processed with
    | .sending ch _, ⟨_, some pod⟩ :: _ =>
      if r.ch = some ch then { r with announced := r.announced ++ [pod] } else r
    | _, _ => r
  | .event ⟨.deleted, some pod⟩ =>
    if r.podName = pod.name ∧ r.ch ≠ none ∧ s.waiters pod.name = r.ch ∧ r.announced = [] then
      { r with deletedFirst := true }
    else r
  | _ => r

def note (s : State) (a : Act) (rs : List Record) : List Record :=
  match a with
  | .waitPodReady podName => rs ++ [.new podName]
  | _ => rs.mapIdx (mark s a)

/-- `ctx.Done()` is ready. -/
def CtxReady (s : Watch) (i : Nat) : Bool := (s.records[i]?.map Record.ctxEnded).getD false

def watchStep (s : Watch) : WatchAct → Option Watch
  | .step (.ctxDone i err) =>
    if CtxReady s i then
      (step s.w (.ctxDone i err)).map fun w => ⟨w, note s.w (.ctxDone i err) s.records⟩
    else none
  | .step a => (step s.w a).map fun w => ⟨w, note s.w a s.records⟩
  | .ctxEnds i =>
    some { s with
           records := s.records.mapIdx fun j r => if j = i then { r with ctxEnded := true } else r }

def watchMachine : Machine Watch WatchAct :=
  { init := { w := .init, records := [] }, step := watchStep }

/-- The calls are for pairwise different pods. -/
def DifferentPods (s : Watch) : WatchAct → Prop
  | .step (.waitPodReady podName) => podName ∉ s.records.map Record.podName
  | _ => True

/-! ## The invariant -/

/-- What the history of a call says of its result. -/
def Outcome (r : Record) : Except WaitError GoString → Prop
  | .ok ip => r.took = false ∧ ∃ pod ∈ r.announced, pod.podIP = ip
  | .error (.ctx _) => r.ctxEnded = true ∧ r.took = true
  | .error .watcherClosed => r.took = false

def Fits (r : Record) : Call → Prop
  | .addWaiter podName => podName = r.podName ∧ r.ch = none ∧ r.took = false
  | .select podName ch => podName = r.podName ∧ r.ch = some ch ∧ r.took = false
  | .removeWaiter podName ip ok err => podName = r.podName ∧ Outcome r (waitResult ip ok err)
  | .returned result => Outcome r result

def Call.running : Call → Bool
  | .returned _ => false
  | _ => true

/-- What is announced to the call was in ready `Modified` events of its pod. -/
def Announced (processed : List Event) (r : Record) : Prop :=
  ∀ pod ∈ r.announced,
    pod.name = r.podName ∧ pod.allReady = true ∧ ⟨.modified, some pod⟩ ∈ processed

/-- The channel of the call holds what was announced. -/
def InBuffer (channels : List Chan) (r : Record) : Prop :=
  ∀ ch, r.ch = some ch → ch < channels.length ∧
    ∀ ip closed, channels[ch]? = some ⟨some ip, closed⟩ → ∃ pod ∈ r.announced, pod.podIP = ip

/-- A call whose pod was deleted first is or soon will be without an entry. -/
def Abandoned (loop : Loop) (waiters : GoString → Option Nat) (r : Record) : Prop :=
  r.deletedFirst = true → r.announced = [] ∧
    ∃ ch, r.ch = some ch ∧ (loop = .removeWaiter r.podName ∨ ∀ podName, waiters podName ≠ some ch)

/-- What the loop is about to send is from the event that it took last. -/
def AtLoop (s : State) : Prop :=
  match s.loop with
  | .notifyWaiter podName ip =>
    ∃ pod rest, s.processed = ⟨.modified, some pod⟩ :: rest ∧ pod.allReady = true ∧
      pod.name = podName ∧ pod.podIP = ip
  | .sending ch ip =>
    ∃ pod rest, s.processed = ⟨.modified, some pod⟩ :: rest ∧ pod.allReady = true ∧
      s.waiters pod.name = some ch ∧ pod.podIP = ip
  | _ => True

structure Kept (s : State) (rs : List Record) : Prop where
  inv : Inv s
  length : rs.length = s.calls.length
  fits : ∀ (i : Nat) (c : Call) (r : Record), s.calls[i]? = some c → rs[i]? = some r → Fits r c
  announced : ∀ (i : Nat) (r : Record), rs[i]? = some r → Announced s.processed r
  buffered : ∀ (i : Nat) (r : Record), rs[i]? = some r → InBuffer s.channels r
  abandoned : ∀ (i : Nat) (r : Record), rs[i]? = some r → Abandoned s.loop s.waiters r
  loop : AtLoop s
  owner : ∀ (podName : GoString) (ch : Nat), s.waiters podName = some ch →
    ∃ (i : Nat) (c : Call) (r : Record), s.calls[i]? = some c ∧ rs[i]? = some r ∧
      c.running = true ∧ r.podName = podName ∧ r.ch = some ch
  unique : ∀ (i j : Nat) (r r' : Record) (ch : Nat), rs[i]? = some r → rs[j]? = some r' →
    r.ch = some ch → r'.ch = some ch → i = j

section

variable {s s' : State} {rs : List Record}

theorem kept_init : Kept .init [] := by
  refine ⟨init_inv, rfl, ?_, ?_, ?_, ?_, trivial, ?_, ?_⟩ <;> intros <;> simp_all [State.init]

/-- A step that starts no call and registers no channel; `m` is what it means for the
history. -/
theorem Kept.of_marks (h : Kept s rs) (m : Nat → Record → Record) (hinv : Inv s')
    (hm : ∀ i r, (m i r).podName = r.podName ∧ (m i r).ch = r.ch)
    (hlength : s'.calls.length = s.calls.length)
    (hfits : ∀ (i : Nat) (c : Call) (r : Record), s'.calls[i]? = some c → rs[i]? = some r →
      Fits (m i r) c)
    (hannounced : ∀ (i : Nat) (r : Record), rs[i]? = some r → Announced s'.processed (m i r))
    (hbuffered : ∀ (i : Nat) (r : Record), rs[i]? = some r → InBuffer s'.channels (m i r))
    (habandoned : ∀ (i : Nat) (r : Record), rs[i]? = some r →
      Abandoned s'.loop s'.waiters (m i r))
    (hloop : AtLoop s')
    (howner : ∀ (podName : GoString) (ch : Nat), s'.waiters podName = some ch →
      s.waiters podName = some ch ∧
        ∀ (i : Nat) (c : Call) (r : Record), s.calls[i]? = some c → rs[i]? = some r →
          c.running = true → r.podName = podName →
            ∃ c', s'.calls[i]? = some c' ∧ c'.running = true) :
    Kept s' (rs.mapIdx m) := by
  have hget : ∀ {i : Nat} {r' : Record}, (rs.mapIdx m)[i]? = some r' →
      ∃ r, rs[i]? = some r ∧ r' = m i r := by
    intro i r' hr'
    rw [List.getElem?_mapIdx, Option.map_eq_some_iff] at hr'
    obtain ⟨r, hr, rfl⟩ := hr'
    exact ⟨r, hr, rfl⟩
  refine ⟨hinv, ?_, ?_, ?_, ?_, ?_, hloop, ?_, ?_⟩
  · rw [List.length_mapIdx, hlength]
    exact h.length
  · intro i c r' hc hr'
    obtain ⟨r, hr, rfl⟩ := hget hr'
    exact hfits i c r hc hr
  · intro i r' hr'
    obtain ⟨r, hr, rfl⟩ := hget hr'
    exact hannounced i r hr
  · intro i r' hr'
    obtain ⟨r, hr, rfl⟩ := hget hr'
    exact hbuffered i r hr
  · intro i r' hr'
    obtain ⟨r, hr, rfl⟩ := hget hr'
    exact habandoned i r hr
  · intro podName ch hw
    obtain ⟨hw, hgoes⟩ := howner podName ch hw
    obtain ⟨i, c, r, hc, hr, hrun, hname, hch⟩ := h.owner podName ch hw
    obtain ⟨c', hc', hrun'⟩ := hgoes i c r hc hr hrun hname
    refine ⟨i, c', m i r, hc', ?_, hrun', (hm i r).1.trans hname, (hm i r).2.trans hch⟩
    rw [List.getElem?_mapIdx, hr]
    rfl
  · intro i j r₁ r₂ ch h₁ h₂ hch₁ hch₂
    obtain ⟨r, hr, rfl⟩ := hget h₁
    obtain ⟨r', hr', rfl⟩ := hget h₂
    exact h.unique i j r r' ch hr hr' ((hm i r).2 ▸ hch₁) ((hm j r').2 ▸ hch₂)

/-- A step of call `i` that leaves the loop, the map and the events alone. -/
theorem Kept.call (h : Kept s rs) {i : Nat} {c c' : Call} (m : Nat → Record → Record)
    (hm : ∀ j r, j ≠ i → m j r = r)
    (hmi : ∀ r, ∃ took, m i r = { r with took := took }) (channels : List Chan)
    (hinv : Inv { s with calls := s.calls.set i c', channels := channels })
    (hc : s.calls[i]? = some c) (hrun : c'.running = true)
    (hfits : ∀ r, rs[i]? = some r → Fits r c → Fits (m i r) c')
    (hbuffered : ∀ (j : Nat) (r : Record), rs[j]? = some r → InBuffer channels r) :
    Kept { s with calls := s.calls.set i c', channels := channels } (rs.mapIdx m) := by
  have hfields : ∀ j r, (m j r).podName = r.podName ∧ (m j r).ch = r.ch ∧
      (m j r).announced = r.announced ∧ (m j r).deletedFirst = r.deletedFirst := by
    intro j r
    by_cases hij : j = i
    · subst hij
      obtain ⟨took, htook⟩ := hmi r
      rw [htook]
      exact ⟨rfl, rfl, rfl, rfl⟩
    · rw [hm j r hij]
      exact ⟨rfl, rfl, rfl, rfl⟩
  apply h.of_marks m hinv (fun j r => ⟨(hfields j r).1, (hfields j r).2.1⟩) List.length_set
  · intro j d r hd hr
    rcases getElem?_set_some hd with ⟨rfl, rfl⟩ | ⟨hij, hd⟩
    · exact hfits r hr (h.fits i c r hc hr)
    · rw [hm j r (Ne.symm hij)]
      exact h.fits j d r hd hr
  · intro j r hr
    obtain ⟨hname, _, hann, _⟩ := hfields j r
    rw [Announced, hann, hname]
    exact h.announced j r hr
  · intro j r hr
    obtain ⟨_, hch, hann, _⟩ := hfields j r
    rw [InBuffer, hch, hann]
    exact hbuffered j r hr
  · intro j r hr
    obtain ⟨hname, hch, hann, hdel⟩ := hfields j r
    rw [Abandoned, hdel, hann, hch, hname]
    exact h.abandoned j r hr
  · exact h.loop
  · intro podName ch hw
    refine ⟨hw, ?_⟩
    intro j d r hd _ hrun' _
    by_cases hij : i = j
    · subst hij
      exact ⟨c', getElem?_set_eq hc, hrun⟩
    · refine ⟨d, ?_, hrun'⟩
      rw [List.getElem?_set_ne hij]
      exact hd

/-- A step of the loop, between its events. -/
theorem Kept.loopStep (h : Kept s rs) (m : Nat → Record → Record) (hinv : Inv s')
    (hm : ∀ i r, (m i r).podName = r.podName ∧ (m i r).ch = r.ch)
    (hcalls : s'.calls = s.calls) (hwaiters : s'.waiters = s.waiters)
    (hfits : ∀ (i : Nat) (c : Call) (r : Record), s.calls[i]? = some c → rs[i]? = some r →
      Fits r c → Fits (m i r) c)
    (hannounced : ∀ (i : Nat) (r : Record), rs[i]? = some r → Announced s'.processed (m i r))
    (hbuffered : ∀ (i : Nat) (r : Record), rs[i]? = some r → InBuffer s'.channels (m i r))
    (habandoned : ∀ (i : Nat) (r : Record), rs[i]? = some r →
      Abandoned s'.loop s'.waiters (m i r)) (hloop : AtLoop s') :
    Kept s' (rs.mapIdx m) := by
  apply h.of_marks m hinv hm (by rw [hcalls]) _ hannounced hbuffered habandoned hloop
  · intro podName ch hw
    rw [hwaiters] at hw
    refine ⟨hw, ?_⟩
    intro i c r hc _ hrun _
    rw [hcalls]
    exact ⟨c, hc, hrun⟩
  · intro i c r hc hr
    rw [hcalls] at hc
    exact hfits i c r hc hr (h.fits i c r hc hr)

/-! ## One step -/

theorem inBuffer_set {channels : List Chan} {r : Record} {ch : Nat} {buf buf' : Option GoString}
    {closed : Bool} (closed' : Bool) (h : InBuffer channels r)
    (hch : channels[ch]? = some ⟨buf, closed⟩) (hbuf : buf' = none ∨ buf' = buf) :
    InBuffer (channels.set ch ⟨buf', closed'⟩) r := by
  intro k hk
  obtain ⟨hlt, hin⟩ := h k hk
  refine ⟨by rwa [List.length_set], ?_⟩
  intro ip c hget
  rcases getElem?_set_some hget with ⟨rfl, heq⟩ | ⟨_, hget⟩
  · rw [Chan.mk.injEq] at heq
    rcases hbuf with hnone | hsame
    · rw [hnone] at heq
      simp at heq
    · exact hin ip closed (by rw [hch, ← hsame, ← heq.1])
  · exact hin ip c hget

theorem Kept.waitPodReady (h : Kept s rs) (podName : GoString)
    (hinv : Inv { s with calls := s.calls ++ [.addWaiter podName] }) :
    Kept { s with calls := s.calls ++ [.addWaiter podName] } (rs ++ [.new podName]) := by
  have hget : ∀ {i : Nat} {r : Record}, (rs ++ [.new podName])[i]? = some r →
      rs[i]? = some r ∨ (i = rs.length ∧ r = .new podName) := getElem?_concat_some
  refine ⟨hinv, ?_, ?_, ?_, ?_, ?_, h.loop, ?_, ?_⟩
  · rw [List.length_append, List.length_append, h.length]
    rfl
  · intro i c r hc hr
    rcases getElem?_concat_some hc with hc | ⟨rfl, rfl⟩ <;> rcases hget hr with hr | ⟨hi, rfl⟩
    · exact h.fits i c r hc hr
    · have := lt_of_getElem? hc
      have := h.length
      omega
    · have := lt_of_getElem? hr
      have := h.length
      omega
    · exact ⟨rfl, rfl, rfl⟩
  · intro i r hr
    rcases hget hr with hr | ⟨_, rfl⟩
    · exact h.announced i r hr
    · intro pod hpod
      exact absurd hpod List.not_mem_nil
  · intro i r hr
    rcases hget hr with hr | ⟨_, rfl⟩
    · exact h.buffered i r hr
    · intro ch hch
      contradiction
  · intro i r hr
    rcases hget hr with hr | ⟨_, rfl⟩
    · exact h.abandoned i r hr
    · intro hdel
      contradiction
  · intro P ch hw
    obtain ⟨i, c, r, hc, hr, hrest⟩ := h.owner P ch hw
    exact ⟨i, c, r, getElem?_append_some hc, getElem?_append_some hr, hrest⟩
  · intro i j r r' ch hr hr' hch hch'
    rcases hget hr with hr | ⟨_, rfl⟩
    · rcases hget hr' with hr' | ⟨_, rfl⟩
      · exact h.unique i j r r' ch hr hr' hch hch'
      · contradiction
    · contradiction

/-- A step outside of the read lock that leaves the loop where it is. -/
theorem atLoop_of_unlocked (h : AtLoop s) (hl : s.rLocked = false) (hloop : s'.loop = s.loop)
    (hprocessed : s'.processed = s.processed) : AtLoop s' := by
  unfold AtLoop at h ⊢
  rw [hloop, hprocessed]
  cases hs : s.loop with
  | sending ch ip => simp [State.rLocked, hs] at hl
  | notifyWaiter podName ip =>
    rw [hs] at h
    exact h
  | _ => trivial

theorem waiters_addWaiter {i k : Nat} {c : Call} {podName P : GoString}
    (h : ((s.addWaiter podName).setCall i c).waiters P = some k) :
    (P = podName ∧ k = s.channels.length) ∨ s.waiters P = some k := by
  have hk : Function.update s.waiters podName (some s.channels.length) P = some k := h
  rw [Function.update_apply] at hk
  split at hk
  · rename_i hP
    exact .inl ⟨hP, (Option.some.inj hk).symm⟩
  · exact .inr hk

theorem Kept.addWaiter (h : Kept s rs) {i : Nat} {podName : GoString}
    (hc : s.calls[i]? = some (.addWaiter podName)) (hl : s.rLocked = false)
    (hinv : Inv ((s.addWaiter podName).setCall i (.select podName s.channels.length))) :
    Kept ((s.addWaiter podName).setCall i (.select podName s.channels.length))
      (rs.mapIdx (mark s (.addWaiter i))) := by
  have hget : ∀ {j : Nat} {r' : Record}, (rs.mapIdx (mark s (.addWaiter i)))[j]? = some r' →
      ∃ r, rs[j]? = some r ∧
        (j = i ∧ r.podName = podName ∧ r.ch = none ∧ r.took = false ∧
            r' = { r with ch := some s.channels.length } ∨ j ≠ i ∧ r' = r) := by
    intro j r' hr'
    rw [List.getElem?_mapIdx, Option.map_eq_some_iff] at hr'
    obtain ⟨r, hr, rfl⟩ := hr'
    refine ⟨r, hr, ?_⟩
    by_cases hij : j = i
    · subst hij
      obtain ⟨hname, hch, htook⟩ := h.fits j _ r hc hr
      exact .inl ⟨rfl, hname.symm, hch, htook, if_pos rfl⟩
    · exact .inr ⟨hij, if_neg hij⟩
  have hset : ∀ {j : Nat} {r : Record}, rs[j]? = some r → j ≠ i →
      (rs.mapIdx (mark s (.addWaiter i)))[j]? = some r := by
    intro j r hr hij
    rw [List.getElem?_mapIdx, hr]
    exact congrArg some (if_neg hij)
  refine ⟨hinv, ?_, ?_, ?_, ?_, ?_, ?_, ?_, ?_⟩
  · rw [List.length_mapIdx, h.length]
    exact List.length_set.symm
  · intro j c r' hj hr'
    obtain ⟨r, hr, ⟨rfl, hname, _, htook, rfl⟩ | ⟨hij, rfl⟩⟩ := hget hr'
    · have hnew := hj.symm.trans (getElem?_set_eq hc)
      cases hnew
      exact ⟨hname.symm, rfl, htook⟩
    · apply h.fits j c r' _ hr
      rw [← hj]
      exact (List.getElem?_set_ne (Ne.symm hij)).symm
  · intro j r' hr'
    obtain ⟨r, hr, ⟨_, _, _, _, rfl⟩ | ⟨_, rfl⟩⟩ := hget hr'
    · exact h.announced j r hr
    · exact h.announced j r' hr
  · intro j r' hr'
    have hlen : (s.channels ++ [makeChan]).length = s.channels.length + 1 := by
      rw [List.length_append, List.length_singleton]
    obtain ⟨r, hr, ⟨_, _, _, _, rfl⟩ | ⟨_, rfl⟩⟩ := hget hr'
    · intro k hk
      cases hk
      refine ⟨?_, ?_⟩
      · show s.channels.length < (s.channels ++ [makeChan]).length
        omega
      · intro ip closed hch
        have hnew : (s.channels ++ [makeChan])[s.channels.length]? = some makeChan :=
          List.getElem?_concat_length
        cases hch.symm.trans hnew
    · intro k hk
      obtain ⟨hlt, hin⟩ := h.buffered j r' hr k hk
      refine ⟨?_, ?_⟩
      · show k < (s.channels ++ [makeChan]).length
        omega
      · intro ip closed hch
        apply hin ip closed
        rw [← hch]
        exact (List.getElem?_append_left hlt).symm
  · intro j r' hr'
    obtain ⟨r, hr, ⟨_, _, hnone, _, rfl⟩ | ⟨_, rfl⟩⟩ := hget hr'
    · intro hdel
      obtain ⟨_, ch, hch, _⟩ := h.abandoned j r hr hdel
      rw [hnone] at hch
      contradiction
    · intro hdel
      obtain ⟨hann, ch, hch, hor⟩ := h.abandoned j r' hr hdel
      refine ⟨hann, ch, hch, hor.imp_right ?_⟩
      intro hno P hP
      rcases waiters_addWaiter hP with ⟨_, hnew⟩ | hP
      · have := (h.buffered j r' hr ch hch).1
        omega
      · exact hno P hP
  · exact atLoop_of_unlocked h.loop hl rfl rfl
  · intro P ch hw
    rcases waiters_addWaiter hw with ⟨hP, hnew⟩ | hw
    · obtain ⟨r, hr⟩ : ∃ r, rs[i]? = some r :=
        ⟨_, List.getElem?_eq_getElem (by rw [h.length]; exact lt_of_getElem? hc)⟩
      refine ⟨i, _, { r with ch := some s.channels.length }, getElem?_set_eq hc, ?_, rfl, ?_, ?_⟩
      · rw [List.getElem?_mapIdx, hr]
        exact congrArg some (if_pos rfl)
      · exact (h.fits i _ r hc hr).1.symm.trans hP.symm
      · exact congrArg some hnew.symm
    · obtain ⟨j, c, r, hj, hr, hrun, hname, hch⟩ := h.owner P ch hw
      have hij : j ≠ i := by
        rintro rfl
        rw [(h.fits j _ r hc hr).2.1] at hch
        contradiction
      refine ⟨j, c, r, ?_, hset hr hij, hrun, hname, hch⟩
      rw [← hj]
      exact List.getElem?_set_ne (Ne.symm hij)
  · intro j k r₁ r₂ ch h₁ h₂ hch₁ hch₂
    obtain ⟨r, hr, ⟨rfl, _, _, _, rfl⟩ | ⟨hij, rfl⟩⟩ := hget h₁ <;>
      obtain ⟨r', hr', ⟨rfl, _, _, _, rfl⟩ | ⟨hik, rfl⟩⟩ := hget h₂
    · rfl
    · cases hch₁
      have := (h.buffered k r₂ hr' _ hch₂).1
      omega
    · cases hch₂
      have := (h.buffered j r₁ hr _ hch₁).1
      omega
    · exact h.unique j k r₁ r₂ ch hr hr' hch₁ hch₂

/-- A step that tells the history nothing. -/
theorem mapIdx_mark {a : Act} (rs : List Record) (h : ∀ i r, mark s a i r = r) :
    rs.mapIdx (mark s a) = rs.mapIdx fun _ r => r := by
  apply List.ext_getElem?
  intro i
  rw [List.getElem?_mapIdx, List.getElem?_mapIdx]
  cases rs[i]? with
  | none => rfl
  | some r => exact congrArg some (h i r)

theorem Kept.receive (h : Kept s rs) {i : Nat} {podName : GoString} {ch : Nat} {ip : GoString}
    {closed : Bool} (hc : s.calls[i]? = some (.select podName ch))
    (hch : s.channels[ch]? = some ⟨some ip, closed⟩)
    (hinv : Inv { s.setCall i (.removeWaiter podName ip true none) with
      channels := s.channels.set ch ⟨none, closed⟩ }) :
    Kept { s.setCall i (.removeWaiter podName ip true none) with
      channels := s.channels.set ch ⟨none, closed⟩ } (rs.mapIdx fun _ r => r) := by
  apply h.call (fun _ r => r) (fun _ _ _ => rfl) (fun r => ⟨r.took, rfl⟩) _ hinv hc rfl
  · intro r hr hfits
    obtain ⟨hname, hrch, htook⟩ := hfits
    refine ⟨hname, ?_⟩
    show r.took = false ∧ _
    exact ⟨htook, (h.buffered i r hr ch hrch).2 ip closed hch⟩
  · intro j r hr
    exact inBuffer_set closed (h.buffered j r hr) hch (.inl rfl)

theorem Kept.receiveClosed (h : Kept s rs) {i : Nat} {podName : GoString} {ch : Nat}
    (hc : s.calls[i]? = some (.select podName ch))
    (hinv : Inv (s.setCall i (.removeWaiter podName [] false none))) :
    Kept (s.setCall i (.removeWaiter podName [] false none)) (rs.mapIdx fun _ r => r) := by
  apply h.call (fun _ r => r) (fun _ _ _ => rfl) (fun r => ⟨r.took, rfl⟩) _ hinv hc rfl
  · intro r _ hfits
    obtain ⟨hname, _, htook⟩ := hfits
    exact ⟨hname, htook⟩
  · exact h.buffered

theorem Kept.ctxDone (h : Kept s rs) {i : Nat} {err : CtxErr} {podName : GoString} {ch : Nat}
    (hready : ∀ r, rs[i]? = some r → r.ctxEnded = true)
    (hc : s.calls[i]? = some (.select podName ch))
    (hinv : Inv (s.setCall i (.removeWaiter podName [] false (some err)))) :
    Kept (s.setCall i (.removeWaiter podName [] false (some err)))
      (rs.mapIdx (mark s (.ctxDone i err))) := by
  apply h.call (mark s (.ctxDone i err)) (fun _ _ hne => if_neg hne) (fun r => ⟨true, if_pos rfl⟩)
    _ hinv hc rfl
  · intro r hr hfits
    have hmark : mark s (.ctxDone i err) i r = { r with took := true } := if_pos rfl
    rw [hmark]
    exact ⟨hfits.1, hready r hr, rfl⟩
  · exact h.buffered

/-- Taking an entry out of the map, by its call or by the loop. -/
theorem Kept.removeWaiter (h : Kept s rs) (podName : GoString) {calls : List Call} {loop : Loop}
    (hinv : Inv { s.removeWaiter podName with calls := calls, loop := loop })
    (hlength : calls.length = s.calls.length)
    (hfits : ∀ (i : Nat) (c : Call) (r : Record), calls[i]? = some c → rs[i]? = some r → Fits r c)
    (hcalls : ∀ (i : Nat) (c : Call) (r : Record), s.calls[i]? = some c → rs[i]? = some r →
      c.running = true → r.podName ≠ podName → ∃ c', calls[i]? = some c' ∧ c'.running = true)
    (hloop : AtLoop { s.removeWaiter podName with calls := calls, loop := loop })
    (hgoes : ∀ P, s.loop = .removeWaiter P → loop = s.loop ∨ P = podName) :
    Kept { s.removeWaiter podName with calls := calls, loop := loop }
      (rs.mapIdx fun _ r => r) := by
  have hgone : (s.removeWaiter podName).waiters podName = none := by
    unfold State.removeWaiter
    cases hw : s.waiters podName with
    | none => exact hw
    | some ch => exact Function.update_self ..
  have hother : ∀ {P : GoString} {ch : Nat}, (s.removeWaiter podName).waiters P = some ch →
      s.waiters P = some ch := by
    intro P ch hw
    rcases removeWaiter_spec h.inv podName with ⟨_, heq⟩ | ⟨k, buf, _, _, heq⟩
    · rw [heq] at hw
      exact hw
    · rw [heq] at hw
      exact (update_none hw).2
  apply h.of_marks _ hinv (fun _ _ => ⟨rfl, rfl⟩) hlength hfits _ _ _ hloop
  · intro P ch hw
    refine ⟨hother hw, ?_⟩
    intro i c r hc hr hrun hname
    apply hcalls i c r hc hr hrun
    rw [hname]
    rintro rfl
    rw [hgone] at hw
    contradiction
  · intro i r hr
    show Announced (s.removeWaiter podName).processed r
    rw [(removeWaiter_frame s podName).2]
    exact h.announced i r hr
  · intro i r hr
    show InBuffer (s.removeWaiter podName).channels r
    rcases removeWaiter_spec h.inv podName with ⟨_, heq⟩ | ⟨k, buf, _, hch, heq⟩
    · rw [heq]
      exact h.buffered i r hr
    · rw [heq]
      exact inBuffer_set true (h.buffered i r hr) hch (.inr rfl)
  · intro i r hr hdel
    obtain ⟨hann, ch, hch, hor⟩ := h.abandoned i r hr hdel
    refine ⟨hann, ch, hch, ?_⟩
    rcases hor with hremoves | hno
    · rcases hgoes _ hremoves with heq | hname
      · exact .inl (heq.trans hremoves)
      · -- the entry that goes is the only one with this channel
        right
        intro P hP
        obtain ⟨j, c, r', hc, hr', hrun, hname', hch'⟩ := h.owner P ch (hother hP)
        obtain rfl := h.unique i j r r' ch hr hr' hch hch'
        rw [hr, Option.some.injEq] at hr'
        subst hr'
        rw [← hname', hname, hgone] at hP
        contradiction
    · right
      intro P hP
      exact hno P (hother hP)

theorem Kept.returns (h : Kept s rs) {i : Nat} {podName ip : GoString} {ok : Bool}
    {err : Option CtxErr} (hc : s.calls[i]? = some (.removeWaiter podName ip ok err))
    (hl : s.rLocked = false)
    (hinv : Inv ((s.removeWaiter podName).setCall i (.returned (waitResult ip ok err)))) :
    Kept ((s.removeWaiter podName).setCall i (.returned (waitResult ip ok err)))
      (rs.mapIdx fun _ r => r) := by
  have hframe := removeWaiter_frame s podName
  have hcalls : (s.removeWaiter podName).calls = s.calls := by
    rcases removeWaiter_spec h.inv podName with ⟨_, heq⟩ | ⟨k, buf, _, _, heq⟩ <;> rw [heq]
  have hstate : (s.removeWaiter podName).setCall i (.returned (waitResult ip ok err)) =
      { s.removeWaiter podName with
        calls := s.calls.set i (.returned (waitResult ip ok err)), loop := s.loop } := by
    rw [State.setCall, hcalls, ← hframe.1]
  rw [hstate] at hinv ⊢
  apply h.removeWaiter podName hinv List.length_set
  · intro j c r hj hr
    rcases getElem?_set_some hj with ⟨rfl, rfl⟩ | ⟨_, hj⟩
    · exact (h.fits i _ r hc hr).2
    · exact h.fits j c r hj hr
  · intro j c r hj hr hrun hne
    have hij : i ≠ j := by
      rintro rfl
      exact hne (h.fits i _ r hc hr).1.symm
    refine ⟨c, ?_, hrun⟩
    rw [List.getElem?_set_ne hij]
    exact hj
  · exact atLoop_of_unlocked h.loop hl rfl hframe.2
  · intro P _
    exact .inl rfl

theorem Kept.deletePod (h : Kept s rs) {podName : GoString} (hl : s.loop = .removeWaiter podName)
    (hinv : Inv { s.removeWaiter podName with loop := .idle }) :
    Kept { s.removeWaiter podName with loop := .idle } (rs.mapIdx fun _ r => r) := by
  have hcalls : (s.removeWaiter podName).calls = s.calls := by
    rcases removeWaiter_spec h.inv podName with ⟨_, heq⟩ | ⟨k, buf, _, _, heq⟩ <;> rw [heq]
  have hstate : { s.removeWaiter podName with loop := .idle } =
      { s.removeWaiter podName with calls := s.calls, loop := .idle } := by
    rw [← hcalls]
  rw [hstate] at hinv ⊢
  apply h.removeWaiter podName hinv rfl h.fits _ trivial
  · intro P hP
    rw [hl] at hP
    cases hP
    exact .inr rfl
  · intro i c r hc _ hrun _
    exact ⟨c, hc, hrun⟩

/-! ### The events -/

theorem mark_event {e : Event} (he : ∀ pod, e.object = some pod → e.type ≠ .deleted) (i : Nat)
    (r : Record) : mark s (.event e) i r = r := by
  obtain ⟨type, object⟩ := e
  cases object with
  | none => cases type <;> rfl
  | some pod =>
    cases type with
    | deleted => exact absurd rfl (he pod rfl)
    | _ => rfl

/-- The loop takes an event that is not a deletion. -/
theorem Kept.event (h : Kept s rs) (hl : s.loop = .idle) {e : Event} {loop : Loop}
    {podsReady : GoString → Bool}
    (hinv : Inv { s with processed := e :: s.processed, podsReady := podsReady, loop := loop })
    (hloop : AtLoop { s with
      processed := e :: s.processed, podsReady := podsReady, loop := loop }) :
    Kept { s with processed := e :: s.processed, podsReady := podsReady, loop := loop }
      (rs.mapIdx fun _ r => r) := by
  apply h.loopStep _ hinv (fun _ _ => ⟨rfl, rfl⟩) rfl rfl (fun _ _ _ _ _ hfits => hfits) _
    h.buffered _ hloop
  · intro i r hr pod hpod
    obtain ⟨hname, hready, hmem⟩ := h.announced i r hr pod hpod
    exact ⟨hname, hready, List.mem_cons_of_mem e hmem⟩
  · intro i r hr hdel
    obtain ⟨hann, ch, hch, hor⟩ := h.abandoned i r hr hdel
    refine ⟨hann, ch, hch, .inr ?_⟩
    rcases hor with hremoves | hno
    · rw [hl] at hremoves
      contradiction
    · exact hno

theorem fits_deletedFirst {r : Record} {c : Call} (h : Fits r c) (b : Bool) :
    Fits { r with deletedFirst := b } c := by
  have houtcome : ∀ {res : Except WaitError GoString}, Outcome r res →
      Outcome { r with deletedFirst := b } res := by
    intro res hres
    cases res with
    | ok ip => exact hres
    | error err => cases err <;> exact hres
  cases c with
  | addWaiter podName => exact h
  | select podName ch => exact h
  | removeWaiter podName ip ok err => exact ⟨h.1, houtcome h.2⟩
  | returned result => exact houtcome h

theorem Kept.deleted (h : Kept s rs) (hl : s.loop = .idle) (pod : Pod)
    (hinv : Inv { s with
      processed := ⟨.deleted, some pod⟩ :: s.processed,
      podsReady := Function.update s.podsReady pod.name false,
      loop := .removeWaiter pod.name }) :
    Kept { s with
           processed := ⟨.deleted, some pod⟩ :: s.processed,
           podsReady := Function.update s.podsReady pod.name false,
           loop := .removeWaiter pod.name }
      (rs.mapIdx (mark s (.event ⟨.deleted, some pod⟩))) := by
  have hmark : ∀ i r, mark s (.event ⟨.deleted, some pod⟩) i r =
      if r.podName = pod.name ∧ r.ch ≠ none ∧ s.waiters pod.name = r.ch ∧ r.announced = [] then
        { r with deletedFirst := true }
      else r := fun _ _ => rfl
  apply h.loopStep _ hinv _ rfl rfl _ _ _ _ trivial
  · intro i r
    rw [hmark]
    split
    · exact ⟨rfl, rfl⟩
    · exact ⟨rfl, rfl⟩
  · intro i c r _ _ hfits
    rw [hmark]
    split
    · exact fits_deletedFirst hfits true
    · exact hfits
  · intro i r hr
    have hann : Announced (⟨.deleted, some pod⟩ :: s.processed) r := by
      intro p hp
      obtain ⟨hname, hready, hmem⟩ := h.announced i r hr p hp
      exact ⟨hname, hready, List.mem_cons_of_mem _ hmem⟩
    rw [hmark]
    split
    · exact hann
    · exact hann
  · intro i r hr
    rw [hmark]
    split
    · exact h.buffered i r hr
    · exact h.buffered i r hr
  · intro i r hr
    rw [hmark]
    split
    · rename_i hfirst
      intro _
      obtain ⟨ch, hch⟩ := Option.ne_none_iff_exists'.mp hfirst.2.1
      refine ⟨hfirst.2.2.2, ch, hch, .inl ?_⟩
      show Loop.removeWaiter pod.name = Loop.removeWaiter r.podName
      rw [hfirst.1]
    · intro hdel
      obtain ⟨hann, ch, hch, hor⟩ := h.abandoned i r hr hdel
      refine ⟨hann, ch, hch, .inr ?_⟩
      rcases hor with hremoves | hno
      · rw [hl] at hremoves
        contradiction
      · exact hno

/-- The loop moves on between its event and its send. -/
theorem Kept.moves (h : Kept s rs) {loop : Loop} (hl : ∀ P, s.loop ≠ .removeWaiter P)
    (hinv : Inv { s with loop := loop }) (hloop : AtLoop { s with loop := loop }) :
    Kept { s with loop := loop } (rs.mapIdx fun _ r => r) := by
  apply h.loopStep _ hinv (fun _ _ => ⟨rfl, rfl⟩) rfl rfl (fun _ _ _ _ _ hfits => hfits)
    h.announced h.buffered _ hloop
  intro i r hr hdel
  obtain ⟨hann, ch, hch, hor⟩ := h.abandoned i r hr hdel
  refine ⟨hann, ch, hch, .inr ?_⟩
  rcases hor with hremoves | hno
  · exact absurd hremoves (hl r.podName)
  · exact hno

theorem Kept.notify (h : Kept s rs) {podName ip : GoString} {ch : Nat}
    (hl : s.loop = .notifyWaiter podName ip) (hw : s.waiters podName = some ch)
    (hinv : Inv { s with loop := .sending ch ip }) :
    Kept { s with loop := .sending ch ip } (rs.mapIdx fun _ r => r) := by
  apply h.moves _ hinv
  · have hloop := h.loop
    unfold AtLoop at hloop
    rw [hl] at hloop
    obtain ⟨pod, rest, hprocessed, hready, hname, hip⟩ := hloop
    exact ⟨pod, rest, hprocessed, hready, by rw [hname]; exact hw, hip⟩
  · intro P hP
    rw [hl] at hP
    contradiction

theorem fits_announced {r : Record} {c : Call} (h : Fits r c) (pod : Pod) :
    Fits { r with announced := r.announced ++ [pod] } c := by
  have houtcome : ∀ {res : Except WaitError GoString}, Outcome r res →
      Outcome { r with announced := r.announced ++ [pod] } res := by
    intro res hres
    cases res with
    | ok ip =>
      obtain ⟨htook, p, hp, hip⟩ := hres
      exact ⟨htook, p, List.mem_append_left _ hp, hip⟩
    | error err => cases err <;> exact hres
  cases c with
  | addWaiter podName => exact h
  | select podName ch => exact h
  | removeWaiter podName ip ok err => exact ⟨h.1, houtcome h.2⟩
  | returned result => exact houtcome h

/-- Only the registered channel of the pod of the last event is sent to. -/
theorem Kept.send (h : Kept s rs) {ch : Nat} {ip : GoString} (hl : s.loop = .sending ch ip)
    (hch : s.channels[ch]? = some ⟨none, false⟩)
    (hinv : Inv { s with channels := s.channels.set ch ⟨some ip, false⟩, loop := .idle }) :
    Kept { s with channels := s.channels.set ch ⟨some ip, false⟩, loop := .idle }
      (rs.mapIdx (mark s .send)) := by
  have hloop := h.loop
  unfold AtLoop at hloop
  rw [hl] at hloop
  obtain ⟨pod, rest, hprocessed, hready, hw, hip⟩ := hloop
  have hmark : ∀ i r, mark s .send i r =
      if r.ch = some ch then { r with announced := r.announced ++ [pod] } else r := by
    intro i r
    rw [mark, hl, hprocessed]
  have hname : ∀ (i : Nat) (r : Record), rs[i]? = some r → r.ch = some ch →
      pod.name = r.podName := by
    intro i r hr hrch
    obtain ⟨j, c, r', _, hr', _, hname, hch'⟩ := h.owner pod.name ch hw
    obtain rfl := h.unique i j r r' ch hr hr' hrch hch'
    rw [hr, Option.some.injEq] at hr'
    rw [hr', hname]
  apply h.loopStep _ hinv _ rfl rfl _ _ _ _ trivial
  · intro i r
    rw [hmark]
    split
    · exact ⟨rfl, rfl⟩
    · exact ⟨rfl, rfl⟩
  · intro i c r _ _ hfits
    rw [hmark]
    split
    · exact fits_announced hfits pod
    · exact hfits
  · intro i r hr
    rw [hmark]
    split
    · rename_i hrch
      apply forall_mem_append (h.announced i r hr)
      intro p hp
      rw [List.mem_singleton] at hp
      subst hp
      refine ⟨hname i r hr hrch, hready, ?_⟩
      show ⟨.modified, some p⟩ ∈ s.processed
      rw [hprocessed]
      exact List.mem_cons_self
    · exact h.announced i r hr
  · intro i r hr
    rw [hmark]
    split
    · rename_i hrch
      intro k hk
      obtain ⟨hlt, _⟩ := h.buffered i r hr k hk
      refine ⟨by rwa [List.length_set], ?_⟩
      intro ip' closed hget
      cases hrch.symm.trans hk
      cases (getElem?_set_eq hch).symm.trans hget
      exact ⟨pod, List.mem_append_right _ (List.mem_singleton_self pod), hip⟩
    · rename_i hne
      intro k hk
      obtain ⟨hlt, hin⟩ := h.buffered i r hr k hk
      have hck : ch ≠ k := by
        rintro rfl
        exact hne hk
      refine ⟨by rwa [List.length_set], ?_⟩
      intro ip' closed hget
      apply hin ip' closed
      rw [← hget]
      exact (List.getElem?_set_ne hck).symm
  · intro i r hr
    have hold := h.abandoned i r hr
    have hno : ∀ k, r.ch = some k → r.deletedFirst = true → ∀ P, s.waiters P ≠ some k := by
      intro k hk hdel
      obtain ⟨_, k', hk', hor⟩ := hold hdel
      cases hk.symm.trans hk'
      rcases hor with hremoves | hno
      · rw [hl] at hremoves
        contradiction
      · exact hno
    rw [hmark]
    split
    · rename_i hrch
      intro hdel
      exact absurd hw (hno ch hrch hdel pod.name)
    · intro hdel
      obtain ⟨hann, k, hk, _⟩ := hold hdel
      exact ⟨hann, k, hk, .inr (hno k hk hdel)⟩

theorem note_of_mark {a : Act} (ha : ∀ podName, a ≠ .waitPodReady podName)
    (hmark : ∀ i r, mark s a i r = r) : note s a rs = rs.mapIdx fun _ r => r := by
  rw [← mapIdx_mark rs hmark]
  cases a with
  | waitPodReady podName => exact absurd rfl (ha podName)
  | _ => rfl

theorem step_kept {a : Act} (h : Kept s rs) (hs : step s a = some s')
    (hready : ∀ i err, a = .ctxDone i err → ∀ r, rs[i]? = some r → r.ctxEnded = true) :
    Kept s' (note s a rs) := by
  have hinv := step_inv h.inv hs
  cases (step_sound hs).2 with
  | waitPodReady podName => exact h.waitPodReady podName hinv
  | addWaiter i podName hc hl => exact h.addWaiter hc hl hinv
  | receive i podName ch ip closed hc hch => exact h.receive hc hch hinv
  | receiveClosed i podName ch hc => exact h.receiveClosed hc hinv
  | ctxDone i err podName ch hc => exact h.ctxDone (hready i err rfl) hc hinv
  | removeWaiter i podName ip ok err hc hl => exact h.returns hc hl hinv
  | ignored e hl hq =>
    rw [note_of_mark (by simp) (mark_event fun pod hpod => (hq pod hpod).1)]
    have hstate : { s with processed := e :: s.processed } =
        { s with processed := e :: s.processed, podsReady := s.podsReady, loop := .idle } := by
      rw [← hl]
    rw [hstate] at hinv ⊢
    exact h.event hl hinv trivial
  | added pod hl =>
    rw [note_of_mark (by simp) (fun _ _ => rfl)]
    have hstate : ∀ podsReady, { s with
        processed := ⟨.added, some pod⟩ :: s.processed, podsReady := podsReady } =
        { s with
          processed := ⟨.added, some pod⟩ :: s.processed, podsReady := podsReady, loop := .idle } := by
      intro podsReady
      rw [← hl]
    rw [hstate] at hinv ⊢
    exact h.event hl hinv trivial
  | ready pod hl hn =>
    rw [note_of_mark (by simp) (fun _ _ => rfl)]
    exact h.event hl hinv ⟨pod, s.processed, rfl, hn.2.2, rfl, rfl⟩
  | deleted pod hl => exact h.deleted hl pod hinv
  | closed hl =>
    rw [note_of_mark (by simp) (fun _ _ => rfl)]
    exact h.moves (by rw [hl]; simp) hinv trivial
  | notify podName ip ch hl hw => exact h.notify hl hw hinv
  | nobody podName ip hl hw =>
    rw [note_of_mark (by simp) (fun _ _ => rfl)]
    exact h.moves (by rw [hl]; simp) hinv trivial
  | send ch ip hl hch => exact h.send hl hch hinv
  | sendClosed ch ip c hl hch hclosed =>
    have := hinv.alive
    contradiction
  | deletePod podName hl => exact h.deletePod hl hinv

theorem outcome_ctxEnded {r : Record} {res : Except WaitError GoString} (h : Outcome r res) :
    Outcome { r with ctxEnded := true } res := by
  cases res with
  | ok ip => exact h
  | error err =>
    cases err with
    | watcherClosed => exact h
    | ctx err => exact ⟨rfl, h.2⟩

theorem Kept.ctxEnds (h : Kept s rs) (i : Nat) :
    Kept s (rs.mapIdx fun j r => if j = i then { r with ctxEnded := true } else r) := by
  apply h.of_marks _ h.inv _ rfl _ _ _ _ h.loop
  · intro P ch hw
    exact ⟨hw, fun j c r hc _ hrun _ => ⟨c, hc, hrun⟩⟩
  · intro j r
    split
    · exact ⟨rfl, rfl⟩
    · exact ⟨rfl, rfl⟩
  · intro j c r hc hr
    have hfits := h.fits j c r hc hr
    split
    · cases c with
      | addWaiter podName => exact hfits
      | select podName ch => exact hfits
      | removeWaiter podName ip ok err => exact ⟨hfits.1, outcome_ctxEnded hfits.2⟩
      | returned result => exact outcome_ctxEnded hfits
    · exact hfits
  · intro j r hr
    split
    · exact h.announced j r hr
    · exact h.announced j r hr
  · intro j r hr
    split
    · exact h.buffered j r hr
    · exact h.buffered j r hr
  · intro j r hr
    split
    · exact h.abandoned j r hr
    · exact h.abandoned j r hr

end

/-! ## Every run -/

theorem watchStep_cases {s s' : Watch} {a : Act} (hs : watchStep s (.step a) = some s') :
    ∃ w, step s.w a = some w ∧ s' = ⟨w, note s.w a s.records⟩ ∧
      ∀ i err, a = .ctxDone i err → CtxReady s i = true := by
  have hmap : ∀ {b : Act}, (step s.w b).map (fun w => (⟨w, note s.w b s.records⟩ : Watch)) = some s' →
      ∃ w, step s.w b = some w ∧ s' = ⟨w, note s.w b s.records⟩ := by
    intro b hb
    rw [Option.map_eq_some_iff] at hb
    obtain ⟨w, hw, rfl⟩ := hb
    exact ⟨w, hw, rfl⟩
  cases a with
  | ctxDone i err =>
    rw [watchStep] at hs
    split at hs
    · rename_i hready
      obtain ⟨w, hw, hs'⟩ := hmap hs
      refine ⟨w, hw, hs', ?_⟩
      intro j err' heq
      cases heq
      exact hready
    · contradiction
  | _ =>
    obtain ⟨w, hw, hs'⟩ := hmap hs
    refine ⟨w, hw, hs', ?_⟩
    intro i err heq
    contradiction

theorem watchStep_kept {s s' : Watch} {a : WatchAct} (h : Kept s.w s.records)
    (hs : watchStep s a = some s') : Kept s'.w s'.records := by
  cases a with
  | ctxEnds i =>
    cases hs
    exact h.ctxEnds i
  | step a =>
    obtain ⟨w, hw, rfl, hready⟩ := watchStep_cases hs
    apply step_kept h hw
    intro i err heq r hr
    have := hready i err heq
    rw [CtxReady, hr] at this
    exact this

/-- No step changes for which pod a call is. -/
theorem names_watchStep {s s' : Watch} {a : WatchAct} (hs : watchStep s a = some s') :
    s'.records.map Record.podName = s.records.map Record.podName ∨
      ∃ podName, a = .step (.waitPodReady podName) ∧
        s'.records.map Record.podName = s.records.map Record.podName ++ [podName] := by
  have hmapIdx : ∀ {m : Nat → Record → Record}, (∀ i r, (m i r).podName = r.podName) →
      (s.records.mapIdx m).map Record.podName = s.records.map Record.podName := by
    intro m hm
    apply List.ext_getElem?
    intro i
    rw [List.getElem?_map, List.getElem?_mapIdx, List.getElem?_map, Option.map_map]
    congr 1
    funext r
    exact hm i r
  have hmark : ∀ (b : Act) (i : Nat) (r : Record), (mark s.w b i r).podName = r.podName := by
    intro b i r
    unfold mark
    split
    · split <;> rfl
    · split <;> rfl
    · split
      · split <;> rfl
      · rfl
    · split <;> rfl
    · rfl
  cases a with
  | ctxEnds i =>
    cases hs
    left
    apply hmapIdx
    intro j r
    split <;> rfl
  | step b =>
    obtain ⟨w, _, rfl, _⟩ := watchStep_cases hs
    cases b with
    | waitPodReady podName =>
      right
      refine ⟨podName, rfl, ?_⟩
      rw [note, List.map_append]
      rfl
    | _ => exact .inl (hmapIdx (hmark _))

structure WatchInv (s : Watch) : Prop where
  kept : Kept s.w s.records
  names : (s.records.map Record.podName).Nodup

theorem reach_watchInv {s : Watch} (h : watchMachine.Reach DifferentPods s) : WatchInv s := by
  apply h.invariant
  · exact ⟨kept_init, List.nodup_nil⟩
  · intro t a t' hi hd hs
    refine ⟨watchStep_kept hi.kept hs, ?_⟩
    rcases names_watchStep hs with heq | ⟨podName, rfl, heq⟩
    · rw [heq]
      exact hi.names
    · rw [heq, List.nodup_append]
      refine ⟨hi.names, by simp, ?_⟩
      intro P hP Q hQ
      rw [List.mem_singleton] at hQ
      rw [hQ]
      rintro rfl
      exact hd hP

/-- What the callers of `WaitPodReady` can rely on. -/
structure Handled (s : Watch) : Prop where
  /-- No send met a closed channel, and no close. -/
  alive : s.w.panicked = false
  ready : ∀ (i : Nat) (r : Record) (ip : GoString),
    s.w.calls[i]? = some (.returned (.ok ip)) → s.records[i]? = some r →
      ∃ pod ∈ r.announced, ⟨.modified, some pod⟩ ∈ s.w.processed ∧ pod.name = r.podName ∧
        pod.allReady = true ∧ pod.podIP = ip
  fails : ∀ (i : Nat) (r : Record) (result : Except WaitError GoString),
    s.w.calls[i]? = some (.returned result) → s.records[i]? = some r →
      r.deletedFirst = true ∨ r.took = true → ∃ err, result = .error err
  ended : ∀ (i : Nat) (r : Record) (err : CtxErr),
    s.w.calls[i]? = some (.returned (.error (.ctx err))) → s.records[i]? = some r →
      r.ctxEnded = true
  gone : ∀ (i : Nat) (r : Record) (result : Except WaitError GoString),
    s.w.calls[i]? = some (.returned result) → s.records[i]? = some r →
      s.w.waiters r.podName = none

theorem WatchInv.gone {s : Watch} (h : WatchInv s) {i : Nat} {r : Record}
    {result : Except WaitError GoString} (hc : s.w.calls[i]? = some (.returned result))
    (hr : s.records[i]? = some r) : s.w.waiters r.podName = none := by
  cases hw : s.w.waiters r.podName with
  | none => rfl
  | some ch =>
    obtain ⟨j, c, r', hc', hr', hrun, hname, _⟩ := h.kept.owner r.podName ch hw
    have hmap : ∀ {k : Nat} {q : Record}, s.records[k]? = some q →
        (s.records.map Record.podName)[k]? = some q.podName := by
      intro k q hq
      rw [List.getElem?_map, hq]
      rfl
    have hij : i = j := by
      apply (List.getElem?_inj _ h.names).mp
      · rw [hmap hr, hmap hr', hname]
      · rw [List.length_map]
        exact lt_of_getElem? hr
    subst hij
    rw [hc, Option.some.injEq] at hc'
    subst hc'
    contradiction

/-- Waiter channels are handled safely in every run whose calls are for different pods. -/
theorem waiters_handled {s : Watch} (h : watchMachine.Reach DifferentPods s) : Handled s := by
  have hi := reach_watchInv h
  have hk := hi.kept
  constructor
  · exact hk.inv.alive
  · intro i r ip hc hr
    obtain ⟨_, pod, hpod, hip⟩ := hk.fits i _ r hc hr
    obtain ⟨hname, hready, hmem⟩ := hk.announced i r hr pod hpod
    exact ⟨pod, hpod, hmem, hname, hready, hip⟩
  · intro i r result hc hr hor
    have hfits : Outcome r result := hk.fits i _ r hc hr
    cases result with
    | error err => exact ⟨err, rfl⟩
    | ok ip =>
      obtain ⟨htook, pod, hpod, _⟩ := hfits
      rcases hor with hdel | hended
      · rw [(hk.abandoned i r hr hdel).1] at hpod
        exact absurd hpod List.not_mem_nil
      · rw [htook] at hended
        contradiction
  · intro i r err hc hr
    have hfits : Outcome r (.error (.ctx err)) := hk.fits i _ r hc hr
    exact hfits.1
  · intro i r result hc hr
    exact hi.gone hc hr

/-- Two calls: the one is sent the address of its pod and receives it, the other is told
of the deletion of its pod. -/
def readyAndDeleted : List WatchAct :=
  [.step (.waitPodReady (bytes "p")), .step (.waitPodReady (bytes "q")), .step (.addWaiter 0),
   .step (.addWaiter 1), .step (.event ⟨.modified, some (samplePod true)⟩), .step .notifyWaiter,
   .step .send, .step (.event ⟨.deleted, some { samplePod false with name := bytes "q" }⟩),
   .step .deletePod, .step (.receive 0), .step (.receive 1), .step (.removeWaiter 0),
   .step (.removeWaiter 1)]

theorem waiters_handled_readyAndDeleted :
    ∃ s : Watch, watchMachine.run watchMachine.init readyAndDeleted = some s ∧ Handled s ∧
      s.w.calls.length = 2 ∧ s.records.map Record.deletedFirst = [false, true] := by
  refine ⟨_, rfl, ?_, rfl, rfl⟩
  apply waiters_handled
  apply Machine.leads_of_run readyAndDeleted _ rfl
  refine ⟨List.not_mem_nil, ?_, trivial, trivial, trivial, trivial, trivial, trivial, trivial,
    trivial, trivial, trivial, trivial, trivial⟩
  show bytes "q" ∉ [bytes "p"]
  decide

/-- The context of the call has ended or its pod was deleted, and no event has shown the
pod ready. -/
def Over (s : Watch) (r : Record) : Prop :=
  (r.ctxEnded = true ∨ ∃ pod, ⟨.deleted, some pod⟩ ∈ s.w.processed ∧ pod.name = r.podName) ∧
    ∀ pod, ⟨.modified, some pod⟩ ∈ s.w.processed → pod.name = r.podName → pod.allReady = false

/-- The call is registered and its context ends. -/
def contextEnds : List WatchAct :=
  [.step (.waitPodReady (bytes "p")), .step (.addWaiter 0), .ctxEnds 0]

/-- The pod is deleted after the call has begun and before it is registered. -/
def deletedEarly : List WatchAct :=
  [.step (.waitPodReady (bytes "p")), .step (.event ⟨.deleted, some (samplePod true)⟩),
   .step .deletePod, .step (.addWaiter 0)]

/-- The pod is shown ready, and the call takes its address. -/
def takesAddress : List WatchAct :=
  [.step (.event ⟨.modified, some (samplePod true)⟩), .step .notifyWaiter, .step .send,
   .step (.receive 0), .step (.removeWaiter 0)]

/-- Either end comes first, and the call returns the address all the same: `select` takes
any of the channels that are ready, and a deletion finds nobody before the registration. -/
theorem address_after_end :
    (∃ s t : Watch, watchMachine.run watchMachine.init contextEnds = some s ∧
      s.records.map Record.ctxEnded = [true] ∧ s.w.processed = [] ∧
      watchMachine.run s takesAddress = some t ∧
      t.w.calls[0]? = some (.returned (.ok (bytes "10.0.0.1")))) ∧
    (∃ s t : Watch, watchMachine.run watchMachine.init deletedEarly = some s ∧
      s.w.processed = [⟨.deleted, some (samplePod true)⟩] ∧
      watchMachine.run s takesAddress = some t ∧
      t.w.calls[0]? = some (.returned (.ok (bytes "10.0.0.1")))) ∧
    ¬ ∀ (s t : Watch) (i : Nat) (r : Record) (result : Except WaitError GoString),
        watchMachine.Reach DifferentPods s → watchMachine.Leads DifferentPods s t →
        s.records[i]? = some r → Over s r → t.w.calls[i]? = some (.returned result) →
          ∃ err, result = .error err := by
  refine ⟨⟨_, _, rfl, rfl, rfl, rfl, rfl⟩, ⟨_, _, rfl, rfl, rfl, rfl⟩, ?_⟩
  intro h
  obtain ⟨s, hs⟩ : ∃ s, watchMachine.run watchMachine.init contextEnds = some s := ⟨_, rfl⟩
  obtain ⟨t, ht⟩ : ∃ t, watchMachine.run s takesAddress = some t := by
    cases hs
    exact ⟨_, rfl⟩
  have hreach : watchMachine.Reach DifferentPods s :=
    Machine.leads_of_run contextEnds ⟨List.not_mem_nil, trivial, trivial, trivial⟩ hs
  have hleads : watchMachine.Leads DifferentPods s t := by
    apply Machine.leads_of_run takesAddress _ ht
    cases hs
    exact ⟨trivial, trivial, trivial, trivial, trivial, trivial⟩
  cases hs
  cases ht
  obtain ⟨err, herr⟩ := h _ _ 0 _ _ hreach hleads rfl
    ⟨.inl rfl, fun pod hpod => absurd hpod List.not_mem_nil⟩ rfl
  contradiction

end Selebrow.Kubernetes
