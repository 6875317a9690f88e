import Selebrow.Controllers.Session
import Selebrow.Session.Ownership

/-!
# Balance of the session events

A session that was created has one `SessionRequested` without an error, and a session
that was removed has one `SessionReleased`.  The webdriver controller publishes the
second without knowing whether the service removed anything, and the clean-up and the
UI remove sessions without publishing.  The events balance in the runs in which the
call that removes a session is one that publishes, and the other way round.
-/

namespace Selebrow.Controllers

open Transition Session

/-- Published for the session of browser `b`. -/
def Event.releases (b : Nat) : Event → Bool
  | .sessionReleased _ sess => sess.br == b
  | _ => false

/-- Published for request `i`, without an error. -/
def Event.requests (i : Nat) : Event → Bool
  | .sessionRequested _ (some j) none => j == i
  | _ => false

namespace State

def released (s : State) (b : Nat) : Nat := s.events.countP (Event.releases b)

def requested (s : State) (i : Nat) : Nat := s.events.countP (Event.requests i)

/-- Request `i` has created a session. -/
def Created (s : State) (i : Nat) : Prop :=
  (∃ protocol sess, s.srv.calls[i]? = some (Call.created protocol sess)) ∨
    ∃ removed, s.requests[i]? = some ⟨.disconnected, removed⟩

end State

structure Balanced (s : State) : Prop where
  /-- A create request that has published, for a session that it created. -/
  requested : ∀ (i : Nat) (r : Request), s.requests[i]? = some r →
    (∀ protocol, r.handler ≠ .creating protocol) → s.Created i → s.requested i = 1
  requestedOnce : ∀ i, s.requested i ≤ 1
  released : ∀ b ∈ s.removed, s.released b = 1
  releasedOnce : ∀ b, s.released b ≤ 1

/-- The service's call for a `DELETE` request removes the session, a clean-up or a reset
removes only a session whose `SessionReleased` was published, and the webdrivers answer
with fresh ids. -/
def RemoverPublishes (s : State) : Act → Prop
  | .service a => FreshId s.srv a
  | .delete i =>
    ∀ (r : Request) (protocol : BrowserProtocol) (sess : Session) (rest : List Session),
      s.requests[i]? = some r → s.srv.calls[i]? = some (Call.delete protocol sess rest) →
        match r.handler with
        | .deleting _ => (s.srv.storage.get protocol sess.id).isSome = true
        | .resetting | .cleaning =>
          (s.srv.storage.get protocol sess.id).isSome = true → 1 ≤ s.released sess.br
        | _ => True
  | _ => True

/-! ## What is still to be published -/

/-- A session of browser `b` that the call creates, or has created for a playwright
connection. -/
def unreleased (b : Nat) : Session.Call → Nat
  | .waitStarted _ br | .proxyCreate br => if br = b then 1 else 0
  | .add _ sess | .created .playwright sess => if sess.br = b then 1 else 0
  | _ => 0

/-- The controller is bound to publish for the session of browser `b`. -/
def Request.owes (b : Nat) : Request → Nat
  | ⟨.deleting _, some br⟩ => if br = b then 1 else 0
  | _ => 0

/-- The places in the services from where browser `b` can come to a `SessionReleased`. -/
def ahead (srv : Session.State) (b : Nat) : Nat :=
  tally (unreleased b) srv.calls + tally (keeps b) (srv.storage.entries .webdriver) +
    if b < srv.browsers then 0 else 1

def State.total (s : State) (b : Nat) : Nat :=
  s.released b + tally (Request.owes b) s.requests + ahead s.srv b

/-- The call deletes sessions, or has done so. -/
def removes : Session.Call → Bool
  | .delete _ _ _ | .deleted _ _ _ | .cleanup _ | .done => true
  | _ => false

/-- What the call of a request is, given what was published. -/
def Request.Fits (rel : Nat → Nat) (r : Request) (c : Session.Call) : Prop :=
  match r.handler with
  | .creating _ => (inCreate c = true ∨ ∃ protocol sess, c = .created protocol sess) ∧ r.removed = none
  | .created => (∃ protocol sess, c = .created protocol sess) ∧ r.removed = none
  | .notCreated => inCreate c = true ∧ r.removed = none
  | .disconnected =>
    (c = .done ∧ r.removed = none) ∨
      ∃ sess : Session, 1 ≤ rel sess.br ∧
        ((c = .delete .playwright sess [] ∧ r.removed = none) ∨
          (c = .deleted .playwright sess [] ∧ r.removed = some sess.br))
  | .deleting sess =>
    (c = .delete .webdriver sess [] ∧ r.removed = none) ∨
      ((c = .deleted .webdriver sess [] ∨ c = .done) ∧ r.removed = some sess.br)
  | .deleted => c = .done ∧ r.removed = none
  | .resetting | .cleaning => removes c = true ∧ ∀ b, r.removed = some b → 1 ≤ rel b

/-- `SessionRequested` was published without an error. -/
def Handler.published : Handler → Nat
  | .created | .disconnected => 1
  | _ => 0

def State.published (s : State) (i : Nat) : Nat :=
  match s.requests[i]? with
  | some r => r.handler.published
  | none => 0

structure Inv (ids : FreshSupply GoString) (s : State) : Prop where
  srv : Session.Inv ids s.srv
  length : s.requests.length = s.srv.calls.length
  fits : ∀ (i : Nat) (r : Request) (c : Session.Call), s.requests[i]? = some r →
    s.srv.calls[i]? = some c → r.Fits s.released c
  once : ∀ b, s.total b ≤ 1
  removed : ∀ b ∈ s.removed, 1 ≤ s.released b
  requested : ∀ i, s.requested i = s.published i

theorem init_inv (ids : FreshSupply GoString) : Inv ids State.init := by
  refine ⟨Session.init_inv ids, rfl, ?_, fun b => ?_, ?_, fun i => rfl⟩
  · intro i r c hr
    exact absurd (lt_of_getElem? hr) (Nat.not_lt_zero i)
  · show (if b < 0 then 0 else 1) ≤ 1
    split <;> omega
  · intro b hb
    exact absurd hb List.not_mem_nil

variable {cfg : Config} {ids : FreshSupply GoString} {s s' : State}

/-! ## Steps of the services -/

theorem ahead_append (srv : Session.State) {c : Session.Call} (hc : ∀ b, unreleased b c = 0) (b : Nat) :
    ahead { srv with calls := srv.calls ++ [c] } b = ahead srv b := by
  simp only [ahead, tally_append, tally_cons, tally_nil, hc, Nat.add_zero]

theorem ahead_set {srv : Session.State} (srv' : Session.State) {i : Nat} {c c' : Session.Call}
    (hc : srv.calls[i]? = some c) (hcalls : srv'.calls = srv.calls.set i c')
    (hs : srv'.storage.entries .webdriver = srv.storage.entries .webdriver)
    (hb : srv'.browsers = srv.browsers) (b : Nat) :
    ahead srv' b + unreleased b c = ahead srv b + unreleased b c' := by
  have := tally_set (unreleased b) c' hc
  rw [ahead, ahead, hcalls, hs, hb]
  omega

theorem continueCleanup_unreleased (b : Nat) (rest : List Session) :
    unreleased b (continueCleanup rest) = 0 := by
  cases rest <;> rfl

theorem continueCleanup_removes (rest : List Session) : removes (continueCleanup rest) = true := by
  cases rest <;> rfl

/-- A call that moves on by itself stays in `CreateSession` or creates a session, or goes
on with its clean-up. -/
theorem service_call {a : Session.Act} {i : Nat} {srv srv' : Session.State}
    (ha : serviceCall a = some i) (h : Session.step cfg ids srv a = some srv') :
    ∃ c c', srv.calls[i]? = some c ∧ srv'.calls = srv.calls.set i c' ∧
      ((inCreate c = true ∧ (inCreate c' = true ∨ ∃ protocol sess, c' = .created protocol sess)) ∨
        ((∃ rest, c = .cleanup rest) ∧ removes c' = true)) := by
  cases Session.step_sound h with
  | move j _ c c' hc hm =>
    cases hm with
    | disconnect | notFound => simp [serviceCall] at ha
    | skipped sess rest =>
      obtain rfl := Option.some.inj ha
      exact ⟨_, _, hc, rfl, .inr ⟨⟨_, rfl⟩, continueCleanup_removes rest⟩⟩
    | expired sess rest =>
      obtain rfl := Option.some.inj ha
      exact ⟨_, _, hc, rfl, .inr ⟨⟨_, rfl⟩, rfl⟩⟩
    | _ =>
      obtain rfl := Option.some.inj ha
      exact ⟨_, _, hc, rfl, .inl ⟨rfl, .inl rfl⟩⟩
  | allocate j protocol hc =>
    obtain rfl := Option.some.inj ha
    exact ⟨_, _, hc, rfl, .inl ⟨rfl, .inl rfl⟩⟩
  | store j protocol sess hc hs =>
    obtain rfl := Option.some.inj ha
    exact ⟨_, _, hc, rfl, .inl ⟨rfl, .inr ⟨protocol, sess, rfl⟩⟩⟩
  | close j _ c c' br trash hc hd =>
    cases hd with
    | failed br err =>
      obtain rfl := Option.some.inj ha
      exact ⟨_, _, hc, rfl, .inl ⟨rfl, .inl rfl⟩⟩
    | _ => simp [serviceCall] at ha
  | _ => simp [serviceCall] at ha

theorem service_ahead {a : Session.Act} {i : Nat} {srv srv' : Session.State}
    (ha : serviceCall a = some i) (h : Session.step cfg ids srv a = some srv') (b : Nat) :
    ahead srv' b ≤ ahead srv b := by
  cases Session.step_sound h with
  | move j _ c c' hc hm =>
    have hset := ahead_set (srv.setCall j c') hc rfl rfl rfl b
    have hle : unreleased b c' ≤ unreleased b c := by
      cases hm with
      | skipped sess rest | notFound _ sess rest =>
        rw [continueCleanup_unreleased]
        exact Nat.zero_le _
      | _ => simp [unreleased]
    omega
  | allocate j protocol hc =>
    have := tally_set (unreleased b) (.waitStarted protocol srv.browsers) hc
    simp only [ahead, Session.State.setCall, unreleased] at *
    split at this <;> split <;> split <;> omega
  | store j protocol sess hc hs =>
    have := tally_set (unreleased b) (.created protocol sess) hc
    have hins : tally (keeps b) (insertKey (srv.storage.entries .webdriver) sess.id sess) ≤
        tally (keeps b) (srv.storage.entries .webdriver) + if sess.br = b then 1 else 0 := by
      have hdel : tally (keeps b) (deleteKey (srv.storage.entries .webdriver) sess.id) ≤
          tally (keeps b) (srv.storage.entries .webdriver) := tally_filter_le _ _ _
      have hkeeps : keeps b (sess.id, sess) = if sess.br = b then 1 else 0 := rfl
      rw [insertKey, tally_cons]
      omega
    show tally (unreleased b) (srv.calls.set j (.created protocol sess)) +
      tally (keeps b) ((srv.storage.setSessions protocol
        (insertKey (srv.storage.entries protocol) sess.id sess)).entries .webdriver) +
      (if b < srv.browsers then 0 else 1) ≤ ahead srv b
    rw [ahead, entries_setSessions]
    cases protocol with
    | webdriver =>
      rw [if_pos rfl]
      simp only [unreleased] at this
      omega
    | playwright =>
      rw [if_neg (by simp)]
      simp only [unreleased] at this
      omega
  | close j _ c c' br trash hc hd =>
    cases hd with
    | failed br err =>
      have := ahead_set ((srv.setCall j (.failed err)).close br true) hc rfl rfl rfl b
      exact Nat.le_of_eq this
    | _ => simp [serviceCall] at ha
  | _ => simp [serviceCall] at ha

/-- `Storage.Delete` of a call finds the entry that `Storage.Get` finds. -/
theorem delete_of_get {t : LocalSessionStorage} {protocol : BrowserProtocol} {id : GoString}
    {found : Session} (h : t.get protocol id = some found) :
    t.delete protocol id = (t.setSessions protocol (deleteKey (t.entries protocol) id), true) := by
  have hmem := get_mem h
  rw [LocalSessionStorage.get] at h
  rw [LocalSessionStorage.delete]
  cases hp : t.sessions protocol with
  | none => simp [hp] at h
  | some ps =>
    have hent : t.entries protocol = ps := by
      rw [LocalSessionStorage.entries, hp]
      rfl
    rw [hent] at hmem
    simp only [hasKey_iff.mpr ⟨found, hmem⟩, if_true, hent]

theorem delete_of_not_get {t : LocalSessionStorage} {protocol : BrowserProtocol} {id : GoString}
    (h : t.get protocol id = none) : t.delete protocol id = (t, false) := by
  rw [LocalSessionStorage.get] at h
  rw [LocalSessionStorage.delete]
  cases hp : t.sessions protocol with
  | none => rfl
  | some ps =>
    have hk : ¬ hasKey ps id = true := by
      intro hk
      obtain ⟨v, hv⟩ := hasKey_iff.mp hk
      simp only [hp, Option.map_eq_none_iff, List.find?_eq_none] at h
      exact h (id, v) hv (beq_self_eq_true id)
    simp only [hk]
    rfl

/-- The two ways in which a call of `DeleteSession` goes on. -/
theorem delete_srv {srv srv' : Session.State} {i : Nat} {protocol : BrowserProtocol}
    {sess : Session} {rest : List Session} (hc : srv.calls[i]? = some (.delete protocol sess rest))
    (h : Session.step cfg ids srv (.delete i) = some srv') :
    (srv.storage.get protocol sess.id = none ∧ srv' = srv.setCall i (continueCleanup rest)) ∨
      ∃ found, srv.storage.get protocol sess.id = some found ∧
        srv' = { srv.setCall i (.deleted protocol sess rest) with
                 storage := srv.storage.setSessions protocol
                   (deleteKey (srv.storage.entries protocol) sess.id) } := by
  simp only [Session.step, Session.stepDelete, hc] at h
  split at h
  · simp at h
  cases hget : srv.storage.get protocol sess.id with
  | none =>
    rw [delete_of_not_get hget] at h
    exact .inl ⟨rfl, (Option.some.inj h).symm⟩
  | some found =>
    rw [delete_of_get hget] at h
    exact .inr ⟨found, rfl, (Option.some.inj h).symm⟩

theorem closeDeleted_srv {srv srv' : Session.State} {i : Nat} {ok : Bool}
    (h : Session.step cfg ids srv (.closeDeleted i ok) = some srv') :
    ∃ protocol sess rest, srv.calls[i]? = some (.deleted protocol sess rest) ∧
      srv' = (srv.setCall i (continueCleanup rest)).close sess.br (trash cfg protocol ok) := by
  simp only [Session.step, Session.stepCloseDeleted] at h
  split at h
  · rename_i protocol sess rest hc
    exact ⟨protocol, sess, rest, hc, (Option.some.inj h).symm⟩
  · simp at h

/-! ## Steps of the requests -/

theorem Request.Fits.mono {rel rel' : Nat → Nat} {r : Request} {c : Session.Call}
    (hle : ∀ b, rel b ≤ rel' b) (h : r.Fits rel c) : r.Fits rel' c := by
  obtain ⟨handler, removed⟩ := r
  cases handler with
  | disconnected =>
    rcases h with h | ⟨sess, h1, h2⟩
    · exact .inl h
    · exact .inr ⟨sess, Nat.le_trans h1 (hle _), h2⟩
  | resetting | cleaning => exact ⟨h.1, fun b hb => Nat.le_trans (h.2 b hb) (hle b)⟩
  | _ => exact h

theorem released_publish (s : State) (ev : Event) (b : Nat) :
    (s.publish ev).released b = s.released b + (ev.releases b).toNat := by
  show (s.events ++ [ev]).countP (Event.releases b) = _
  rw [List.countP_append, List.countP_singleton, State.released]
  cases ev.releases b <;> rfl

theorem released_publish_le (s : State) (ev : Event) (b : Nat) :
    s.released b ≤ (s.publish ev).released b := by
  rw [released_publish]
  exact Nat.le_add_right _ _

theorem released_publish_quiet (s : State) {ev : Event} {b : Nat} (h : ev.releases b = false) :
    (s.publish ev).released b = s.released b := by
  rw [released_publish, h]
  rfl

theorem released_sessionReleased (s : State) (protocol : BrowserProtocol) (sess : Session)
    (b : Nat) : (s.publish (.sessionReleased protocol sess)).released b =
      s.released b + if sess.br = b then 1 else 0 := by
  rw [released_publish]
  by_cases hb : sess.br = b <;> simp [Event.releases, hb]

theorem requested_publish (s : State) (ev : Event) (i : Nat) :
    (s.publish ev).requested i = s.requested i + (ev.requests i).toNat := by
  show (s.events ++ [ev]).countP (Event.requests i) = _
  rw [List.countP_append, List.countP_singleton, State.requested]
  cases ev.requests i <;> rfl

theorem published_of_some {i : Nat} {r : Request} (h : s.requests[i]? = some r) :
    s.published i = r.handler.published := by
  rw [State.published, h]

/-- Request `i` and its call move on. -/
theorem inv_of_set {i : Nat} {r r' : Request} {c c' : Session.Call} (hi : Inv ids s)
    (hr : s.requests[i]? = some r) (hc : s.srv.calls[i]? = some c)
    (hreq : s'.requests = s.requests.set i r') (hcalls : s'.srv.calls = s.srv.calls.set i c')
    (hsrv : Session.Inv ids s'.srv) (hrel : ∀ b, s.released b ≤ s'.released b)
    (hfit : r'.Fits s'.released c')
    (htotal : ∀ b, s'.released b + r'.owes b + ahead s'.srv b ≤
      s.released b + r.owes b + ahead s.srv b)
    (hremoved : ∀ b ∈ s'.removed, b ∈ s.removed ∨ 1 ≤ s'.released b)
    (hpub : ∀ j, s'.requested j + (if i = j then r.handler.published else 0) =
      s.requested j + (if i = j then r'.handler.published else 0)) : Inv ids s' := by
  refine ⟨hsrv, ?_, fun j q d hq hd => ?_, fun b => ?_, fun b hb => ?_, fun j => ?_⟩
  · rw [hreq, hcalls, List.length_set, List.length_set]
    exact hi.length
  · rw [hreq] at hq
    rw [hcalls] at hd
    rcases getElem?_set_some hq with ⟨rfl, rfl⟩ | ⟨hij, hq⟩
    · rw [getElem?_set_eq hc, Option.some.injEq] at hd
      exact hd ▸ hfit
    · rw [List.getElem?_set_ne hij] at hd
      exact (hi.fits j q d hq hd).mono hrel
  · have h1 := hi.once b
    have h2 := tally_set (Request.owes b) r' hr
    have h3 := htotal b
    rw [State.total] at h1 ⊢
    rw [hreq]
    omega
  · rcases hremoved b hb with hb | hb
    · exact Nat.le_trans (hi.removed b hb) (hrel b)
    · exact hb
  · have h1 := hi.requested j
    have h2 := hpub j
    by_cases hij : i = j
    · subst hij
      rw [published_of_some hr] at h1
      rw [if_pos rfl, if_pos rfl] at h2
      rw [published_of_some (hreq ▸ getElem?_set_eq hr)]
      omega
    · have hsame : s'.published j = s.published j := by
        rw [State.published, State.published, hreq, List.getElem?_set_ne hij]
      rw [if_neg hij, if_neg hij] at h2
      omega

/-- A request begins. -/
theorem inv_of_append {r : Request} {c : Session.Call} (hi : Inv ids s)
    (hreq : s'.requests = s.requests ++ [r]) (hcalls : s'.srv = { s.srv with calls := s.srv.calls ++ [c] })
    (hev : s'.events = s.events) (hremoved : s'.removed = s.removed)
    (hsrv : Session.Inv ids s'.srv) (hfit : r.Fits s.released c) (howes : ∀ b, r.owes b = 0)
    (hahead : ∀ b, unreleased b c = 0) (hpub : r.handler.published = 0) : Inv ids s' := by
  have hrel : s'.released = s.released := by
    funext b
    rw [State.released, State.released, hev]
  refine ⟨hsrv, ?_, fun j q d hq hd => ?_, fun b => ?_, fun b hb => ?_, fun j => ?_⟩
  · rw [hreq, hcalls, List.length_append, List.length_append, hi.length]
    rfl
  · rw [hreq] at hq
    rw [hcalls] at hd
    rw [hrel]
    have hlen := hi.length
    rcases getElem?_concat_some hq with hq | ⟨hj, rfl⟩
    · rcases getElem?_concat_some hd with hd | ⟨hj, rfl⟩
      · exact hi.fits j q d hq hd
      · exact absurd (lt_of_getElem? hq) (by omega)
    · rcases getElem?_concat_some hd with hd | ⟨_, rfl⟩
      · exact absurd (lt_of_getElem? hd) (by omega)
      · exact hfit
  · have h1 := hi.once b
    rw [State.total] at h1 ⊢
    rw [hreq, hcalls, ahead_append s.srv hahead, hrel, tally_append, tally_cons, tally_nil, howes]
    omega
  · rw [hremoved] at hb
    rw [hrel]
    exact hi.removed b hb
  · have h1 := hi.requested j
    have h2 : s'.requested j = s.requested j := by rw [State.requested, State.requested, hev]
    have h3 : s'.published j = s.published j := by
      rw [State.published, State.published, hreq]
      by_cases hlt : j < s.requests.length
      · rw [List.getElem?_append_left hlt]
      · rw [List.getElem?_append_right (Nat.le_of_not_lt hlt),
          List.getElem?_eq_none (Nat.le_of_not_lt hlt)]
        cases hjl : j - s.requests.length with
        | zero => exact hpub
        | succ k => rfl
    omega

/-- A call that moves on by itself still fits its request. -/
theorem fits_of_service {rel : Nat → Nat} {r : Request} {c c' : Session.Call} (h : r.Fits rel c)
    (hne : ∀ removed, r ≠ ⟨.notCreated, removed⟩)
    (hmoves : (inCreate c = true ∧ (inCreate c' = true ∨ ∃ protocol sess, c' = .created protocol sess)) ∨
      ((∃ rest, c = .cleanup rest) ∧ removes c' = true)) : r.Fits rel c' := by
  obtain ⟨handler, removed⟩ := r
  -- In every other section the call does not move on by itself.
  have hnot : ∀ d, inCreate d = false → (∀ rest, d ≠ .cleanup rest) → c ≠ d := by
    rintro d hd hrest rfl
    rcases hmoves with ⟨hin, _⟩ | ⟨⟨rest, hc⟩, _⟩
    · rw [hd] at hin
      contradiction
    · exact hrest rest hc
  cases handler with
  | creating protocol =>
    refine ⟨?_, h.2⟩
    rcases hmoves with ⟨_, hc'⟩ | ⟨⟨rest, rfl⟩, _⟩
    · exact hc'
    · simp [Request.Fits, inCreate] at h
  | created =>
    obtain ⟨⟨protocol, sess, hc⟩, _⟩ := h
    exact absurd hc (hnot _ rfl (by simp))
  | notCreated => exact absurd rfl (hne removed)
  | disconnected =>
    rcases h with ⟨hc, _⟩ | ⟨sess, _, ⟨hc, _⟩ | ⟨hc, _⟩⟩
    · exact absurd hc (hnot _ rfl (by simp))
    · exact absurd hc (hnot _ rfl (by simp))
    · exact absurd hc (hnot _ rfl (by simp))
  | deleting sess =>
    rcases h with ⟨hc, _⟩ | ⟨hc | hc, _⟩
    · exact absurd hc (hnot _ rfl (by simp))
    · exact absurd hc (hnot _ rfl (by simp))
    · exact absurd hc (hnot _ rfl (by simp))
  | deleted => exact absurd h.1 (hnot _ rfl (by simp))
  | resetting | cleaning =>
    refine ⟨?_, h.2⟩
    rcases hmoves with ⟨hin, _⟩ | ⟨_, hc'⟩
    · have hc : removes c = true := h.1
      cases c <;> simp_all [inCreate, removes]
    · exact hc'

theorem inv_of_service {a : Session.Act} (hi : Inv ids s) (hfresh : FreshId s.srv a)
    (hs : stepService cfg ids s a = some s') : Inv ids s' := by
  unfold stepService at hs
  split at hs
  · rename_i i ha
    split at hs
    · simp at hs
    · rename_i r hne hr
      rw [Option.map_eq_some_iff] at hs
      obtain ⟨srv, hsrv, rfl⟩ := hs
      obtain ⟨c, c', hc, hcalls, hmoves⟩ := service_call ha hsrv
      have hfit := hi.fits i r c hr hc
      refine inv_of_set hi hr hc (set_eq_self hr).symm hcalls
        (Session.step_inv hi.srv hfresh hsrv) (fun b => Nat.le_refl _) ?_ (fun b => ?_)
        (fun b hb => .inl hb) fun j => rfl
      · refine fits_of_service hfit (fun removed h => ?_) hmoves
        subst h
        exact hne removed rfl
      · have := service_ahead ha hsrv b
        show s.released b + r.owes b + ahead srv b ≤ _
        omega
    · simp at hs
  · simp at hs

theorem inv_of_panic {i : Nat} (hi : Inv ids s) (hs : stepPanic s i = some s') : Inv ids s' := by
  unfold stepPanic at hs
  split at hs
  · rename_i protocol removed c hr hc
    split at hs
    · rename_i hin
      rw [← Option.some.inj hs]
      refine inv_of_set hi hr hc rfl (set_eq_self hc).symm hi.srv (released_publish_le s _)
        ⟨hin, rfl⟩ (fun b => ?_) (fun b hb => .inl hb) fun j => ?_
      · show (s.publish _).released b + 0 + ahead s.srv b ≤ s.released b + 0 + ahead s.srv b
        exact Nat.le_of_eq (by rw [released_publish_quiet s rfl])
      · rw [requested_publish]
        rfl
    · simp at hs
  · simp at hs

theorem inv_of_sessionRequested {i : Nat} (hi : Inv ids s)
    (hs : stepSessionRequested s i = some s') : Inv ids s' := by
  unfold stepSessionRequested at hs
  split at hs
  · rename_i protocol removed p sess hr hc
    rw [← Option.some.inj hs]
    refine inv_of_set hi hr hc rfl (set_eq_self hc).symm hi.srv (released_publish_le s _)
      ⟨⟨p, sess, rfl⟩, rfl⟩ (fun b => ?_) (fun b hb => .inl hb) fun j => ?_
    · show (s.publish _).released b + 0 + ahead s.srv b ≤ s.released b + 0 + ahead s.srv b
      exact Nat.le_of_eq (by rw [released_publish_quiet s rfl])
    · rw [requested_publish]
      show s.requested j + (i == j).toNat + (if i = j then 0 else 0) =
        s.requested j + if i = j then 1 else 0
      by_cases hij : i = j <;> simp [hij]
  · rename_i protocol removed err hr hc
    rw [← Option.some.inj hs]
    refine inv_of_set hi hr hc rfl (set_eq_self hc).symm hi.srv (released_publish_le s _) ⟨rfl, rfl⟩
      (fun b => ?_) (fun b hb => .inl hb) fun j => ?_
    · show (s.publish _).released b + 0 + ahead s.srv b ≤ s.released b + 0 + ahead s.srv b
      exact Nat.le_of_eq (by rw [released_publish_quiet s rfl])
    · rw [requested_publish]
      rfl
  · simp at hs

theorem ahead_delete {srv : Session.State} {i : Nat} {protocol : BrowserProtocol}
    {sess found : Session} {rest : List Session} (hi : Session.Inv ids srv)
    (hc : srv.calls[i]? = some (.delete protocol sess rest))
    (hf : (sess.id, found) ∈ srv.storage.entries protocol) (b : Nat) :
    ahead { srv.setCall i (.deleted protocol sess rest) with
            storage := srv.storage.setSessions protocol
              (deleteKey (srv.storage.entries protocol) sess.id) } b +
        (if protocol = .webdriver ∧ sess.br = b then 1 else 0) = ahead srv b := by
  have hsess := found_eq hi hc hf
  subst hsess
  have hcalls := tally_set (unreleased b) (.deleted protocol found rest) hc
  have hstored := tally_deleteKey (w := keeps b) (hi.nodup protocol) hf
  show tally (unreleased b) (srv.calls.set i (.deleted protocol found rest)) +
      tally (keeps b) ((srv.storage.setSessions protocol
        (deleteKey (srv.storage.entries protocol) found.id)).entries .webdriver) +
      (if b < srv.browsers then 0 else 1) + _ = ahead srv b
  rw [ahead, entries_setSessions]
  cases protocol with
  | webdriver =>
    simp only [unreleased, keeps, if_true, true_and] at *
    omega
  | playwright =>
    simp only [unreleased, reduceCtorEq, if_false, false_and] at *
    omega

/-- The requests whose call is about to delete a session. -/
inductive Deletes (rel : Nat → Nat) : Request → BrowserProtocol → Session → List Session → Prop
  | disconnected (sess : Session) (removed : Option Nat) (h : 1 ≤ rel sess.br) :
      Deletes rel ⟨.disconnected, removed⟩ .playwright sess []
  | deleting (sess : Session) (removed : Option Nat) :
      Deletes rel ⟨.deleting sess, removed⟩ .webdriver sess []
  | resetting (protocol : BrowserProtocol) (sess : Session) (rest : List Session)
      (removed : Option Nat) : Deletes rel ⟨.resetting, removed⟩ protocol sess rest
  | cleaning (protocol : BrowserProtocol) (sess : Session) (rest : List Session)
      (removed : Option Nat) : Deletes rel ⟨.cleaning, removed⟩ protocol sess rest

theorem deletes_of_fits {rel : Nat → Nat} {r : Request} {protocol : BrowserProtocol}
    {sess : Session} {rest : List Session} (h : r.Fits rel (.delete protocol sess rest)) :
    Deletes rel r protocol sess rest := by
  obtain ⟨handler, removed⟩ := r
  cases handler with
  | creating _ => simp [Request.Fits, inCreate] at h
  | created => simp [Request.Fits] at h
  | notCreated => simp [Request.Fits, inCreate] at h
  | deleted => simp [Request.Fits] at h
  | disconnected =>
    rcases h with ⟨hc, _⟩ | ⟨sess', hrel, ⟨hc, _⟩ | ⟨hc, _⟩⟩
    · contradiction
    · obtain ⟨rfl, rfl, rfl⟩ := Call.delete.inj hc
      exact .disconnected _ removed hrel
    · contradiction
  | deleting sess' =>
    rcases h with ⟨hc, _⟩ | ⟨hc | hc, _⟩
    · obtain ⟨rfl, rfl, rfl⟩ := Call.delete.inj hc
      exact .deleting _ removed
    · contradiction
    · contradiction
  | resetting => exact .resetting protocol sess rest removed
  | cleaning => exact .cleaning protocol sess rest removed

/-- `Storage.Delete` finds nothing. -/
theorem inv_of_notFound {i : Nat} {r : Request} {protocol : BrowserProtocol} {sess : Session}
    {rest : List Session} (hi : Inv ids s) (hr : s.requests[i]? = some r)
    (hc : s.srv.calls[i]? = some (.delete protocol sess rest))
    (hinv : Session.Inv ids (s.srv.setCall i (continueCleanup rest)))
    (hwho : ∀ x, r.handler ≠ .deleting x) :
    Inv ids { s with
      srv := s.srv.setCall i (continueCleanup rest),
      requests := s.requests.set i { r with removed := none } } := by
  refine inv_of_set hi hr hc rfl rfl hinv (fun b => Nat.le_refl _) ?_ (fun b => ?_)
    (fun b hb => .inl hb) fun j => rfl
  · cases deletes_of_fits (hi.fits i r _ hr hc) with
    | disconnected _ removed hrel => exact .inl ⟨rfl, rfl⟩
    | deleting _ removed => exact absurd rfl (hwho sess)
    | resetting _ _ _ removed | cleaning _ _ _ removed =>
      exact ⟨continueCleanup_removes rest, by simp⟩
  · have hahead := ahead_set (s.srv.setCall i (continueCleanup rest)) hc rfl rfl rfl b
    have howes : Request.owes b { r with removed := none } = 0 := by
      simp [Request.owes]
    rw [continueCleanup_unreleased] at hahead
    show s.released b + Request.owes b { r with removed := none } +
      ahead (s.srv.setCall i (continueCleanup rest)) b ≤ _
    rw [howes]
    omega

/-- `Storage.Delete` removes the session. -/
theorem inv_of_removed {i : Nat} {r : Request} {protocol : BrowserProtocol} {sess found : Session}
    {rest : List Session} (hi : Inv ids s) (hr : s.requests[i]? = some r)
    (hc : s.srv.calls[i]? = some (.delete protocol sess rest))
    (hf : (sess.id, found) ∈ s.srv.storage.entries protocol)
    (hinv : Session.Inv ids { s.srv.setCall i (.deleted protocol sess rest) with
      storage := s.srv.storage.setSessions protocol
        (deleteKey (s.srv.storage.entries protocol) sess.id) })
    (hwho : r.handler = .resetting ∨ r.handler = .cleaning → 1 ≤ s.released sess.br) :
    Inv ids { s with
      srv := { s.srv.setCall i (.deleted protocol sess rest) with
               storage := s.srv.storage.setSessions protocol
                 (deleteKey (s.srv.storage.entries protocol) sess.id) },
      requests := s.requests.set i { r with removed := some found.br } } := by
  have hsess := found_eq hi.srv hc hf
  have hwhich := deletes_of_fits (hi.fits i r _ hr hc)
  rw [hsess]
  refine inv_of_set hi hr hc rfl rfl hinv (fun b => Nat.le_refl _) ?_ (fun b => ?_)
    (fun b hb => .inl hb) fun j => rfl
  · cases hwhich with
    | disconnected _ removed hrel => exact .inr ⟨sess, hrel, .inr ⟨rfl, rfl⟩⟩
    | deleting _ removed => exact .inr ⟨.inl rfl, rfl⟩
    | resetting _ _ _ removed =>
      exact ⟨rfl, fun b hb => Option.some.inj hb ▸ hwho (.inl rfl)⟩
    | cleaning _ _ _ removed =>
      exact ⟨rfl, fun b hb => Option.some.inj hb ▸ hwho (.inr rfl)⟩
  · have hahead := ahead_delete hi.srv hc hf b
    have howes : Request.owes b { r with removed := some sess.br } ≤
        if protocol = .webdriver ∧ sess.br = b then 1 else 0 := by
      cases hwhich with
      | deleting _ removed => simp [Request.owes]
      | _ => exact Nat.zero_le _
    show s.released b + Request.owes b { r with removed := some sess.br } +
      ahead { s.srv.setCall i (.deleted protocol sess rest) with
              storage := s.srv.storage.setSessions protocol
                (deleteKey (s.srv.storage.entries protocol) sess.id) } b ≤ _
    omega

theorem inv_of_delete {i : Nat} (hi : Inv ids s) (hcond : RemoverPublishes s (.delete i))
    (hs : stepDelete cfg ids s i = some s') : Inv ids s' := by
  unfold stepDelete at hs
  split at hs
  · rename_i r protocol sess rest hr hc
    have hwho := hcond r protocol sess rest hr hc
    rw [Option.map_eq_some_iff] at hs
    obtain ⟨srv, hsrv, rfl⟩ := hs
    have hinv := Session.step_inv hi.srv (a := .delete i) trivial hsrv
    rcases delete_srv hc hsrv with ⟨hget, rfl⟩ | ⟨found, hget, rfl⟩
    · rw [hget] at hwho ⊢
      refine inv_of_notFound hi hr hc hinv fun x hx => ?_
      rw [hx] at hwho
      contradiction
    · rw [hget] at hwho ⊢
      refine inv_of_removed hi hr hc (get_mem hget) hinv fun hx => ?_
      rcases hx with hx | hx
      · rw [hx] at hwho
        exact hwho rfl
      · rw [hx] at hwho
        exact hwho rfl
  · simp at hs

theorem mem_removed {rel : Nat → Nat} {l : List Nat} {removed : Option Nat} {b : Nat}
    (h : ∀ b, removed = some b → 1 ≤ rel b) (hb : b ∈ l ++ removed.toList) :
    b ∈ l ∨ 1 ≤ rel b := by
  rcases List.mem_append.mp hb with hb | hb
  · exact .inl hb
  · exact .inr (h b (Option.mem_toList.mp hb))

theorem inv_of_closeDeleted {i : Nat} {ok : Bool} (hi : Inv ids s)
    (hs : stepCloseDeleted cfg ids s i ok = some s') : Inv ids s' := by
  unfold stepCloseDeleted at hs
  split at hs
  · rename_i r hr
    rw [Option.map_eq_some_iff] at hs
    obtain ⟨srv, hsrv, rfl⟩ := hs
    have hinv := Session.step_inv hi.srv (a := .closeDeleted i ok) trivial hsrv
    obtain ⟨protocol, sess, rest, hc, rfl⟩ := closeDeleted_srv hsrv
    have hfit := hi.fits i r _ hr hc
    have hahead : ∀ b, ahead ((s.srv.setCall i (continueCleanup rest)).close sess.br
        (trash cfg protocol ok)) b = ahead s.srv b := by
      intro b
      have := ahead_set ((s.srv.setCall i (continueCleanup rest)).close sess.br
        (trash cfg protocol ok)) hc rfl rfl rfl b
      rw [continueCleanup_unreleased] at this
      exact this
    obtain ⟨handler, removed⟩ := r
    cases handler with
    | creating _ => simp [Request.Fits, inCreate] at hfit
    | created => simp [Request.Fits] at hfit
    | notCreated => simp [Request.Fits, inCreate] at hfit
    | deleted => simp [Request.Fits] at hfit
    | deleting x =>
      rcases hfit with ⟨hx, _⟩ | ⟨hx | hx, hrem⟩
      · contradiction
      · obtain ⟨rfl, rfl, rfl⟩ := Call.deleted.inj hx
        exact inv_of_set hi hr hc (set_eq_self hr).symm rfl hinv (fun b => Nat.le_refl _)
          (.inr ⟨.inr rfl, hrem⟩) (fun b => Nat.le_of_eq (by rw [← hahead b]; rfl))
          (fun b hb => .inl hb) fun j => rfl
      · contradiction
    | disconnected =>
      rcases hfit with ⟨hx, _⟩ | ⟨x, hrel, ⟨hx, _⟩ | ⟨hx, hrem⟩⟩
      · contradiction
      · contradiction
      · obtain ⟨rfl, rfl, rfl⟩ := Call.deleted.inj hx
        refine inv_of_set hi hr hc rfl rfl hinv (fun b => Nat.le_refl _) (.inl ⟨rfl, rfl⟩)
          (fun b => Nat.le_of_eq (by rw [← hahead b]; rfl)) (fun b hb => ?_) fun j => rfl
        exact mem_removed (fun b hb => by
          rw [hrem, Option.some.injEq] at hb
          exact hb ▸ hrel) hb
    | resetting | cleaning =>
      refine inv_of_set hi hr hc rfl rfl hinv (fun b => Nat.le_refl _)
        ⟨continueCleanup_removes rest, by simp⟩
        (fun b => Nat.le_of_eq (by rw [← hahead b]; rfl)) (fun b hb => ?_) fun j => rfl
      exact mem_removed hfit.2 hb
  · simp at hs

theorem inv_of_sessionReleased {i : Nat} (hi : Inv ids s)
    (hs : stepSessionReleased s i = some s') : Inv ids s' := by
  unfold stepSessionReleased at hs
  split at hs
  · rename_i sess removed hr hc
    have hrem : removed = some sess.br := by
      rcases hi.fits i _ _ hr hc with ⟨hx, _⟩ | ⟨_, hrem⟩
      · contradiction
      · exact hrem
    have hrel := released_sessionReleased s .webdriver sess
    rw [← Option.some.inj hs, hrem]
    subst hrem
    refine inv_of_set hi hr hc rfl (set_eq_self hc).symm hi.srv (released_publish_le s _) ⟨rfl, rfl⟩
      (fun b => ?_) (fun b hb => ?_) fun j => ?_
    · have := hrel b
      show (s.publish (.sessionReleased .webdriver sess)).released b + 0 + ahead s.srv b ≤
        s.released b + (if sess.br = b then 1 else 0) + ahead s.srv b
      omega
    · refine mem_removed (fun b hb => ?_) hb
      have := hrel b
      rw [if_pos (Option.some.inj hb)] at this
      show 1 ≤ (s.publish (.sessionReleased .webdriver sess)).released b
      omega
    · show (s.publish (.sessionReleased .webdriver sess)).requested j + _ = _
      rw [requested_publish]
      rfl
  · simp at hs

theorem disconnect_srv {srv srv' : Session.State} {i : Nat} {sess : Session}
    (hc : srv.calls[i]? = some (.created .playwright sess))
    (h : Session.step cfg ids srv (.disconnect i) = some srv') :
    srv' = srv.setCall i (.delete .playwright sess []) := by
  simp only [Session.step, Session.stepDisconnect, hc] at h
  exact (Option.some.inj h).symm

theorem inv_of_disconnect {i : Nat} (hi : Inv ids s)
    (hs : stepDisconnect cfg ids s i = some s') : Inv ids s' := by
  unfold stepDisconnect at hs
  split at hs
  · rename_i removed sess hr hc
    rw [Option.map_eq_some_iff] at hs
    obtain ⟨srv, hsrv, rfl⟩ := hs
    have hinv := Session.step_inv hi.srv (a := .disconnect i) trivial hsrv
    obtain rfl := disconnect_srv hc hsrv
    have hrel := released_sessionReleased s .playwright sess
    refine inv_of_set hi hr hc rfl rfl hinv (released_publish_le s _)
      (.inr ⟨sess, ?_, .inl ⟨rfl, rfl⟩⟩) (fun b => ?_) (fun b hb => .inl hb) fun j => ?_
    · show 1 ≤ (s.publish (.sessionReleased .playwright sess)).released sess.br
      rw [hrel, if_pos rfl]
      exact Nat.le_add_left 1 _
    · have hset := ahead_set (s.srv.setCall i (.delete .playwright sess [])) hc rfl rfl rfl b
      have := hrel b
      show (s.publish (.sessionReleased .playwright sess)).released b + 0 +
        ahead (s.srv.setCall i (.delete .playwright sess [])) b ≤
        s.released b + Request.owes b ⟨.created, removed⟩ + ahead s.srv b
      simp only [unreleased] at hset
      omega
    · show (s.publish (.sessionReleased .playwright sess)).requested j + _ = _
      rw [requested_publish]
      rfl
  · simp at hs

theorem inv_of_find {protocol : BrowserProtocol} {id : GoString} {handler : Session → Handler}
    (hi : Inv ids s) (hs : stepFind cfg ids s protocol id handler = some s')
    (hfit : ∀ sess, Request.Fits s.released ⟨handler sess, none⟩ (.delete protocol sess []))
    (hpub : ∀ sess, (handler sess).published = 0) : Inv ids s' := by
  unfold stepFind at hs
  split at hs
  · rename_i srv hsrv
    have hinv := Session.step_inv hi.srv (a := .find protocol id) trivial hsrv
    simp only [Session.step, Session.stepFind] at hsrv
    split at hsrv
    · simp at hsrv
    split at hs
    · rename_i sess hget
      rw [hget] at hsrv
      rw [← Option.some.inj hsrv] at hs hinv
      rw [← Option.some.inj hs]
      refine inv_of_append hi rfl rfl rfl rfl hinv (hfit sess) (fun b => ?_) (fun b => rfl)
        (hpub sess)
      simp [Request.owes]
    · exact Option.some.inj hs ▸ hi
  · simp at hs

theorem step_inv {a : Act} (hi : Inv ids s) (hcond : RemoverPublishes s a)
    (hs : step cfg ids s a = some s') : Inv ids s' := by
  cases a with
  | create protocol =>
    have hstep : Session.step cfg ids s.srv (.create protocol) = some _ := rfl
    have hinv := Session.step_inv (a := .create protocol) hi.srv trivial hstep
    exact Option.some.inj hs ▸
      inv_of_append hi rfl rfl rfl rfl hinv ⟨.inl rfl, rfl⟩ (fun b => rfl) (fun b => rfl) rfl
  | badRequest protocol =>
    rw [← Option.some.inj hs]
    refine ⟨hi.srv, hi.length, fun i r c hr hc => ?_, fun b => ?_, fun b hb => ?_, fun i => ?_⟩
    · exact (hi.fits i r c hr hc).mono (released_publish_le s _)
    · have := hi.once b
      rw [State.total] at this ⊢
      rw [released_publish_quiet s rfl]
      exact this
    · exact Nat.le_trans (hi.removed b hb) (released_publish_le s _ b)
    · rw [requested_publish]
      exact hi.requested i
  | service a => exact inv_of_service hi hcond hs
  | panic i => exact inv_of_panic hi hs
  | sessionRequested i => exact inv_of_sessionRequested hi hs
  | deleteSession id => exact inv_of_find hi hs (fun sess => .inl ⟨rfl, rfl⟩) fun _ => rfl
  | reset protocol id => exact inv_of_find hi hs (fun sess => ⟨rfl, by simp⟩) fun _ => rfl
  | cleanup =>
    simp only [step, stepCleanup] at hs
    rw [Option.map_eq_some_iff] at hs
    obtain ⟨srv, hsrv, rfl⟩ := hs
    have hinv := Session.step_inv hi.srv (a := .listSessions) trivial hsrv
    simp only [Session.step, stepListSessions] at hsrv
    split at hsrv
    · simp at hsrv
    · rw [← Option.some.inj hsrv] at hinv ⊢
      exact inv_of_append hi rfl rfl rfl rfl hinv ⟨continueCleanup_removes _, by simp⟩
        (fun b => rfl) (fun b => continueCleanup_unreleased b _) rfl
  | delete i => exact inv_of_delete hi hcond hs
  | closeDeleted i ok => exact inv_of_closeDeleted hi hs
  | sessionReleased i => exact inv_of_sessionReleased hi hs
  | disconnect i => exact inv_of_disconnect hi hs

theorem reach_inv (h : (machine cfg ids).Reach RemoverPublishes s) : Inv ids s :=
  h.invariant (init_inv ids) fun _ _ _ hi hc hs => step_inv hi hc hs

/-! ## Balance -/

/-- The events balance in every run in which the calls that remove a session are those
that publish. -/
theorem events_balanced (h : (machine cfg ids).Reach RemoverPublishes s) : Balanced s := by
  have hi := reach_inv h
  have honce : ∀ b, s.released b ≤ 1 := by
    intro b
    have := hi.once b
    rw [State.total] at this
    omega
  refine ⟨fun i r hr hne hcreated => ?_, fun i => ?_, fun b hb => ?_, honce⟩
  · rw [hi.requested i, published_of_some hr]
    rcases hcreated with ⟨protocol, sess, hc⟩ | ⟨removed, hd⟩
    · have hfit := hi.fits i r _ hr hc
      obtain ⟨handler, removed⟩ := r
      cases handler with
      | creating p => exact absurd rfl (hne p)
      | created => rfl
      | _ => simp [Request.Fits, inCreate, removes] at hfit
    · rw [hr, Option.some.injEq] at hd
      rw [hd]
      rfl
  · rw [hi.requested i, State.published]
    split
    · rename_i r _
      cases r.handler <;> simp [Handler.published]
    · exact Nat.zero_le 1
  · exact Nat.le_antisymm (honce b) (hi.removed b hb)

/-- Webdriver session `a` is created by request 0. -/
def createA : List Act :=
  [.create .webdriver, .service (.isShutdown 0), .service (.allocate 0 true),
    .service (.waitStarted 0 true),
    .service (.proxyCreate 0 (some [(bytes "sessionId", .string (bytes "a"))])),
    .service (.add 0), .sessionRequested 0]

def requestedA : Event := .sessionRequested .webdriver (some 0) none

def releasedA : Event := .sessionReleased .webdriver ⟨bytes "a", 0⟩

/-- Session `a` was created and deleted by its client. -/
def deletedOnce : State :=
  { srv :=
      { storage := (LocalSessionStorage.new.setSessions .webdriver
          [(bytes "a", ⟨bytes "a", 0⟩)]).setSessions .webdriver [],
        browsers := 1,
        calls := [.created .webdriver ⟨bytes "a", 0⟩, .done],
        closes := [(0, false)] },
    requests := [⟨.created, none⟩, ⟨.deleted, none⟩],
    events := [requestedA, releasedA],
    removed := [0] }

theorem events_balanced_deletedOnce :
    0 ∈ deletedOnce.removed ∧ deletedOnce.requested 0 = 1 ∧ deletedOnce.released 0 = 1 := by
  have hreach : (machine ⟨true⟩ (.unary 97)).Reach RemoverPublishes deletedOnce := by
    refine Machine.leads_of_run
      (createA ++ [.deleteSession (bytes "a"), .delete 1, .closeDeleted 1 true, .sessionReleased 1])
      ?_ rfl
    iterate 5 refine ⟨trivial, ?_⟩
    refine ⟨fun sess _ _ => ⟨fun found hf => ?_, ?_⟩, trivial, trivial, ?_, trivial, trivial, trivial⟩
    · exact List.not_mem_nil (show (sess.id, found) ∈ [] from hf)
    · show ∀ c ∈ [Call.add .webdriver ⟨bytes "a", 0⟩], ∀ h ∈ c.handles, h.id ≠ sess.id
      simp [Call.handles]
    · intro r protocol sess rest hr hc
      cases hr
      cases hc
      rfl
  have hb := events_balanced hreach
  exact ⟨by decide, hb.requested 0 _ rfl (by simp) (.inl ⟨_, _, rfl⟩), hb.released 0 (by decide)⟩

/-- The clean-up removed session `a`. -/
def cleanedUp : State :=
  { srv := deletedOnce.srv,
    requests := [⟨.created, none⟩, ⟨.cleaning, none⟩],
    events := [requestedA],
    removed := [0] }

/-- Two `DELETE` requests found session `a`, and one of them removed it. -/
def deletedTwice : State :=
  { srv := { deletedOnce.srv with calls := [.created .webdriver ⟨bytes "a", 0⟩, .done, .done] },
    requests := [⟨.created, none⟩, ⟨.deleted, none⟩, ⟨.deleted, none⟩],
    events := [requestedA, releasedA, releasedA],
    removed := [0] }

theorem events_unbalanced :
    (machine ⟨true⟩ (.unary 97)).Reachable cleanedUp ∧ 0 ∈ cleanedUp.removed ∧
    cleanedUp.released 0 = 0 ∧
    (machine ⟨true⟩ (.unary 97)).Reachable deletedTwice ∧ deletedTwice.released 0 = 2 ∧
    ¬ ∀ s, (machine ⟨true⟩ (.unary 97)).Reachable s → Balanced s := by
  have hcleaned : (machine ⟨true⟩ (.unary 97)).Reachable cleanedUp :=
    Machine.reachable_of_run
      (createA ++ [.cleanup, .service (.cleanup 1 true), .delete 1, .closeDeleted 1 true]) rfl
  have hdeleted : (machine ⟨true⟩ (.unary 97)).Reachable deletedTwice :=
    Machine.reachable_of_run
      (createA ++ [.deleteSession (bytes "a"), .deleteSession (bytes "a"), .delete 1, .delete 2,
        .closeDeleted 1 true, .sessionReleased 1, .sessionReleased 2]) rfl
  have hmem : 0 ∈ cleanedUp.removed := by decide
  refine ⟨hcleaned, hmem, by decide, hdeleted, by decide, fun h => ?_⟩
  exact absurd ((h _ hcleaned).released 0 hmem) (by decide)

end Selebrow.Controllers
