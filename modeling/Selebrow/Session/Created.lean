import Selebrow.Session.Create

/-!
# A session is created or nothing is left

The only way to a stored session is a status answer below 400, one `POST` after it, and an id
in its answer; on every other way the browser, if there is one, is closed and not used again,
and the storage is as it was.
-/

namespace Selebrow.Session.Create

open Selebrow.Path Selebrow.Controllers Selebrow.Transition

section

variable (b : Backend) (br : Browser)

/-- Status requests without an answer below 400. -/
def Waited (log : List Exchange) : Prop :=
  ∀ x ∈ log, x.request = statusRequest br ∧ ready b x ≠ .ready

/-- Status requests of which only the last has an answer below 400. -/
def BecameReady (log : List Exchange) : Prop :=
  ∃ tried last, log = tried ++ [last] ∧ Waited b br tried ∧ last.request = statusRequest br ∧
    ready b last = .ready

/-- The request for the session, behind an answer below 400. -/
def Posted (caps : GoString) (answer : Except Err Response) (log : List Exchange) : Prop :=
  ∃ polls, BecameReady b br polls ∧ log = polls ++ [⟨createRequest br caps, answer⟩]

variable {b br}

theorem waitWebdriverStarted_ok {log : List Exchange} {u : Unit}
    (h : waitWebdriverStarted b br [] = (.ok u, log)) : BecameReady b br log := by
  rw [waitWebdriverStarted] at h
  split at h
  · cases h
  · obtain ⟨tried, last, hp⟩ := poll_polled b.clock (fun log => b.exchange log (statusRequest br))
      (ready b) giveUp []
    rw [h] at hp
    refine ⟨tried, last, hp.log_eq, ?_, ?_, ?_⟩
    · intro x hx
      obtain ⟨⟨l, hl⟩, err, herr⟩ := hp.retried x hx
      refine ⟨by rw [hl]; rfl, ?_⟩
      rw [herr]
      simp
    · obtain ⟨l, hl⟩ := hp.asked
      rw [hl]
      rfl
    · cases hp.ends with
      | ready hready => exact hready

theorem waitWebdriverStarted_error {log : List Exchange} {err : Err}
    (h : waitWebdriverStarted b br [] = (.error err, log)) : Waited b br log := by
  rw [waitWebdriverStarted] at h
  split at h
  · cases h
    intro x hx
    contradiction
  · obtain ⟨tried, last, hp⟩ := poll_polled b.clock (fun log => b.exchange log (statusRequest br))
      (ready b) giveUp []
    rw [h] at hp
    have hlog : log = tried ++ [last] := hp.log_eq
    rw [hlog]
    intro x hx
    rcases List.mem_append.mp hx with hx | hx
    · obtain ⟨⟨l, hl⟩, err, herr⟩ := hp.retried x hx
      refine ⟨by rw [hl]; rfl, ?_⟩
      rw [herr]
      simp
    · rw [List.mem_singleton.mp hx]
      obtain ⟨l, hl⟩ := hp.asked
      refine ⟨by rw [hl]; rfl, ?_⟩
      cases hp.ends with
      | failed err hfailed =>
        rw [hfailed]
        simp
      | gaveUp err cause hretry hdone =>
        rw [hretry]
        simp

/-- What the request for the session comes to. -/
theorem proxyCreateSession_log {caps : GoString} {polls log : List Exchange}
    {r : Except Err (List (GoString × Json))} (h : proxyCreateSession b br caps polls = (r, log)) :
    (log = polls ∧ ∃ err, r = .error err) ∨
      log = polls ++ [⟨createRequest br caps, b.client polls (createRequest br caps)⟩] := by
  rw [proxyCreateSession] at h
  split at h
  · cases h
    exact .inl ⟨rfl, _, rfl⟩
  · right
    split at h
    · cases h
      rfl
    · split at h
      · cases h
        rfl
      · cases h
        rfl

theorem proxyCreateSession_ok {caps : GoString} {polls log : List Exchange}
    {members : List (GoString × Json)} (h : proxyCreateSession b br caps polls = (.ok members, log)) :
    ∃ resp, log = polls ++ [⟨createRequest br caps, .ok resp⟩] ∧ resp.status < statusBadRequest ∧
      resp.body.bind decodeMap = .ok members := by
  rw [proxyCreateSession] at h
  split at h
  · cases h
  · split at h
    · cases h
    · rename_i resp hresp
      split at h
      · cases h
      · rename_i hstatus
        obtain ⟨hmembers, hlog⟩ := Prod.mk.inj h
        refine ⟨resp, ?_, by omega, hmembers⟩
        rw [← hlog, Backend.exchange, hresp]

end

/-! ## The whole call -/

/-- `CreateSession` gets this browser. -/
def Allocated (storage : LocalSessionStorage) (allocate : Except Err Browser) (br : Browser) : Prop :=
  storage.shutdown = false ∧ allocate = .ok br

/-- What a call leaves that found `storage` and later `storage'`. -/
structure AllOrNothing (b : Backend) (storage storage' : LocalSessionStorage) (n : Nat)
    (caps : GoString) (c : Creation Exchange Created) : Prop where
  requests : ∀ br, Allocated storage b.allocate br →
    Waited b br c.log ∨ BecameReady b br c.log ∨ ∃ answer, Posted b br caps answer c.log
  unallocated : (∀ br, ¬ Allocated storage b.allocate br) →
    c.log = [] ∧ c.closes = [] ∧ ∃ err, c.result = .error err
  created : ∀ created, c.result = .ok created → c.closes = [] ∧ created.sess.br = n ∧
    storage'.add .webdriver created.sess = .ok c.storage ∧
    ∃ br resp, Allocated storage b.allocate br ∧ Posted b br caps (.ok resp) c.log ∧
      resp.status < statusBadRequest ∧ resp.body.bind decodeMap = .ok created.resp ∧
      extractSessionID created.resp = .ok created.sess.id
  failed : ∀ err, c.result = .error err → c.storage = storage' ∧
    ∀ br, Allocated storage b.allocate br → c.closes = [true]

section

variable {b : Backend} {storage storage' : LocalSessionStorage} {n : Nat} {caps : GoString}

theorem AllOrNothing.refused {err : Err} (h : ∀ br, ¬ Allocated storage b.allocate br) :
    AllOrNothing b storage storage' n caps ⟨storage', .error err, [], []⟩ := by
  refine ⟨fun br hbr => absurd hbr (h br), fun _ => ⟨rfl, rfl, err, rfl⟩, ?_, ?_⟩
  · intro created hc
    contradiction
  · intro _ _
    exact ⟨rfl, fun br hbr => absurd hbr (h br)⟩

theorem AllOrNothing.closed {br : Browser} {log : List Exchange} {err : Err}
    (hbr : Allocated storage b.allocate br)
    (hlog : Waited b br log ∨ BecameReady b br log ∨ ∃ answer, Posted b br caps answer log) :
    AllOrNothing b storage storage' n caps ⟨storage', .error err, log, [true]⟩ := by
  refine ⟨?_, fun h => absurd hbr (h br), ?_, fun _ _ => ⟨rfl, fun _ _ => rfl⟩⟩
  · intro br' hbr'
    have heq : br' = br := Except.ok.inj (hbr'.2.symm.trans hbr.2)
    rw [heq]
    exact hlog
  · intro created hc
    contradiction

/-- Whatever the storage, the manager, the browser and the clock do, `CreateSession` sends
one `POST` at most, behind the first answer below 400 to its status requests; it returns a
session only if the `POST` was answered below 400 with the id under which the session is
stored; and if it returns an error the storage is as it found it and its browser, if it got
one, was closed once and thrown away. -/
theorem createSession_all_or_nothing (b : Backend) (storage storage' : LocalSessionStorage)
    (n : Nat) (caps : GoString) :
    AllOrNothing b storage storage' n caps (createSession b storage storage' n caps) := by
  rw [createSession]
  split
  · rename_i hshutdown
    apply AllOrNothing.refused
    intro br hbr
    rw [hbr.1] at hshutdown
    contradiction
  rename_i hshutdown
  split
  · rename_i err hallocate
    apply AllOrNothing.refused
    intro br hbr
    rw [hbr.2] at hallocate
    contradiction
  rename_i br hallocate
  have hbr : Allocated storage b.allocate br := ⟨by simpa using hshutdown, hallocate⟩
  split
  · rename_i err log hwait
    exact .closed hbr (.inl (waitWebdriverStarted_error hwait))
  rename_i u polls hwait
  have hready := waitWebdriverStarted_ok hwait
  split
  · rename_i err log hproxy
    apply AllOrNothing.closed hbr
    rcases proxyCreateSession_log hproxy with ⟨hlog, _⟩ | hlog
    · rw [hlog]
      exact .inr (.inl hready)
    · exact .inr (.inr ⟨_, polls, hready, hlog⟩)
  rename_i members log hproxy
  obtain ⟨resp, hlog, hstatus, hmembers⟩ := proxyCreateSession_ok hproxy
  have hposted : Posted b br caps (.ok resp) log := ⟨polls, hready, hlog⟩
  split
  · rename_i err hid
    exact .closed hbr (.inr (.inr ⟨_, hposted⟩))
  rename_i id hid
  split
  · rename_i err hadd
    exact .closed hbr (.inr (.inr ⟨_, hposted⟩))
  rename_i storage'' hadd
  refine ⟨?_, fun h => absurd hbr (h br), ?_, ?_⟩
  · intro br' hbr'
    have heq : br' = br := Except.ok.inj (hbr'.2.symm.trans hbr.2)
    rw [heq]
    exact .inr (.inr ⟨_, hposted⟩)
  · intro created hc
    cases hc
    exact ⟨rfl, rfl, hadd, br, resp, hbr, hposted, hstatus, hmembers, hid⟩
  · intro err hc
    contradiction

end

/-! ## Giving up -/

/-- The status for a context that is done. -/
def statusOf : CtxErr → Int
  | .deadlineExceeded => 504
  | .canceled => 499

theorem expectedStatus_giveUp (cause : CtxErr) (last : Err) :
    (giveUp cause last).expectedStatus = statusOf cause := by
  cases cause with
  | deadlineExceeded => rfl
  | canceled => rfl

theorem plain_giveUp (cause : CtxErr) (last : Err) : Plain (giveUp cause last) := by
  apply Plain.wrap
  exact ⟨rfl, rfl⟩

theorem webdriverResponse_giveUp (format : Err → GoString) (cause : CtxErr) (last : Err)
    (msg : GoString) :
    (webdriverResponse format (giveUp cause last) msg).bind Controllers.Response.status =
      some (statusOf cause) := by
  have hplain := ((plain_giveUp cause last).wrapTimeoutErr msg).wrapCancelledErr
  rw [webdriverResponse, wdSessionNotCreatedError, newW3CErr, hplain.errorHandler_w3c,
    Option.bind_some, Controllers.Response.status, code_wrapped, expectedStatus_giveUp]

theorem playwrightResponse_giveUp (cause : CtxErr) (last : Err) (msg : GoString) :
    (playwrightResponse (giveUp cause last) msg).bind Controllers.Response.status = some (statusOf cause) := by
  have hplain := ((plain_giveUp cause last).wrapTimeoutErr msg).wrapCancelledErr
  rw [playwrightResponse, hplain.errorHandler, Option.bind_some, Controllers.Response.status,
    code_wrapped, expectedStatus_giveUp]

section

variable {η : Type} {d : Deadline η} {ask : List η → η} {judge : η → Verdict Err}

/-- A loop whose answers all ask for another try ends with its context, in time. -/
theorem poll_gaveUp (h : ∀ l, ∃ err, judge (ask l) = .retry err) :
    ∃ cause last log, poll d ask judge giveUp [] = (.error (giveUp cause last), log) ∧
      d.done log = some cause ∧ log.length ≤ d.bound + 1 := by
  obtain ⟨tried, last, hp⟩ := poll_polled d ask judge giveUp []
  cases hpoll : poll d ask judge giveUp [] with
  | mk r log =>
    rw [hpoll] at hp
    have hlog : log = tried ++ [last] := hp.log_eq
    have hlen : log.length ≤ d.bound + 1 := by
      rw [hlog, List.length_append, List.length_singleton]
      by_cases hnil : tried = []
      · rw [hnil, List.length_nil]
        omega
      · have := hp.bound hnil
        rw [List.length_nil] at this
        omega
    obtain ⟨l, hl⟩ := hp.asked
    obtain ⟨err, herr⟩ := h l
    rw [← hl] at herr
    cases hp.ends with
    | ready hready =>
      rw [herr] at hready
      contradiction
    | failed err' hfailed =>
      rw [herr] at hfailed
      contradiction
    | gaveUp err' cause hretry hdone =>
      refine ⟨cause, err', log, rfl, ?_, hlen⟩
      rw [hlog]
      exact hdone

end

/-- A browser that never gets ready is given up: in time, with the status of the context that
ended the wait, and with the browser closed. -/
theorem never_ready {storage : LocalSessionStorage} (storage' : LocalSessionStorage) (n : Nat)
    (hopen : storage.shutdown = false) (br : Browser) :
    (∀ (b : Backend) (caps : GoString) (format : Err → GoString), b.allocate = .ok br →
      (∃ u, b.newRequest (statusRequest br).url = .ok u) →
      (∀ log resp, b.client log (statusRequest br) = .ok resp → statusBadRequest ≤ resp.status) →
      ∃ cause last, (createSession b storage storage' n caps).result =
          .error (wrapTimeoutErr (giveUp cause last) (CreateError.notReady .webdriver).message) ∧
        b.clock.done (createSession b storage storage' n caps).log = some cause ∧
        (createSession b storage storage' n caps).log.length ≤ b.clock.bound + 1 ∧
        (createSession b storage storage' n caps).closes = [true] ∧
        (webdriverResponse format (giveUp cause last)
          (CreateError.notReady .webdriver).message).bind Controllers.Response.status =
            some (statusOf cause)) ∧
      ∀ (b : PWBackend) (id : GoString), b.allocate = .ok br →
        (∀ log, ∃ err, serverReady b.checkConn ⟨br.url.host, b.dial log br.url.host⟩ = .retry err) →
        ∃ cause last, (createPWSession b storage storage' n id).result =
            .error (wrapTimeoutErr (giveUp cause last) (CreateError.notReady .playwright).message) ∧
          b.clock.done (createPWSession b storage storage' n id).log = some cause ∧
          (createPWSession b storage storage' n id).log.length ≤ b.clock.bound + 1 ∧
          (createPWSession b storage storage' n id).closes = [true] ∧
          (playwrightResponse (giveUp cause last)
            (CreateError.notReady .playwright).message).bind Controllers.Response.status =
              some (statusOf cause) := by
  constructor
  · rintro b caps format hbr ⟨u, hu⟩ hnever
    have hretry : ∀ l, ∃ err, ready b (b.exchange l (statusRequest br)) = .retry err := by
      intro l
      rw [ready, Backend.exchange]
      cases hresp : b.client l (statusRequest br) with
      | error err => exact ⟨err, rfl⟩
      | ok resp =>
        have := hnever l resp hresp
        refine ⟨_, if_neg ?_⟩
        omega
    obtain ⟨cause, last, log, hpoll, hdone, hlen⟩ := poll_gaveUp (d := b.clock) hretry
    have hcreate : createSession b storage storage' n caps =
        ⟨storage', .error (wrapTimeoutErr (giveUp cause last)
          (CreateError.notReady .webdriver).message), log, [true]⟩ := by
      rw [createSession, hopen, hbr]
      simp only [Bool.false_eq_true, if_false, waitWebdriverStarted, hu, hpoll]
    rw [hcreate]
    exact ⟨cause, last, rfl, hdone, hlen, rfl, webdriverResponse_giveUp format cause last _⟩
  · intro b id hbr hretry
    obtain ⟨cause, last, log, hpoll, hdone, hlen⟩ := poll_gaveUp (d := b.clock) hretry
    have hcreate : createPWSession b storage storage' n id =
        ⟨storage', .error (wrapTimeoutErr (giveUp cause last)
          (CreateError.notReady .playwright).message), log, [true]⟩ := by
      rw [createPWSession, createBrowser, hopen, hbr]
      simp only [Bool.false_eq_true, if_false, waitBrowserServerStarted, hpoll]
    rw [hcreate]
    exact ⟨cause, last, rfl, hdone, hlen, rfl, playwrightResponse_giveUp cause last _⟩

/-! A browser that refuses every connection, and a context that is done behind the third. -/

def sampleBrowser : Browser :=
  ⟨⟨bytes "http", bytes "b:4444", [], [], [], []⟩, bytes "b", []⟩

def thirdTry (η : Type) : Deadline η where
  done log := if 3 ≤ log.length then some .deadlineExceeded else none
  bound := 3
  passes log h := by
    rw [if_pos h]
    rfl

def refused : Err := newError (bytes "connection refused")

def deadBackend : Backend :=
  ⟨.ok sampleBrowser, fun _ => .ok (), fun _ _ => .error refused, thirdTry Exchange, fun u => u.host⟩

def deadServer : PWBackend := ⟨.ok sampleBrowser, true, fun _ _ => .refused refused, thirdTry Attempt⟩

theorem never_ready_dead :
    (createSession deadBackend .new .new 0 []).closes = [true] ∧
      (createPWSession deadServer .new .new 0 (bytes "id")).closes = [true] := by
  have hopen : LocalSessionStorage.new.shutdown = false := rfl
  obtain ⟨hwd, hpw⟩ := never_ready .new 0 hopen sampleBrowser
  have hnever : ∀ (log : List Exchange) (resp : Response),
      deadBackend.client log (statusRequest sampleBrowser) = .ok resp →
        statusBadRequest ≤ resp.status := by
    intro log resp h
    contradiction
  obtain ⟨_, _, _, _, _, hcloses, _⟩ :=
    hwd deadBackend [] (fun err => err.text) rfl ⟨(), rfl⟩ hnever
  obtain ⟨_, _, _, _, _, hcloses', _⟩ :=
    hpw deadServer (bytes "id") rfl fun log => ⟨refused, rfl⟩
  exact ⟨hcloses, hcloses'⟩

end Selebrow.Session.Create
