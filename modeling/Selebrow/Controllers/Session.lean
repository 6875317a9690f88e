import Selebrow.Session.Service

/-!
# The session controllers

The handlers that call the session services and publish the events: `CreateSession` of
both controllers, `DeleteSession` of the webdriver controller, `reset` of the UI, and
the clean-up of idle sessions, which is the service's own.  The machine runs over the
machine of the services: request `i` makes call `i`.

The attributes of an event beyond its protocol and error (browser name, version and
duration) are read off the session or the request that it is published for, and the
model keeps that instead.
-/

namespace Selebrow.Controllers

open Transition Session

/-- The error of a `SessionRequested` event. -/
inductive RequestError
  | badParameters
  | panic
  | create (err : CreateError)
deriving DecidableEq, Repr

inductive Event
  | sessionRequested (protocol : BrowserProtocol) (request : Option Nat) (err : Option RequestError)
  | sessionReleased (protocol : BrowserProtocol) (sess : Session)
deriving DecidableEq, Repr

/-- The handler of a request, and how far it is with its events: `CreateSession` before
its `SessionRequested`, after one without and after one with an error, and past its
`SessionReleased`; `DeleteSession` before and after its `SessionReleased`; the UI's
`reset`; a round of `cleanupIdleSessions`. -/
inductive Handler
  | creating (protocol : BrowserProtocol)
  | created
  | notCreated
  | disconnected
  | deleting (sess : Session)
  | deleted
  | resetting
  | cleaning
deriving DecidableEq, Repr

structure Request where
  handler : Handler
  /-- The browser of the session that the request's call removed from the storage, until
  the removal has completed. -/
  removed : Option Nat
deriving DecidableEq, Repr

structure State where
  srv : Session.State
  requests : List Request
  events : List Event
  /-- The browsers of the sessions whose removal has completed. -/
  removed : List Nat

namespace State

def init : State := { srv := .init, requests := [], events := [], removed := [] }

def setRequest (s : State) (i : Nat) (r : Request) : State :=
  { s with requests := s.requests.set i r }

def publish (s : State) (ev : Event) : State := { s with events := s.events ++ [ev] }

end State

inductive Act
  | create (protocol : BrowserProtocol)
  /-- A create request whose parameters do not parse. -/
  | badRequest (protocol : BrowserProtocol)
  /-- A step that a call of a service makes by itself. -/
  | service (a : Session.Act)
  /-- `CreateSession` of the service panics. -/
  | panic (i : Nat)
  | sessionRequested (i : Nat)
  | deleteSession (id : GoString)
  | reset (protocol : BrowserProtocol) (id : GoString)
  | cleanup
  | delete (i : Nat)
  | closeDeleted (i : Nat) (ok : Bool)
  | sessionReleased (i : Nat)
  /-- The playwright connection of request `i` ended. -/
  | disconnect (i : Nat)

variable (cfg : Config) (ids : FreshSupply GoString)

/-- The call that takes the step. -/
def serviceCall : Session.Act → Option Nat
  | .isShutdown i | .allocate i _ | .waitStarted i _ | .proxyCreate i _ | .add i
  | .closeFailed i | .cleanup i _ => some i
  | _ => none

/-- The call is in `CreateSession` of its service, or that has returned an error. -/
def inCreate : Session.Call → Bool
  | .isShutdown _ | .allocate _ | .waitStarted _ _ | .proxyCreate _ | .add _ _
  | .closeFailed _ _ | .failed _ => true
  | _ => false

def stepCreate (s : State) (protocol : BrowserProtocol) : Option State :=
  (Session.step cfg ids s.srv (.create protocol)).map fun srv =>
    { s with srv := srv, requests := s.requests ++ [⟨.creating protocol, none⟩] }

/-- The calls of a panicked handler take no further step. -/
def stepService (s : State) (a : Session.Act) : Option State :=
  match serviceCall a with
  | some i =>
    match s.requests[i]? with
    | some ⟨.notCreated, _⟩ => none
    | some _ => (Session.step cfg ids s.srv a).map fun srv => { s with srv := srv }
    | none => none
  | none => none

/-- `ev.Error = models.NewInternalServerError(errors.Errorf("panic: %v", r))` -/
def stepPanic (s : State) (i : Nat) : Option State :=
  match s.requests[i]?, s.srv.calls[i]? with
  | some ⟨.creating protocol, _⟩, some c =>
    if inCreate c then
      some ((s.setRequest i ⟨.notCreated, none⟩).publish
        (.sessionRequested protocol (some i) (some .panic)))
    else none
  | _, _ => none

/-- The deferred `Publish` of `CreateSession`. -/
def stepSessionRequested (s : State) (i : Nat) : Option State :=
  match s.requests[i]?, s.srv.calls[i]? with
  | some ⟨.creating protocol, _⟩, some (.created _ _) =>
    some ((s.setRequest i ⟨.created, none⟩).publish (.sessionRequested protocol (some i) none))
  | some ⟨.creating protocol, _⟩, some (.failed err) =>
    some ((s.setRequest i ⟨.notCreated, none⟩).publish
      (.sessionRequested protocol (some i) (some (.create err))))
  | _, _ => none

/-- A handler that starts with `FindSession`. -/
def stepFind (s : State) (protocol : BrowserProtocol) (id : GoString)
    (handler : Session → Handler) : Option State :=
  match Session.step cfg ids s.srv (.find protocol id) with
  | some srv =>
    match s.srv.storage.get protocol id with
    | some sess => some { s with srv := srv, requests := s.requests ++ [⟨handler sess, none⟩] }
    | none => some s
  | none => none

def stepCleanup (s : State) : Option State :=
  (Session.step cfg ids s.srv .listSessions).map fun srv =>
    { s with srv := srv, requests := s.requests ++ [⟨.cleaning, none⟩] }

/-- `Storage.Delete` of a call of `DeleteSession`. -/
def stepDelete (s : State) (i : Nat) : Option State :=
  match s.requests[i]?, s.srv.calls[i]? with
  | some r, some (.delete protocol sess _) =>
    (Session.step cfg ids s.srv (.delete i)).map fun srv =>
      { s with
        srv := srv,
        requests := s.requests.set i
          { r with removed := (s.srv.storage.get protocol sess.id).map Session.br } }
  | _, _ => none

/-- The service's `DeleteSession` returns.  That is the end of a removal, but for the
webdriver controller, which has its event still to publish. -/
def stepCloseDeleted (s : State) (i : Nat) (ok : Bool) : Option State :=
  match s.requests[i]? with
  | some r =>
    (Session.step cfg ids s.srv (.closeDeleted i ok)).map fun srv =>
      match r.handler with
      | .deleting _ => { s with srv := srv }
      | _ =>
        { s with
          srv := srv,
          requests := s.requests.set i { r with removed := none },
          removed := s.removed ++ r.removed.toList }
  | none => none

/-- `s.eb.Publish(evmodels.NewSessionReleasedEvent(ev))` of the webdriver controller. -/
def stepSessionReleased (s : State) (i : Nat) : Option State :=
  match s.requests[i]?, s.srv.calls[i]? with
  | some ⟨.deleting sess, removed⟩, some .done =>
    some { (s.setRequest i ⟨.deleted, none⟩).publish (.sessionReleased .webdriver sess) with
           removed := s.removed ++ removed.toList }
  | _, _ => none

/-- The deferred function of the playwright controller publishes before it deletes. -/
def stepDisconnect (s : State) (i : Nat) : Option State :=
  match s.requests[i]?, s.srv.calls[i]? with
  | some ⟨.created, _⟩, some (.created .playwright sess) =>
    (Session.step cfg ids s.srv (.disconnect i)).map fun srv =>
      { (s.setRequest i ⟨.disconnected, none⟩).publish (.sessionReleased .playwright sess) with
        srv := srv }
  | _, _ => none

def step (s : State) : Act → Option State
  | .create protocol => stepCreate cfg ids s protocol
  | .badRequest protocol => some (s.publish (.sessionRequested protocol none (some .badParameters)))
  | .service a => stepService cfg ids s a
  | .panic i => stepPanic s i
  | .sessionRequested i => stepSessionRequested s i
  | .deleteSession id => stepFind cfg ids s .webdriver id .deleting
  | .reset protocol id => stepFind cfg ids s protocol id fun _ => .resetting
  | .cleanup => stepCleanup cfg ids s
  | .delete i => stepDelete cfg ids s i
  | .closeDeleted i ok => stepCloseDeleted cfg ids s i ok
  | .sessionReleased i => stepSessionReleased s i
  | .disconnect i => stepDisconnect cfg ids s i

def machine : Machine State Act := { init := .init, step := step cfg ids }

end Selebrow.Controllers
