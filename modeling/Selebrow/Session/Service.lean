import Selebrow.Json
import Selebrow.Session.Storage
import Selebrow.Transition.Machine

/-!
# The session services

The machine of all the calls of the webdriver and the playwright service and of
`LocalSessionStorage.Shutdown`.  Each call stands at the section it runs next.
What the backends do, the session id that a webdriver answers with included, is
the choice of the action.

`browsers` counts the browsers that `Allocate` returned, and `closes` is the history
of the calls of `Browser.Close`, with their `trash`.
-/

namespace Selebrow.Session

open Transition

/-- The configuration that the services read. -/
structure Config where
  proxyDelete : Bool

inductive CreateError
  | storageShutdown
  | allocate (protocol : BrowserProtocol)
  | notReady (protocol : BrowserProtocol)
  | proxyCreate
  | parse (err : GoString)
  | store (err : GoString)
deriving DecidableEq, Repr

/-- The text that the service puts in front of the error it passes on. -/
def CreateError.message : CreateError → GoString
  | .storageShutdown => errStorageShutdown
  | .allocate .webdriver => bytes "failed to allocate webdriver"
  | .allocate .playwright => bytes "failed to allocate playwright browser"
  | .notReady .webdriver => bytes "webdriver did not get ready within configured timeout"
  | .notReady .playwright => bytes "browser server did not get ready within configured timeout"
  | .proxyCreate => bytes "failed to proxy create session request"
  | .parse _ => bytes "failed to parse create session response"
  | .store _ => bytes "failed to store session"

def extractSessionID (resp : List (GoString × Json)) : Except GoString GoString :=
  match member resp (bytes "sessionId") with
  | some (.string sess) => .ok sess
  | some _ => .error (bytes "failed to cast sessionId to string")
  | none =>
    match member resp (bytes "value") with
    | none => .error (bytes "wrong response structure")
    | some (.object sessIDMap) =>
      match member sessIDMap (bytes "sessionId") with
      | none => .error (bytes "wrong response structure")
      | some (.string sess) => .ok sess
      | some _ => .error (bytes "failed to cast sessionId to string")
    | some _ => .error (bytes "failed to cast value to map")

/-- A call and the section that is next.  `delete` and `deleted` are `DeleteSession`
before and after `Storage.Delete`; `rest` is what `cleanupIdleSessions` has still to
look at. -/
inductive Call
  | isShutdown (protocol : BrowserProtocol)
  | allocate (protocol : BrowserProtocol)
  | waitStarted (protocol : BrowserProtocol) (br : Nat)
  | proxyCreate (br : Nat)
  | add (protocol : BrowserProtocol) (sess : Session)
  | closeFailed (br : Nat) (err : CreateError)
  | failed (err : CreateError)
  | created (protocol : BrowserProtocol) (sess : Session)
  | delete (protocol : BrowserProtocol) (sess : Session) (rest : List Session)
  | deleted (protocol : BrowserProtocol) (sess : Session) (rest : List Session)
  | cleanup (rest : List Session)
  | shutdownClose (br : Nat)
  | shutdownWait (lo hi : Nat)
  | done
deriving DecidableEq, Repr

/-- The call has returned. -/
def Call.finished : Call → Bool
  | .failed _ | .created _ _ | .done => true
  | _ => false

structure State where
  storage : LocalSessionStorage
  browsers : Nat
  calls : List Call
  closes : List (Nat × Bool)

namespace State

def init : State := { storage := .new, browsers := 0, calls := [], closes := [] }

def setCall (s : State) (i : Nat) (c : Call) : State :=
  { s with calls := s.calls.set i c }

/-- `Browser.Close` is called. -/
def close (s : State) (br : Nat) (trash : Bool) : State :=
  { s with closes := s.closes ++ [(br, trash)] }

end State

/-- The sessions that `cleanupIdleSessions` has still to look at. -/
def continueCleanup : List Session → Call
  | [] => .done
  | sess :: rest => .cleanup (sess :: rest)

inductive Act
  | create (protocol : BrowserProtocol)
  | isShutdown (i : Nat)
  | allocate (i : Nat) (ok : Bool)
  | waitStarted (i : Nat) (ok : Bool)
  | proxyCreate (i : Nat) (resp : Option (List (GoString × Json)))
  | add (i : Nat)
  | closeFailed (i : Nat)
  /-- A request to delete or reset the session with this id. -/
  | find (protocol : BrowserProtocol) (id : GoString)
  /-- The playwright connection of the session that call `i` created ended. -/
  | disconnect (i : Nat)
  | delete (i : Nat)
  /-- `ok`: the webdriver deleted its session and the files were cleaned up. -/
  | closeDeleted (i : Nat) (ok : Bool)
  | listSessions
  | cleanup (i : Nat) (expired : Bool)
  | shutdown
  | shutdownClose (i : Nat)
  | shutdownWait (i : Nat) (ctxDone : Bool)

def stepIsShutdown (s : State) (i : Nat) : Option State :=
  match s.calls[i]? with
  | some (.isShutdown protocol) =>
    if s.storage.locked then none
    else if s.storage.shutdown then some (s.setCall i (.failed .storageShutdown))
    else some (s.setCall i (.allocate protocol))
  | _ => none

def stepAllocate (s : State) (i : Nat) (ok : Bool) : Option State :=
  match s.calls[i]? with
  | some (.allocate protocol) =>
    if ok then
      some { s.setCall i (.waitStarted protocol s.browsers) with browsers := s.browsers + 1 }
    else some (s.setCall i (.failed (.allocate protocol)))
  | _ => none

/-- `waitWebdriverStarted` and `waitBrowserServerStarted`.  The playwright service makes
the session id after it. -/
def stepWaitStarted (ids : FreshSupply GoString) (s : State) (i : Nat) (ok : Bool) :
    Option State :=
  match s.calls[i]? with
  | some (.waitStarted protocol br) =>
    if ok then
      match protocol with
      | .webdriver => some (s.setCall i (.proxyCreate br))
      | .playwright => some (s.setCall i (.add .playwright ⟨ids.gen br, br⟩))
    else some (s.setCall i (.closeFailed br (.notReady protocol)))
  | _ => none

def stepProxyCreate (s : State) (i : Nat) (resp : Option (List (GoString × Json))) :
    Option State :=
  match s.calls[i]? with
  | some (.proxyCreate br) =>
    match resp with
    | none => some (s.setCall i (.closeFailed br .proxyCreate))
    | some resp =>
      match extractSessionID resp with
      | .error err => some (s.setCall i (.closeFailed br (.parse err)))
      | .ok id => some (s.setCall i (.add .webdriver ⟨id, br⟩))
  | _ => none

def stepAdd (s : State) (i : Nat) : Option State :=
  match s.calls[i]? with
  | some (.add protocol sess) =>
    if s.storage.locked then none
    else
      match s.storage.add protocol sess with
      | .error err => some (s.setCall i (.closeFailed sess.br (.store err)))
      | .ok storage => some { s.setCall i (.created protocol sess) with storage := storage }
  | _ => none

def stepCloseFailed (s : State) (i : Nat) : Option State :=
  match s.calls[i]? with
  | some (.closeFailed br err) => some ((s.setCall i (.failed err)).close br true)
  | _ => none

def stepFind (s : State) (protocol : BrowserProtocol) (id : GoString) : Option State :=
  if s.storage.locked then none
  else
    match s.storage.get protocol id with
    | none => some s
    | some sess => some { s with calls := s.calls ++ [.delete protocol sess []] }

def stepDisconnect (s : State) (i : Nat) : Option State :=
  match s.calls[i]? with
  | some (.created .playwright sess) => some (s.setCall i (.delete .playwright sess []))
  | _ => none

/-- `if !s.sStorage.Delete(protocol, sess.ID())` -/
def stepDelete (s : State) (i : Nat) : Option State :=
  match s.calls[i]? with
  | some (.delete protocol sess rest) =>
    if s.storage.locked then none
    else
      match s.storage.delete protocol sess.id with
      | (_, false) => some (s.setCall i (continueCleanup rest))
      | (storage, true) =>
        some { s.setCall i (.deleted protocol sess rest) with storage := storage }
  | _ => none

/-- The `trash` of a deleted session. -/
def trash (cfg : Config) (protocol : BrowserProtocol) (ok : Bool) : Bool :=
  match protocol with
  | .webdriver => !cfg.proxyDelete || !ok
  | .playwright => false

def stepCloseDeleted (cfg : Config) (s : State) (i : Nat) (ok : Bool) : Option State :=
  match s.calls[i]? with
  | some (.deleted protocol sess rest) =>
    some ((s.setCall i (continueCleanup rest)).close sess.br (trash cfg protocol ok))
  | _ => none

def stepListSessions (s : State) : Option State :=
  if s.storage.locked then none
  else some { s with calls := s.calls ++ [continueCleanup (s.storage.list .webdriver)] }

/-- The loop of `cleanupIdleSessions`; the clock decides whether the session expired. -/
def stepCleanup (s : State) (i : Nat) (expired : Bool) : Option State :=
  match s.calls[i]? with
  | some (.cleanup (sess :: rest)) =>
    if expired then some (s.setCall i (.delete .webdriver sess rest))
    else some (s.setCall i (continueCleanup rest))
  | _ => none

def stepShutdown (s : State) : Option State :=
  if s.storage.locked then none
  else
    let closing := s.storage.all.map fun sess => Call.shutdownClose sess.br
    some { s with
           storage := s.storage.shutDown,
           calls := s.calls ++ closing ++
             [.shutdownWait s.calls.length (s.calls.length + closing.length)] }

def stepShutdownClose (s : State) (i : Nat) : Option State :=
  match s.calls[i]? with
  | some (.shutdownClose br) => some ((s.setCall i .done).close br true)
  | _ => none

def stepShutdownWait (s : State) (i : Nat) (ctxDone : Bool) : Option State :=
  match s.calls[i]? with
  | some (.shutdownWait lo hi) =>
    if ctxDone || ((s.calls.drop lo).take (hi - lo)).all (· == .done) then
      some { s.setCall i .done with storage := { s.storage with locked := false } }
    else none
  | _ => none

def step (cfg : Config) (ids : FreshSupply GoString) (s : State) : Act → Option State
  | .create protocol => some { s with calls := s.calls ++ [.isShutdown protocol] }
  | .isShutdown i => stepIsShutdown s i
  | .allocate i ok => stepAllocate s i ok
  | .waitStarted i ok => stepWaitStarted ids s i ok
  | .proxyCreate i resp => stepProxyCreate s i resp
  | .add i => stepAdd s i
  | .closeFailed i => stepCloseFailed s i
  | .find protocol id => stepFind s protocol id
  | .disconnect i => stepDisconnect s i
  | .delete i => stepDelete s i
  | .closeDeleted i ok => stepCloseDeleted cfg s i ok
  | .listSessions => stepListSessions s
  | .cleanup i expired => stepCleanup s i expired
  | .shutdown => stepShutdown s
  | .shutdownClose i => stepShutdownClose s i
  | .shutdownWait i ctxDone => stepShutdownWait s i ctxDone

def machine (cfg : Config) (ids : FreshSupply GoString) : Machine State Act :=
  { init := .init, step := step cfg ids }

end Selebrow.Session
