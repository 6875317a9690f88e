import Selebrow.Controllers.Errors
import Selebrow.Session.Delete
import Selebrow.Transition.Poll

/-!
# Creating a session

`CreateSession` of the two services, from the first look at the storage to its return.  The
manager, the browser behind its URL, and the clock are the partner: a `Backend` answers
knowing all that was sent before.  Other calls may change the storage in between, so the
storage that `IsShutdown` sees and the one that `Add` finds are two arguments.
-/

namespace Selebrow.Session.Create

open Selebrow.Path Selebrow.Controllers Selebrow.Transition

def statusBadRequest : Nat := 400

/-- The text that `errors.Wrapf` puts in front of the error of the context. -/
def giveUp (cause : CtxErr) (last : Err) : Err :=
  wrap (.root (match cause with
    | .deadlineExceeded => .deadlineExceeded
    | .canceled => .canceled)) (bytes "last error was: " ++ last.text)

/-- What a call of `CreateSession` leaves: the storage, its result, what was exchanged with
the browser, and the `trash` of each `Close` of it. -/
structure Creation (η α : Type) where
  storage : LocalSessionStorage
  result : Except Err α
  log : List η
  closes : List Bool

/-! ## Webdriver -/

inductive Method
  | get
  | post
deriving DecidableEq

structure Request where
  method : Method
  url : URL
  host : GoString
  contentType : Option GoString
  body : GoString
deriving DecidableEq

/-- An answer: its status, its first JSON value, and the whole of its body as text. -/
structure Response where
  status : Nat
  body : Except Err Json
  text : GoString

structure Exchange where
  request : Request
  answer : Except Err Response

structure Backend where
  allocate : Except Err Browser
  /-- `http.NewRequestWithContext` fails on a URL that it cannot parse. -/
  newRequest : URL → Except Err Unit
  client : List Exchange → Request → Except Err Response
  clock : Deadline Exchange
  urlString : URL → GoString

/-- The stored session and the response that its client gets. -/
structure Created where
  sess : Session
  resp : List (GoString × Json)

def newError (text : GoString) : Err := .root (.new text)

def statusRequest (br : Browser) : Request where
  method := .get
  url := { br.url with path := join [br.url.path, bytes "status"] }
  host := br.host
  contentType := none
  body := []

def createRequest (br : Browser) (rawCapabilities : GoString) : Request where
  method := .post
  url := { br.url with path := join [br.url.path, sessionPath] }
  host := br.host
  contentType := some (bytes "application/json; charset=UTF-8")
  body := rawCapabilities

/-- `Decode` into a map; `null` leaves it nil. -/
def decodeMap : Json → Except Err (List (GoString × Json))
  | .null => .ok []
  | .object members => .ok members
  | v => .error (newError (cannotUnmarshal v "map[string]interface \x7b\x7d"))

section

variable (b : Backend)

def Backend.exchange (log : List Exchange) (r : Request) : Exchange := ⟨r, b.client log r⟩

def ready (x : Exchange) : Verdict Err :=
  match x.answer with
  | .error err => .retry err
  | .ok resp =>
    if resp.status < statusBadRequest then .ready
    else
      .retry (newError (bytes "request " ++ b.urlString x.request.url ++ bytes " failed with code " ++
        bytes (toString resp.status)))

def waitWebdriverStarted (br : Browser) (log : List Exchange) : Except Err Unit × List Exchange :=
  match b.newRequest (statusRequest br).url with
  | .error err => (.error err, log)
  | .ok _ => poll b.clock (fun log => b.exchange log (statusRequest br)) (ready b) giveUp log

def createFailed (r : Request) (resp : Response) : Err :=
  newError (bytes "Create request failed on " ++ b.urlString r.url ++ bytes " with HTTP code " ++
    bytes (toString resp.status) ++ bytes ": " ++ resp.text)

def proxyCreateSession (br : Browser) (caps : GoString) (log : List Exchange) :
    Except Err (List (GoString × Json)) × List Exchange :=
  match b.newRequest (createRequest br caps).url with
  | .error err => (.error err, log)
  | .ok _ =>
    match b.client log (createRequest br caps) with
    | .error err => (.error err, log ++ [b.exchange log (createRequest br caps)])
    | .ok resp =>
      if resp.status ≥ statusBadRequest then
        (.error (createFailed b (createRequest br caps) resp),
          log ++ [b.exchange log (createRequest br caps)])
      else (resp.body.bind decodeMap, log ++ [b.exchange log (createRequest br caps)])

/-- `n` is the number of the browser that is allocated. -/
def createSession (storage storage' : LocalSessionStorage) (n : Nat) (caps : GoString) :
    Creation Exchange Created :=
  if storage.shutdown then ⟨storage', .error (newError errStorageShutdown), [], []⟩
  else
    match b.allocate with
    | .error err =>
      ⟨storage', .error (wrapTimeoutErr err (CreateError.allocate .webdriver).message), [], []⟩
    | .ok br =>
      match waitWebdriverStarted b br [] with
      | (.error err, log) =>
        ⟨storage', .error (wrapTimeoutErr err (CreateError.notReady .webdriver).message), log, [true]⟩
      | (.ok _, log) =>
        match proxyCreateSession b br caps log with
        | (.error err, log') =>
          ⟨storage', .error (wrapTimeoutErr err CreateError.proxyCreate.message), log', [true]⟩
        | (.ok resp, log') =>
          match extractSessionID resp with
          | .error err =>
            ⟨storage', .error (wrap (newError err) (CreateError.parse err).message), log', [true]⟩
          | .ok id =>
            match storage'.add .webdriver ⟨id, n⟩ with
            | .error err =>
              ⟨storage', .error (wrap (newError err) (CreateError.store err).message), log', [true]⟩
            | .ok storage'' => ⟨storage'', .ok ⟨⟨id, n⟩, resp⟩, log', []⟩

end

/-! ## Playwright -/

/-- What `conn.Read` ends with. -/
inductive ReadEnd
  | byte
  | timeout
  | error (err : Err)

/-- What `DialContext` gives, and what becomes of a connection: the error of
`SetReadDeadline`, if there is one, and the end of the read. -/
inductive Dialled
  | refused (err : Err)
  | connected (setDeadline : Option Err) (read : ReadEnd)

structure Attempt where
  hostport : GoString
  outcome : Dialled

structure PWBackend where
  allocate : Except Err Browser
  checkConn : Bool
  dial : List Attempt → GoString → Dialled
  clock : Deadline Attempt

def serverReady (checkConn : Bool) (x : Attempt) : Verdict Err :=
  match x.outcome with
  | .refused err => .retry err
  | .connected setDeadline read =>
    if checkConn then
      match setDeadline with
      | some err => .failed (wrap err (bytes "failed to set read timeout on test connection"))
      | none =>
        match read with
        | .byte | .timeout => .ready
        | .error err => .retry err
    else .ready

section

variable (b : PWBackend)

def waitBrowserServerStarted (hostport : GoString) (log : List Attempt) :
    Except Err Unit × List Attempt :=
  poll b.clock (fun log => ⟨hostport, b.dial log hostport⟩) (serverReady b.checkConn) giveUp log

/-- The browser or an error, with what was tried and closed. -/
def createBrowser : Except Err Browser × List Attempt × List Bool :=
  match b.allocate with
  | .error err => (.error (wrapTimeoutErr err (CreateError.allocate .playwright).message), [], [])
  | .ok br =>
    match waitBrowserServerStarted b br.url.host [] with
    | (.error err, log) =>
      (.error (wrapTimeoutErr err (CreateError.notReady .playwright).message), log, [true])
    | (.ok _, log) => (.ok br, log, [])

/-- `id` is the id that `genSessionID` makes. -/
def createPWSession (storage storage' : LocalSessionStorage) (n : Nat) (id : GoString) :
    Creation Attempt Session :=
  if storage.shutdown then ⟨storage', .error (newError errStorageShutdown), [], []⟩
  else
    match createBrowser b with
    | (.error err, log, closes) => ⟨storage', .error err, log, closes⟩
    | (.ok _, log, _) =>
      match storage'.add .playwright ⟨id, n⟩ with
      | .error err =>
        ⟨storage', .error (wrap (newError err) (CreateError.store err).message), log, [true]⟩
      | .ok storage'' => ⟨storage'', .ok ⟨id, n⟩, log, []⟩

end

end Selebrow.Session.Create
