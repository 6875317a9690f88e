import Selebrow.Controllers.Proxy
import Selebrow.Session.Service

/-!
# Deleting a webdriver session

`WDSessionService.DeleteSession` with the four helpers behind it.  The HTTP client answers
each request knowing everything that was sent before, so a client is any sequence of
answers; an answer is what `Do` returns, and an error also stands for a request that could
not be built.  The log has the requests in the order in which they were sent.
-/

namespace Selebrow.Session

open Selebrow.Path Selebrow.Controllers

/-! ## The client -/

inductive Method
  | get
  | delete
deriving DecidableEq

structure Request where
  method : Method
  /-- The URL that is printed for `NewRequestWithContext`. -/
  url : URL
  host : GoString
deriving DecidableEq

structure Response where
  status : Nat
  /-- The first JSON value of the body. -/
  body : Except GoString Json

structure Exchange where
  request : Request
  answer : Except GoString Response

abbrev Log := List Exchange

abbrev HTTPClient := Log → Request → Except GoString Response

/-- The log behind a request. -/
def HTTPClient.sent (c : HTTPClient) (log : Log) (r : Request) : Log := log ++ [⟨r, c log r⟩]

/-! ## The helpers -/

/-- What `DeleteSession` asks the browser of the session for. -/
structure Browser where
  url : URL
  host : GoString
  /-- empty without a file server -/
  fileserver : GoString

/-- `url.Parse` of a scheme and an address. -/
structure HostURL extends URL where
  no_path : path = []

structure WDSessionService where
  cfg : Config
  client : HTTPClient
  parseURL : GoString → Except GoString HostURL

inductive CleanupError
  | url (err : GoString)
  | request (err : GoString)
  | decode (err : GoString)
  | status (r : Request) (status : Nat)

def statusOK : Nat := 200
def statusNotFound : Nat := 404

def sessionRequest (sess : Session) (br : Browser) : Request where
  method := .delete
  url := { br.url with path := join [br.url.path, sessionPath, sess.id] }
  host := br.host

def listingRequest (baseURL : HostURL) : Request where
  method := .get
  url := { baseURL.toURL with rawQuery := bytes "json=true" }
  host := baseURL.host

def fileRequest (baseURL : HostURL) (file : GoString) : Request where
  method := .delete
  url := { baseURL.toURL with path := join [baseURL.path, file] }
  host := baseURL.host

def kindName : Json → GoString
  | .null => bytes "null"
  | .bool _ => bytes "bool"
  | .number _ => bytes "number"
  | .string _ => bytes "string"
  | .array _ => bytes "array"
  | .object _ => bytes "object"

def cannotUnmarshal (v : Json) (type : String) : GoString :=
  bytes "json: cannot unmarshal " ++ kindName v ++ bytes " into Go value of type " ++ bytes type

/-- An element of a `[]string`; `null` leaves the empty string. -/
def decodeString : Json → Except GoString GoString
  | .string s => .ok s
  | .null => .ok []
  | v => .error (cannotUnmarshal v "string")

/-- `Decode` into a `[]string`; `null` leaves it nil. -/
def decodeStrings : Json → Except GoString (List GoString)
  | .null => .ok []
  | .array elements => elements.mapM decodeString
  | v => .error (cannotUnmarshal v "[]string")

section Helpers

variable (s : WDSessionService)

def doDeleteSession (sess : Session) (br : Browser) (log : Log) : Bool × Log :=
  match s.client log (sessionRequest sess br) with
  | .error _ => (false, s.client.sent log (sessionRequest sess br))
  | .ok resp => (resp.status == statusOK, s.client.sent log (sessionRequest sess br))

def getFiles (baseURL : HostURL) (log : Log) : Except CleanupError (List GoString) × Log :=
  match s.client log (listingRequest baseURL) with
  | .error err => (.error (.request err), s.client.sent log (listingRequest baseURL))
  | .ok resp =>
    ((resp.body.bind decodeStrings).mapError .decode, s.client.sent log (listingRequest baseURL))

def deleteFile (baseURL : HostURL) (file : GoString) (log : Log) : Except CleanupError Unit × Log :=
  match s.client log (fileRequest baseURL file) with
  | .error err => (.error (.request err), s.client.sent log (fileRequest baseURL file))
  | .ok resp =>
    if resp.status / 100 ≠ 2 ∧ resp.status ≠ statusNotFound then
      (.error (.status (fileRequest baseURL file) resp.status),
        s.client.sent log (fileRequest baseURL file))
    else (.ok (), s.client.sent log (fileRequest baseURL file))

/-- The loop of `cleanupSession`. -/
def deleteFiles (baseURL : HostURL) : List GoString → Log → Except CleanupError Unit × Log
  | [], log => (.ok (), log)
  | file :: rest, log =>
    match deleteFile s baseURL file log with
    | (.error err, log') => (.error err, log')
    | (.ok _, log') => deleteFiles baseURL rest log'

def cleanupSession (br : Browser) (log : Log) : Except CleanupError Unit × Log :=
  if br.fileserver = [] then (.ok (), log)
  else
    match s.parseURL (bytes "http://" ++ br.fileserver) with
    | .error err => (.error (.url err), log)
    | .ok baseURL =>
      match getFiles s baseURL log with
      | (.error err, log') => (.error err, log')
      | (.ok files, log') => deleteFiles s baseURL files log'

end Helpers

/-- What a call of `DeleteSession` leaves: the storage, what was sent, and the `trash` of each
`Close` of the session's browser. -/
structure Deletion where
  storage : LocalSessionStorage
  log : Log
  closes : List Bool

def deleteSession (s : WDSessionService) (storage : LocalSessionStorage) (sess : Session)
    (br : Browser) : Deletion :=
  match storage.delete .webdriver sess.id with
  | (_, false) => ⟨storage, [], []⟩
  | (storage', true) =>
    if s.cfg.proxyDelete then
      match doDeleteSession s sess br [] with
      | (false, log) => ⟨storage', log, [true]⟩
      | (true, log) =>
        match cleanupSession s br log with
        | (.error _, log') => ⟨storage', log', [true]⟩
        | (.ok _, log') => ⟨storage', log', [false]⟩
    else ⟨storage', [], [true]⟩

/-! ## What a pooled browser has been through -/

/-- An answer to the `DELETE` of a file after which the file is not there. -/
def Removed (answer : Except GoString Response) : Prop :=
  ∃ resp, answer = .ok resp ∧ (resp.status / 100 = 2 ∨ resp.status = statusNotFound)

/-- The file server was asked to delete exactly this file, and it is not there. -/
def Gone (baseURL : HostURL) (file : GoString) (log : Log) : Prop :=
  ∃ e ∈ log, e.request.method = .delete ∧ e.request.url.host = baseURL.host ∧
    e.request.url.path = file ∧ Removed e.answer

/-- The listing was given with a 2xx status, and every file on it is gone. -/
def Emptied (baseURL : HostURL) (log : Log) : Prop :=
  ∃ e ∈ log, e.request = listingRequest baseURL ∧ ∃ resp files, e.answer = .ok resp ∧
    resp.status / 100 = 2 ∧ resp.body.bind decodeStrings = .ok files ∧
    ∀ file ∈ files, Gone baseURL file log

structure Clean (s : WDSessionService) (sess : Session) (br : Browser) (log : Log) : Prop where
  proxyDelete : s.cfg.proxyDelete = true
  session : ∃ e ∈ log, e.request = sessionRequest sess br ∧
    ∃ resp, e.answer = .ok resp ∧ resp.status = statusOK
  files : br.fileserver = [] ∨
    ∃ baseURL, s.parseURL (bytes "http://" ++ br.fileserver) = .ok baseURL ∧ Emptied baseURL log

/-- The browser is closed once, and it goes to the pool only clean. -/
def OnlyCleanPooled (s : WDSessionService) (storage : LocalSessionStorage) (sess : Session)
    (br : Browser) : Prop :=
  ∃ trash, (deleteSession s storage sess br).closes = [trash] ∧
    (trash = false → Clean s sess br (deleteSession s storage sess br).log)

/-! ## When that is so -/

/-- The requests for the files are all answered by a file that is not there. -/
def Accepts (c : HTTPClient) (baseURL : HostURL) : Log → List GoString → Prop
  | _, [] => True
  | log, file :: rest =>
    Removed (c log (fileRequest baseURL file)) ∧
      Accepts c baseURL (c.sent log (fileRequest baseURL file)) rest

/-- The answers with which a browser that has a file server goes to the pool. -/
structure Accepted (s : WDSessionService) (sess : Session) (br : Browser) (baseURL : HostURL)
    (listing : Response) (files : List GoString) : Prop where
  proxyDelete : s.cfg.proxyDelete = true
  session : ∃ resp, s.client [] (sessionRequest sess br) = .ok resp ∧ resp.status = statusOK
  fileserver : br.fileserver ≠ []
  parsed : s.parseURL (bytes "http://" ++ br.fileserver) = .ok baseURL
  listed : s.client (s.client.sent [] (sessionRequest sess br)) (listingRequest baseURL) = .ok listing
  decoded : listing.body.bind decodeStrings = .ok files
  deleted : Accepts s.client baseURL
    (s.client.sent (s.client.sent [] (sessionRequest sess br)) (listingRequest baseURL)) files

/-- The listing that the clean-up goes by is one, and its names are paths in normal form. -/
def GoodListing (s : WDSessionService) (sess : Session) (br : Browser) : Prop :=
  ∀ baseURL listing files, Accepted s sess br baseURL listing files →
    listing.status / 100 = 2 ∧ ∀ file ∈ files, join [file] = file

section Proofs

variable {s : WDSessionService} {sess : Session} {br : Browser} {storage : LocalSessionStorage}

theorem doDeleteSession_log (s : WDSessionService) (sess : Session) (br : Browser) (log : Log) :
    (doDeleteSession s sess br log).2 = s.client.sent log (sessionRequest sess br) := by
  unfold doDeleteSession
  split <;> rfl

theorem doDeleteSession_eq_true (s : WDSessionService) (sess : Session) (br : Browser)
    (log : Log) : (doDeleteSession s sess br log).1 = true ↔
    ∃ resp, s.client log (sessionRequest sess br) = .ok resp ∧ resp.status = statusOK := by
  unfold doDeleteSession
  split
  · rename_i err herr
    constructor
    · intro h
      contradiction
    · rintro ⟨resp, hresp, _⟩
      rw [herr] at hresp
      contradiction
  · rename_i resp hresp
    rw [hresp]
    constructor
    · intro h
      exact ⟨resp, rfl, beq_iff_eq.mp h⟩
    · rintro ⟨resp', heq, hstatus⟩
      cases heq
      exact beq_iff_eq.mpr hstatus

theorem deleteFile_log (baseURL : HostURL) (file : GoString) (log : Log) : (deleteFile s baseURL file log).2 =
    s.client.sent log (fileRequest baseURL file) := by
  unfold deleteFile
  split
  · rfl
  · split <;> rfl

theorem deleteFile_eq_ok (baseURL : HostURL) (file : GoString) (log : Log) :
    (deleteFile s baseURL file log).1 = .ok () ↔ Removed (s.client log (fileRequest baseURL file)) := by
  unfold deleteFile Removed
  split
  · rename_i err herr
    constructor
    · intro h
      contradiction
    · rintro ⟨resp, hresp, _⟩
      rw [herr] at hresp
      contradiction
  · rename_i resp hresp
    rw [hresp]
    split
    · rename_i hbad
      constructor
      · intro h
        contradiction
      · rintro ⟨resp', heq, hstatus⟩
        cases heq
        rcases hstatus with h | h
        · exact absurd h hbad.1
        · exact absurd h hbad.2
    · rename_i hgood
      constructor
      · intro _
        apply Exists.intro resp
        constructor
        · rfl
        · by_cases h : resp.status / 100 = 2
          · exact .inl h
          · by_cases h' : resp.status = statusNotFound
            · exact .inr h'
            · exact absurd ⟨h, h'⟩ hgood
      · intro _
        rfl

/-- The log behind the requests for the files. -/
def afterFiles (c : HTTPClient) (baseURL : HostURL) (log : Log) (files : List GoString) : Log :=
  files.foldl (fun log file => c.sent log (fileRequest baseURL file)) log

theorem deleteFiles_spec (baseURL : HostURL) (files : List GoString) (log : Log) :
    ((deleteFiles s baseURL files log).1 = .ok () ↔ Accepts s.client baseURL log files) ∧
      ((deleteFiles s baseURL files log).1 = .ok () →
        (deleteFiles s baseURL files log).2 = afterFiles s.client baseURL log files) := by
  induction files generalizing log with
  | nil => exact ⟨⟨fun _ => trivial, fun _ => rfl⟩, fun _ => rfl⟩
  | cons file rest ih =>
    have hok := deleteFile_eq_ok (s := s) baseURL file log
    have hlog := deleteFile_log (s := s) baseURL file log
    rw [deleteFiles, Accepts]
    cases hd : deleteFile s baseURL file log with
    | mk r log' =>
      rw [hd] at hok hlog
      cases r with
      | error err =>
        constructor
        · constructor
          · intro h
            contradiction
          · intro h
            have := hok.mpr h.1
            contradiction
        · intro h
          contradiction
      | ok u =>
        have hremoved := hok.mp rfl
        have hlog : log' = s.client.sent log (fileRequest baseURL file) := hlog
        subst hlog
        constructor
        · rw [(ih _).1]
          exact ⟨fun h => ⟨hremoved, h⟩, fun h => h.2⟩
        · exact (ih _).2

/-- The clean-up succeeds without a file server, or with a list of files that are all gone. -/
theorem cleanupSession_eq_ok (log : Log) : (cleanupSession s br log).1 = .ok () ↔
    br.fileserver = [] ∨ br.fileserver ≠ [] ∧ ∃ baseURL listing files,
      s.parseURL (bytes "http://" ++ br.fileserver) = .ok baseURL ∧
      s.client log (listingRequest baseURL) = .ok listing ∧
      listing.body.bind decodeStrings = .ok files ∧
      Accepts s.client baseURL (s.client.sent log (listingRequest baseURL)) files := by
  unfold cleanupSession
  by_cases hfs : br.fileserver = []
  · rw [if_pos hfs]
    exact ⟨fun _ => .inl hfs, fun _ => rfl⟩
  · rw [if_neg hfs]
    cases hparse : s.parseURL (bytes "http://" ++ br.fileserver) with
    | error err => simp [hfs]
    | ok baseURL =>
      cases hlist : s.client log (listingRequest baseURL) with
      | error err => simp [hfs, getFiles, hlist]
      | ok listing =>
        cases hfiles : listing.body.bind decodeStrings with
        | error err => simp [hfs, getFiles, hlist, hfiles, Except.mapError]
        | ok files =>
          simp [hfs, getFiles, hlist, hfiles, Except.mapError, (deleteFiles_spec baseURL files _).1]

theorem cleanupSession_log {baseURL : HostURL} {listing : Response} {files : List GoString}
    {log : Log} (hfs : br.fileserver ≠ [])
    (hparse : s.parseURL (bytes "http://" ++ br.fileserver) = .ok baseURL)
    (hlist : s.client log (listingRequest baseURL) = .ok listing)
    (hfiles : listing.body.bind decodeStrings = .ok files)
    (hdel : Accepts s.client baseURL (s.client.sent log (listingRequest baseURL)) files) :
    (cleanupSession s br log).2 =
      afterFiles s.client baseURL (s.client.sent log (listingRequest baseURL)) files := by
  have hspec := deleteFiles_spec (s := s) baseURL files (s.client.sent log (listingRequest baseURL))
  rw [← hspec.2 (hspec.1.mpr hdel)]
  simp [cleanupSession, hfs, hparse, getFiles, hlist, hfiles, Except.mapError]

theorem delete_stored (h : storage.get .webdriver sess.id = some sess) :
    (storage.delete .webdriver sess.id).2 = true := by
  rw [LocalSessionStorage.get] at h
  rw [LocalSessionStorage.delete]
  split at h
  · contradiction
  · rename_i ps hps
    obtain ⟨e, he, _⟩ := Option.map_eq_some_iff.mp h
    have hid : e.1 = sess.id := by simpa using List.find?_some he
    have hkey : hasKey ps sess.id = true := by
      rw [hasKey_iff, ← hid]
      exact ⟨e.2, List.mem_of_find?_eq_some he⟩
    rw [if_pos hkey]

/-- The log behind the `DELETE` of the session. -/
def afterSession (s : WDSessionService) (sess : Session) (br : Browser) : Log :=
  s.client.sent [] (sessionRequest sess br)

/-- The session and the files, if there are any, are gone. -/
structure Recycles (s : WDSessionService) (sess : Session) (br : Browser) : Prop where
  proxyDelete : s.cfg.proxyDelete = true
  session : ∃ resp, s.client [] (sessionRequest sess br) = .ok resp ∧ resp.status = statusOK
  cleanup : (cleanupSession s br (afterSession s sess br)).1 = .ok ()

/-- The browser of a stored session is closed once, and as trash unless everything is gone. -/
theorem closes_deleteSession (h : storage.get .webdriver sess.id = some sess) :
    (Recycles s sess br → (deleteSession s storage sess br).closes = [false] ∧
      (deleteSession s storage sess br).log = (cleanupSession s br (afterSession s sess br)).2) ∧
    (¬Recycles s sess br → (deleteSession s storage sess br).closes = [true]) := by
  have hstored := delete_stored h
  have hdo := doDeleteSession_eq_true s sess br []
  have hlog := doDeleteSession_log s sess br []
  unfold deleteSession
  cases hd : storage.delete .webdriver sess.id with
  | mk storage' deleted =>
    rw [hd] at hstored
    subst hstored
    simp only
    by_cases hproxy : s.cfg.proxyDelete = true
    · rw [if_pos hproxy]
      cases hs : doDeleteSession s sess br [] with
      | mk ok log =>
        rw [hs] at hdo hlog
        have hlog : log = afterSession s sess br := hlog
        subst hlog
        cases ok with
        | false =>
          constructor
          · intro hr
            have := hdo.mpr hr.session
            contradiction
          · intro _
            rfl
        | true =>
          cases hc : cleanupSession s br (afterSession s sess br) with
          | mk r log' =>
            cases r with
            | error err =>
              constructor
              · intro hr
                have hcleanup := hr.cleanup
                rw [hc] at hcleanup
                contradiction
              · intro _
                simp only [hc]
            | ok u =>
              constructor
              · intro _
                simp only [hc, and_self]
              · intro hr
                refine absurd ⟨hproxy, hdo.mp rfl, ?_⟩ hr
                rw [hc]
    · rw [if_neg hproxy]
      exact ⟨fun hr => absurd hr.proxyDelete hproxy, fun _ => rfl⟩

/-- The helpers make the choice that the machine of the services leaves open. -/
theorem closes_eq_trash (h : storage.get .webdriver sess.id = some sess) :
    ∃ ok, (deleteSession s storage sess br).closes = [trash s.cfg .webdriver ok] := by
  by_cases hr : Recycles s sess br
  · apply Exists.intro true
    rw [((closes_deleteSession h).1 hr).1, trash, hr.proxyDelete]
    rfl
  · apply Exists.intro false
    rw [(closes_deleteSession h).2 hr, trash, Bool.not_false, Bool.or_true]

theorem mem_sent {c : HTTPClient} {log : Log} {r : Request} {e : Exchange} :
    e ∈ c.sent log r ↔ e ∈ log ∨ e = ⟨r, c log r⟩ := by
  rw [HTTPClient.sent, List.mem_append, List.mem_singleton]

/-- Nothing but the files was asked for behind the listing. -/
theorem mem_afterFiles {c : HTTPClient} {baseURL : HostURL} {log : Log} {files : List GoString}
    {e : Exchange} (h : e ∈ afterFiles c baseURL log files) :
    e ∈ log ∨ ∃ file, e.request = fileRequest baseURL file := by
  induction files generalizing log with
  | nil => exact .inl h
  | cons file rest ih =>
    rcases ih h with h | h
    · rcases mem_sent.mp h with h | h
      · exact .inl h
      · rw [h]
        exact .inr ⟨file, rfl⟩
    · exact .inr h

theorem subset_afterFiles (c : HTTPClient) (baseURL : HostURL) {log : Log} (files : List GoString)
    {e : Exchange} (h : e ∈ log) : e ∈ afterFiles c baseURL log files := by
  induction files generalizing log with
  | nil => exact h
  | cons file rest ih => exact ih (mem_sent.mpr (.inl h))

/-- Every file was asked for, and is gone. -/
theorem removed_afterFiles {c : HTTPClient} {baseURL : HostURL} {log : Log} {files : List GoString}
    (h : Accepts c baseURL log files) {file : GoString} (hfile : file ∈ files) :
    ∃ e ∈ afterFiles c baseURL log files, e.request = fileRequest baseURL file ∧
      Removed e.answer := by
  induction files generalizing log with
  | nil => contradiction
  | cons file' rest ih =>
    rcases List.mem_cons.mp hfile with rfl | hfile
    · refine ⟨⟨fileRequest baseURL file, _⟩, ?_, rfl, h.1⟩
      exact subset_afterFiles c baseURL rest (mem_sent.mpr (.inr rfl))
    · exact ih h.2 hfile

theorem path_fileRequest (baseURL : HostURL) (file : GoString) :
    (fileRequest baseURL file).url.path = join [file] := by
  show join [baseURL.path, file] = join [file]
  rw [baseURL.no_path, join_nil_cons]

variable {baseURL : HostURL} {listing : Response} {files : List GoString}

theorem Accepted.recycles (h : Accepted s sess br baseURL listing files) : Recycles s sess br :=
  ⟨h.proxyDelete, h.session, (cleanupSession_eq_ok _).mpr
    (.inr ⟨h.fileserver, baseURL, listing, files, h.parsed, h.listed, h.decoded, h.deleted⟩)⟩

theorem Accepted.log (h : Accepted s sess br baseURL listing files) :
    (cleanupSession s br (afterSession s sess br)).2 = afterFiles s.client baseURL
      (s.client.sent (afterSession s sess br) (listingRequest baseURL)) files :=
  cleanupSession_log h.fileserver h.parsed h.listed h.decoded h.deleted

/-- A request of the log is the one for the session, the one for the listing, or one for a file. -/
theorem mem_log {e : Exchange} (h : e ∈ afterFiles s.client baseURL
    (s.client.sent (afterSession s sess br) (listingRequest baseURL)) files) :
    e.request = sessionRequest sess br ∨
      e = ⟨listingRequest baseURL, s.client (afterSession s sess br) (listingRequest baseURL)⟩ ∨
      ∃ file, e.request = fileRequest baseURL file := by
  rcases mem_afterFiles h with h | h
  · rcases mem_sent.mp h with h | h
    · rcases mem_sent.mp h with h | h
      · contradiction
      · rw [h]
        exact .inl rfl
    · exact .inr (.inl h)
  · exact .inr (.inr h)

/-- Only a path in normal form is ever sent with a `DELETE`. -/
theorem join_of_gone {file : GoString} (h : Gone baseURL file (afterFiles s.client baseURL
    (s.client.sent (afterSession s sess br) (listingRequest baseURL)) files)) :
    join [file] = file := by
  obtain ⟨e, he, hmethod, _, hpath, _⟩ := h
  rw [← hpath]
  rcases mem_log he with h | h | ⟨file', h⟩
  · rw [h]
    exact join_join _
  · rw [h] at hmethod
    contradiction
  · rw [h]
    exact join_join _

/-- The listing that the log has is the one that the clean-up went by. -/
theorem Accepted.emptied_iff (h : Accepted s sess br baseURL listing files) :
    Emptied baseURL (cleanupSession s br (afterSession s sess br)).2 ↔
      listing.status / 100 = 2 ∧ ∀ file ∈ files, join [file] = file := by
  rw [h.log]
  constructor
  · rintro ⟨e, he, hrequest, resp, files', hanswer, hstatus, hdecoded, hgone⟩
    have hget : Method.get ≠ Method.delete := by decide
    have hlisted : e.answer = .ok listing := by
      rcases mem_log he with h' | h' | ⟨file, h'⟩
      · rw [hrequest] at h'
        exact absurd (congrArg Request.method h') hget
      · rw [h']
        exact h.listed
      · rw [hrequest] at h'
        exact absurd (congrArg Request.method h') hget
    rw [hlisted] at hanswer
    cases hanswer
    have hfiles := h.decoded
    rw [hdecoded] at hfiles
    cases hfiles
    exact ⟨hstatus, fun file hfile => join_of_gone (hgone file hfile)⟩
  · rintro ⟨hstatus, hnormal⟩
    refine ⟨⟨listingRequest baseURL, s.client (afterSession s sess br) (listingRequest baseURL)⟩,
      ?_, rfl, listing, files, h.listed, hstatus, h.decoded, ?_⟩
    · exact subset_afterFiles _ _ _ (mem_sent.mpr (.inr rfl))
    · intro file hfile
      obtain ⟨e, he, hrequest, hremoved⟩ := removed_afterFiles h.deleted hfile
      refine ⟨e, he, ?_, ?_, ?_, hremoved⟩
      · rw [hrequest]
        rfl
      · rw [hrequest]
        rfl
      · rw [hrequest, path_fileRequest, hnormal file hfile]

theorem Recycles.accepted (h : Recycles s sess br) (hfs : br.fileserver ≠ []) :
    ∃ baseURL listing files, Accepted s sess br baseURL listing files := by
  rcases (cleanupSession_eq_ok _).mp h.cleanup with hnone | hsome
  · exact absurd hnone hfs
  · obtain ⟨_, baseURL, listing, files, hparsed, hlisted, hdecoded, hdeleted⟩ := hsome
    exact ⟨baseURL, listing, files, h.proxyDelete, h.session, hfs, hparsed, hlisted, hdecoded,
      hdeleted⟩

theorem sessionRequest_mem (h : Recycles s sess br) :
    (⟨sessionRequest sess br, s.client [] (sessionRequest sess br)⟩ : Exchange) ∈
      (cleanupSession s br (afterSession s sess br)).2 := by
  have hfirst : (⟨sessionRequest sess br, s.client [] (sessionRequest sess br)⟩ : Exchange) ∈
      afterSession s sess br := mem_sent.mpr (.inr rfl)
  by_cases hfs : br.fileserver = []
  · rw [cleanupSession, if_pos hfs]
    exact hfirst
  · obtain ⟨baseURL, listing, files, hacc⟩ := h.accepted hfs
    rw [hacc.log]
    exact subset_afterFiles _ _ _ (mem_sent.mpr (.inl hfirst))

theorem goodListing_of_onlyCleanPooled (h : storage.get .webdriver sess.id = some sess)
    (hpool : OnlyCleanPooled s storage sess br) : GoodListing s sess br := by
  intro baseURL listing files hacc
  obtain ⟨trash, hcloses, hclean⟩ := hpool
  obtain ⟨hfalse, hlog⟩ := (closes_deleteSession h).1 hacc.recycles
  rw [hfalse] at hcloses
  cases hcloses
  rcases (hclean rfl).files with hnone | ⟨baseURL', hparsed, hemptied⟩
  · exact absurd hnone hacc.fileserver
  · rw [hacc.parsed] at hparsed
    cases hparsed
    rw [hlog] at hemptied
    exact hacc.emptied_iff.mp hemptied

theorem onlyCleanPooled_of_goodListing (h : storage.get .webdriver sess.id = some sess)
    (hgood : GoodListing s sess br) : OnlyCleanPooled s storage sess br := by
  by_cases hr : Recycles s sess br
  · obtain ⟨hfalse, hlog⟩ := (closes_deleteSession h).1 hr
    refine ⟨false, hfalse, fun _ => ?_⟩
    rw [hlog]
    constructor
    · exact hr.proxyDelete
    · obtain ⟨resp, hresp, hstatus⟩ := hr.session
      exact ⟨_, sessionRequest_mem hr, rfl, resp, hresp, hstatus⟩
    · by_cases hfs : br.fileserver = []
      · exact .inl hfs
      · obtain ⟨baseURL, listing, files, hacc⟩ := hr.accepted hfs
        exact .inr ⟨baseURL, hacc.parsed, hacc.emptied_iff.mpr (hgood baseURL listing files hacc)⟩
  · refine ⟨true, (closes_deleteSession h).2 hr, ?_⟩
    intro htrash
    contradiction

/-- A stored session's browser goes to the pool only clean exactly when no listing that the
clean-up goes by has a status other than 2xx or a name that `path.Join` changes. -/
theorem onlyCleanPooled_iff (h : storage.get .webdriver sess.id = some sess) :
    OnlyCleanPooled s storage sess br ↔ GoodListing s sess br :=
  ⟨goodListing_of_onlyCleanPooled h, onlyCleanPooled_of_goodListing h⟩

end Proofs

/-! ## Three listings -/

def hostURL (host : GoString) : HostURL := ⟨⟨bytes "http", host, [], [], [], []⟩, rfl⟩

/-- The backend and the file server answer every `DELETE` with 200. -/
def serviceWith (status : Nat) (names : List GoString) : WDSessionService where
  cfg := ⟨true⟩
  client := fun _ r =>
    .ok (if r.method = .get then ⟨status, .ok (.array (names.map .string))⟩ else ⟨200, .ok .null⟩)
  parseURL := fun _ => .ok (hostURL (bytes "host1:3322"))

def sampleBrowser : Browser where
  url := ⟨bytes "http", bytes "host1:4444", [], [], [], []⟩
  host := bytes "host1:4444"
  fileserver := bytes "host1:3322"

def sampleSession : Session := ⟨bytes "s1", 0⟩

def sampleStorage : LocalSessionStorage :=
  LocalSessionStorage.new.setSessions .webdriver [(bytes "s1", sampleSession)]

theorem onlyCleanPooled_oneFile :
    OnlyCleanPooled (serviceWith 200 [bytes "file1.txt"]) sampleStorage sampleSession
      sampleBrowser := by
  have hstored : sampleStorage.get .webdriver sampleSession.id = some sampleSession := by decide
  refine (onlyCleanPooled_iff hstored).mpr ?_
  intro baseURL listing files hacc
  have hlisting : listing = ⟨200, .ok (.array [.string (bytes "file1.txt")])⟩ :=
    (Except.ok.inj hacc.listed).symm
  subst hlisting
  have hfiles : files = [bytes "file1.txt"] := (Except.ok.inj hacc.decoded).symm
  subst hfiles
  decide

theorem accepted_serviceWith {status : Nat} {name : GoString} :
    Accepted (serviceWith status [name]) sampleSession sampleBrowser
      (hostURL (bytes "host1:3322")) ⟨status, .ok (.array [.string name])⟩ [name] where
  proxyDelete := rfl
  session := ⟨_, rfl, rfl⟩
  fileserver := by decide
  parsed := rfl
  listed := rfl
  decoded := rfl
  deleted := ⟨⟨⟨200, .ok .null⟩, rfl, .inl rfl⟩, trivial⟩

/-- The listing fails with a list in its body, or has a name that is not in normal form. -/
theorem dirty_browsers_pooled :
    ¬OnlyCleanPooled (serviceWith 500 [bytes "file1.txt"]) sampleStorage sampleSession
        sampleBrowser ∧
      ¬OnlyCleanPooled (serviceWith 200 [bytes "tmp/../file1.txt"]) sampleStorage sampleSession
        sampleBrowser := by
  have hstored : sampleStorage.get .webdriver sampleSession.id = some sampleSession := by decide
  constructor
  · intro h
    have hgood := goodListing_of_onlyCleanPooled hstored h _ _ _ accepted_serviceWith
    exact absurd hgood.1 (by decide)
  · intro h
    have hgood := goodListing_of_onlyCleanPooled hstored h _ _ _ accepted_serviceWith
    exact absurd (hgood.2 _ List.mem_cons_self) (by decide)

end Selebrow.Session
