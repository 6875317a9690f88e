import Selebrow.Go

/-!
# The session storage

`LocalSessionStorage` maps protocol and session id to the session.  A session is
made for one browser and never changes it, so the number of the browser tells the
sessions apart where the source compares pointers.
-/

namespace Selebrow

structure Session where
  protected id : GoString
  /-- The browser, numbered in the order in which `Allocate` returned them. -/
  br : Nat
deriving DecidableEq, Repr

end Selebrow

namespace Selebrow.Session

inductive BrowserProtocol
  | webdriver
  | playwright
deriving DecidableEq, Repr

structure LocalSessionStorage where
  /-- `map[models.BrowserProtocol]map[string]*Session` -/
  sessions : BrowserProtocol → Option (List (GoString × Session))
  shutdown : Bool
  /-- `Shutdown` holds the lock while it waits. -/
  locked : Bool

def errStorageShutdown : GoString := bytes "session storage is shutdown"

namespace LocalSessionStorage

def new : LocalSessionStorage :=
  { sessions := fun _ => none, shutdown := false, locked := false }

/-- The entries of one protocol; a map that is absent has none. -/
def entries (s : LocalSessionStorage) (protocol : BrowserProtocol) : List (GoString × Session) :=
  (s.sessions protocol).getD []

def setSessions (s : LocalSessionStorage) (protocol : BrowserProtocol)
    (ps : List (GoString × Session)) : LocalSessionStorage :=
  { s with sessions := fun p => if p = protocol then some ps else s.sessions p }

def add (s : LocalSessionStorage) (protocol : BrowserProtocol) (sess : Session) :
    Except GoString LocalSessionStorage :=
  if s.shutdown then .error errStorageShutdown
  else .ok (s.setSessions protocol (insertKey (s.entries protocol) sess.id sess))

def get (s : LocalSessionStorage) (protocol : BrowserProtocol) (id : GoString) : Option Session :=
  match s.sessions protocol with
  | none => none
  | some ps => (ps.find? fun e => e.1 == id).map Prod.snd

def list (s : LocalSessionStorage) (protocol : BrowserProtocol) : List Session :=
  match s.sessions protocol with
  | none => []
  | some ps => ps.map Prod.snd

def delete (s : LocalSessionStorage) (protocol : BrowserProtocol) (id : GoString) :
    LocalSessionStorage × Bool :=
  match s.sessions protocol with
  | none => (s, false)
  | some ps =>
    if hasKey ps id then (s.setSessions protocol (deleteKey ps id), true) else (s, false)

/-- The sessions whose browsers `Shutdown` closes. -/
def all (s : LocalSessionStorage) : List Session :=
  s.list .webdriver ++ s.list .playwright

/-- `Shutdown` up to its `select`. -/
def shutDown (s : LocalSessionStorage) : LocalSessionStorage :=
  { s with sessions := fun _ => none, shutdown := true, locked := true }

end LocalSessionStorage

end Selebrow.Session
