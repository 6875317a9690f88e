import Selebrow.Go
import Selebrow.Transition.Machine

/-!
# Pooled browsers

`BrowserPoolManager` keeps one `IdleBrowserPool` for each pool name.  A browser
that the backend allocated is wrapped in a `PooledBrowser`, handed to a client,
and on `Close(trash=false)` checked in to the pool it came from, where it waits
idle until a later checkout, its idle timer or a shutdown takes it out.

Pointers are positions: `browsers` holds what `NewPooledBrowser` made, one entry
for each browser the backend allocated, and `pools` what the factory made.  Every
locked section is one step.  A `Shutdown` holds its lock while it waits, which is
what `locked` records; the sections that need that lock are disabled meanwhile.
A timer that was started is in `timers` until its callback runs.  Stopping it
does not take it out, because a callback that has begun still runs, and nothing
bounds how late it runs, so the delay given to the timer is left out.
-/

namespace Selebrow.Pool

open Transition

structure PoolConfig where
  maxIdle : Int
  maxAge : Int

structure PooledBrowser where
  id : GoString
  tm : Int
  /-- The pool whose `checkin` the browser was given. -/
  checkin : Nat
deriving DecidableEq, Repr

structure IdleBrowserPool where
  name : GoString
  /-- `map[string]*PooledBrowser` -/
  idleWd : List (GoString × Nat)
  shutdown : Bool
  locked : Bool
deriving DecidableEq, Repr

def newIdleBrowserPool (name : GoString) : IdleBrowserPool :=
  { name := name, idleWd := [], shutdown := false, locked := false }

inductive AllocateError
  | managerShutdown
  | poolShutdown (name : GoString)
  | backend
deriving DecidableEq, Repr

/-- The text of the errors that are made here. -/
def AllocateError.text : AllocateError → Option GoString
  | .managerShutdown => some (bytes "Pool manager was shutdown")
  | .poolShutdown name => some (bytes "pool [" ++ name ++ bytes "] is shutdown")
  | .backend => none

/-- One `Allocate` call and then the `Close` of the browser it returned: the
section that is next, with the pool name that the call computed. -/
inductive Client
  | isShutdown (name : GoString)
  | getPool (name : GoString)
  | createPool (name : GoString)
  | popIdle (name : GoString) (p : Nat)
  | backend (name : GoString) (p : Nat)
  | failed (err : AllocateError)
  | holding (name : GoString) (w : Nat)
  | poolState (w : Nat)
  | checkAge (w : Nat)
  | pushIdle (w : Nat)
  | returned
deriving DecidableEq, Repr

inductive ClosePhase
  | claimed
  | called
  | completed
deriving DecidableEq, Repr

/-- A backend `Close` on browser `w`, from the moment its caller is bound to make
it. -/
structure Closer where
  w : Nat
  phase : ClosePhase
deriving DecidableEq, Repr

/-- A goroutine that runs `IdleBrowserPool.Shutdown`.  It waits for the closers
from `lo` up to `hi`. -/
inductive PoolShutdown
  | start (p : Nat)
  | waiting (p lo hi : Nat)
  | done (p : Nat)
deriving DecidableEq, Repr

/-- A `BrowserPoolManager.Shutdown` call that took the lock.  It waits for the
goroutines from `lo` up to `hi`. -/
inductive Shutdown
  | waiting (lo hi : Nat)
  | returned (ok : Bool)
deriving DecidableEq, Repr

structure State where
  pools : List IdleBrowserPool
  shutdown : Bool
  locked : Bool
  browsers : List PooledBrowser
  clients : List Client
  timers : List Nat
  closers : List Closer
  poolShutdowns : List PoolShutdown
  shutdowns : List Shutdown
deriving DecidableEq, Repr

namespace State

def init : State :=
  { pools := [], shutdown := false, locked := false, browsers := [], clients := [],
    timers := [], closers := [], poolShutdowns := [], shutdowns := [] }

def setClient (s : State) (i : Nat) (c : Client) : State :=
  { s with clients := s.clients.set i c }

/-- The caller is bound to call `Close` on the backend browser `w`. -/
def close (s : State) (w : Nat) : State :=
  { s with closers := s.closers ++ [⟨w, .claimed⟩] }

/-- `m.pools[name]` -/
def findPool (s : State) (name : GoString) : Option Nat :=
  s.pools.findIdx? fun p => p.name == name

end State

inductive Act
  | allocate (name : GoString)
  | isShutdown (i : Nat)
  | getPool (i : Nat)
  | createPool (i : Nat)
  /-- `k` is the entry that the iteration over the map meets first. -/
  | popIdle (i k : Nat)
  | backendOk (i : Nat) (now : Int)
  | backendErr (i : Nat)
  | close (i : Nat) (trash : Bool)
  | poolState (i : Nat)
  | checkAge (i : Nat) (now : Int)
  | pushIdle (i : Nat)
  | evictIdle (t : Nat)
  | callClose (k : Nat)
  | completeClose (k : Nat)
  | shutdown
  | poolShutdown (g : Nat)
  | poolShutdownDone (g : Nat) (ctxDone : Bool)
  | shutdownDone (j : Nat) (ctxDone : Bool)
deriving DecidableEq, Repr

def stepIsShutdown (s : State) (i : Nat) : Option State :=
  match s.clients[i]? with
  | some (.isShutdown name) =>
    if s.locked then none
    else if s.shutdown then some (s.setClient i (.failed .managerShutdown))
    else some (s.setClient i (.getPool name))
  | _ => none

def stepGetPool (s : State) (i : Nat) : Option State :=
  match s.clients[i]? with
  | some (.getPool name) =>
    if s.locked then none
    else
      match s.findPool name with
      | some p => some (s.setClient i (.popIdle name p))
      | none => some (s.setClient i (.createPool name))
  | _ => none

/-- The second look at the map; the manager's `shutdown` is not looked at again. -/
def stepCreatePool (s : State) (i : Nat) : Option State :=
  match s.clients[i]? with
  | some (.createPool name) =>
    if s.locked then none
    else
      match s.findPool name with
      | some p => some (s.setClient i (.popIdle name p))
      | none =>
        some { s.setClient i (.popIdle name s.pools.length) with
               pools := s.pools ++ [newIdleBrowserPool name] }
  | _ => none

def stepPopIdle (s : State) (i k : Nat) : Option State :=
  match s.clients[i]? with
  | some (.popIdle name p) =>
    match s.pools[p]? with
    | some pool =>
      if pool.locked then none
      else if pool.shutdown then some (s.setClient i (.failed (.poolShutdown pool.name)))
      else if pool.idleWd.isEmpty then some (s.setClient i (.backend name p))
      else
        match pool.idleWd[k]? with
        | some (id, w) =>
          some { s.setClient i (.holding name w) with
                 pools := s.pools.set p { pool with idleWd := deleteKey pool.idleWd id } }
        | none => none
    | none => none
  | _ => none

def stepBackendOk (ids : FreshSupply GoString) (s : State) (i : Nat) (now : Int) :
    Option State :=
  match s.clients[i]? with
  | some (.backend name p) =>
    some { s.setClient i (.holding name s.browsers.length) with
           browsers := s.browsers ++ [⟨ids.gen s.browsers.length, now, p⟩] }
  | _ => none

def stepBackendErr (s : State) (i : Nat) : Option State :=
  match s.clients[i]? with
  | some (.backend _ _) => some (s.setClient i (.failed .backend))
  | _ => none

/-- `PooledBrowser.Close`, which its holder calls once. -/
def stepClose (s : State) (i : Nat) (trash : Bool) : Option State :=
  match s.clients[i]? with
  | some (.holding _ w) =>
    if trash then some ((s.setClient i .returned).close w)
    else some (s.setClient i (.poolState w))
  | _ => none

/-- `PoolState` takes the read lock, and the test comes after it. -/
def stepPoolState (cfg : PoolConfig) (s : State) (i : Nat) : Option State :=
  match s.clients[i]? with
  | some (.poolState w) =>
    match s.browsers[w]? with
    | some b =>
      match s.pools[b.checkin]? with
      | some pool =>
        if pool.locked then none
        else if pool.shutdown || decide ((pool.idleWd.length : Int) ≥ cfg.maxIdle) then
          some ((s.setClient i .returned).close w)
        else some (s.setClient i (.checkAge w))
      | none => none
    | none => none
  | _ => none

def stepCheckAge (cfg : PoolConfig) (s : State) (i : Nat) (now : Int) : Option State :=
  match s.clients[i]? with
  | some (.checkAge w) =>
    match s.browsers[w]? with
    | some b =>
      if now - b.tm > cfg.maxAge then some ((s.setClient i .returned).close w)
      else some (s.setClient i (.pushIdle w))
    | none => none
  | _ => none

/-- The pool's `shutdown` is not looked at again. -/
def stepPushIdle (s : State) (i : Nat) : Option State :=
  match s.clients[i]? with
  | some (.pushIdle w) =>
    match s.browsers[w]? with
    | some b =>
      match s.pools[b.checkin]? with
      | some pool =>
        if pool.locked then none
        else
          some { s.setClient i .returned with
                 timers := s.timers ++ [w],
                 pools := s.pools.set b.checkin
                   { pool with idleWd := insertKey pool.idleWd b.id w } }
      | none => none
    | none => none
  | _ => none

def stepEvictIdle (s : State) (t : Nat) : Option State :=
  match s.timers[t]? with
  | some w =>
    match s.browsers[w]? with
    | some b =>
      match s.pools[b.checkin]? with
      | some pool =>
        if pool.locked then none
        else if hasKey pool.idleWd b.id then
          some { s.close w with
                 timers := s.timers.eraseIdx t,
                 pools := s.pools.set b.checkin
                   { pool with idleWd := deleteKey pool.idleWd b.id } }
        else some { s with timers := s.timers.eraseIdx t }
      | none => none
    | none => none
  | none => none

def stepCallClose (s : State) (k : Nat) : Option State :=
  match s.closers[k]? with
  | some ⟨w, .claimed⟩ => some { s with closers := s.closers.set k ⟨w, .called⟩ }
  | _ => none

def stepCompleteClose (s : State) (k : Nat) : Option State :=
  match s.closers[k]? with
  | some ⟨w, .called⟩ => some { s with closers := s.closers.set k ⟨w, .completed⟩ }
  | _ => none

/-- `BrowserPoolManager.Shutdown` up to its `select`. -/
def stepShutdown (s : State) : Option State :=
  if s.locked then none
  else
    some { s with
           shutdown := true,
           locked := true,
           poolShutdowns := s.poolShutdowns ++ (List.range s.pools.length).map .start,
           shutdowns := s.shutdowns ++
             [.waiting s.poolShutdowns.length (s.poolShutdowns.length + s.pools.length)] }

/-- `IdleBrowserPool.Shutdown` up to its `select`. -/
def stepPoolShutdown (s : State) (g : Nat) : Option State :=
  match s.poolShutdowns[g]? with
  | some (.start p) =>
    match s.pools[p]? with
    | some pool =>
      if pool.locked then none
      else
        some { s with
               pools := s.pools.set p
                 { pool with idleWd := [], shutdown := true, locked := true },
               closers := s.closers ++ pool.idleWd.map fun e => ⟨e.2, .claimed⟩,
               poolShutdowns := s.poolShutdowns.set g
                 (.waiting p s.closers.length (s.closers.length + pool.idleWd.length)) }
    | none => none
  | _ => none

/-- The entries from `lo` up to `hi` all satisfy `f`. -/
def allBetween {γ : Type} (l : List γ) (lo hi : Nat) (f : γ → Bool) : Bool :=
  ((l.drop lo).take (hi - lo)).all f

def stepPoolShutdownDone (s : State) (g : Nat) (ctxDone : Bool) : Option State :=
  match s.poolShutdowns[g]? with
  | some (.waiting p lo hi) =>
    match s.pools[p]? with
    | some pool =>
      if ctxDone || allBetween s.closers lo hi (fun c => c.phase == .completed) then
        some { s with
               pools := s.pools.set p { pool with locked := false },
               poolShutdowns := s.poolShutdowns.set g (.done p) }
      else none
    | none => none
  | _ => none

def PoolShutdown.isDone : PoolShutdown → Bool
  | .done _ => true
  | _ => false

def stepShutdownDone (s : State) (j : Nat) (ctxDone : Bool) : Option State :=
  match s.shutdowns[j]? with
  | some (.waiting lo hi) =>
    if ctxDone then
      some { s with locked := false, shutdowns := s.shutdowns.set j (.returned false) }
    else if allBetween s.poolShutdowns lo hi PoolShutdown.isDone then
      some { s with locked := false, shutdowns := s.shutdowns.set j (.returned true) }
    else none
  | _ => none

def step (cfg : PoolConfig) (ids : FreshSupply GoString) (s : State) : Act → Option State
  | .allocate name => some { s with clients := s.clients ++ [.isShutdown name] }
  | .isShutdown i => stepIsShutdown s i
  | .getPool i => stepGetPool s i
  | .createPool i => stepCreatePool s i
  | .popIdle i k => stepPopIdle s i k
  | .backendOk i now => stepBackendOk ids s i now
  | .backendErr i => stepBackendErr s i
  | .close i trash => stepClose s i trash
  | .poolState i => stepPoolState cfg s i
  | .checkAge i now => stepCheckAge cfg s i now
  | .pushIdle i => stepPushIdle s i
  | .evictIdle t => stepEvictIdle s t
  | .callClose k => stepCallClose s k
  | .completeClose k => stepCompleteClose s k
  | .shutdown => stepShutdown s
  | .poolShutdown g => stepPoolShutdown s g
  | .poolShutdownDone g ctxDone => stepPoolShutdownDone s g ctxDone
  | .shutdownDone j ctxDone => stepShutdownDone s j ctxDone

def machine (cfg : PoolConfig) (ids : FreshSupply GoString) : Machine State Act :=
  { init := .init, step := step cfg ids }

end Selebrow.Pool
