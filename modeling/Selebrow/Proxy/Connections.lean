import Selebrow.Pool.Running
import Selebrow.Session.Ownership

/-!
# Proxied connections

A request that `ValidateSession` admits carries the session it found, and the proxy
connects it to the address of that session's browser.  Nothing in the proxy looks at the
session again: a tunnel lives until one of its ends closes it.  The connection that the
playwright `CreateSession` opens to its own new browser is not among them: it is admitted by
nobody, and ends with the context of the session.

The machine runs the session services over the pools, and the requests beside them; the
quota that may stand between the two hands `Allocate` and `Close` on and is left out.
Browser `b` of the sessions is the pooled browser that `given` has at position `b`, with
the call of the pools that returned it.
-/

namespace Selebrow.Proxy

open Transition

/-- How the services and the pools are set up. -/
structure Config where
  session : Session.Config
  sessionIds : FreshSupply GoString
  pool : Pool.PoolConfig
  browserIds : FreshSupply GoString

/-- A request was admitted and has the address, or its connection to the browser is
open, or it has ended. -/
inductive Phase
  | admitted
  | opened
  | ended
deriving DecidableEq, Repr

structure Conn where
  /-- The browser of the session that the request was admitted for. -/
  br : Nat
  phase : Phase
deriving DecidableEq, Repr

structure State where
  sess : Session.State
  pool : Pool.State
  given : List (Nat × Nat)
  conns : List Conn

inductive Act
  | session (a : Session.Act)
  | pool (a : Pool.Act)
  /-- Call `c` of the pools returns its browser to call `i` of the services. -/
  | allocate (i c : Nat)
  /-- A section of the services that calls `Browser.Close`. -/
  | close (a : Session.Act)
  | validate (protocol : Session.BrowserProtocol) (id : GoString)
  | connect (k : Nat)
  | finish (k : Nat)

/-- The sections that call `Browser.Close`. -/
def closing : Session.Act → Bool
  | .closeFailed _ | .closeDeleted _ _ | .shutdownClose _ => true
  | _ => false

/-- The sections of the services that neither get a browser nor close one. -/
def sessionOnly : Session.Act → Bool
  | .allocate _ true => false
  | a => !closing a

/-- The sections of the pools; `Close` is called by the services. -/
def poolOnly : Pool.Act → Bool
  | .close _ _ => false
  | _ => true

def stepSession (cfg : Config) (s : State) (a : Session.Act) : Option State :=
  if sessionOnly a then
    (Session.step cfg.session cfg.sessionIds s.sess a).map fun sess => { s with sess := sess }
  else none

def stepPool (cfg : Config) (s : State) (a : Pool.Act) : Option State :=
  if poolOnly a then
    (Pool.step cfg.pool cfg.browserIds s.pool a).map fun pool => { s with pool := pool }
  else none

def stepAllocate (cfg : Config) (s : State) (i c : Nat) : Option State :=
  match s.pool.clients[c]? with
  | some (.holding _ w) =>
    if s.given.any (fun e => e.1 == c) then none
    else
      (Session.step cfg.session cfg.sessionIds s.sess (.allocate i true)).map fun sess =>
        { s with sess := sess, given := s.given ++ [(c, w)] }
  | _ => none

def stepClose (cfg : Config) (s : State) (a : Session.Act) : Option State :=
  if closing a then
    match Session.step cfg.session cfg.sessionIds s.sess a with
    | some sess =>
      match sess.closes.getLast? with
      | some (br, trash) =>
        match s.given[br]? with
        | some (c, _) =>
          (Pool.step cfg.pool cfg.browserIds s.pool (.close c trash)).map fun pool =>
            { s with sess := sess, pool := pool }
        | none => none
      | none => none
    | none => none
  else none

/-- `FindSession` in `ValidateSession`, and the address of the browser. -/
def stepValidate (s : State) (protocol : Session.BrowserProtocol) (id : GoString) : Option State :=
  if s.sess.storage.locked then none
  else
    match s.sess.storage.get protocol id with
    | none => some s
    | some sess => some { s with conns := s.conns ++ [⟨sess.br, .admitted⟩] }

/-- The proxy dials the browser; the session is not looked at. -/
def stepConnect (s : State) (k : Nat) : Option State :=
  match s.conns[k]? with
  | some ⟨br, .admitted⟩ => some { s with conns := s.conns.set k ⟨br, .opened⟩ }
  | _ => none

def stepFinish (s : State) (k : Nat) : Option State :=
  match s.conns[k]? with
  | some conn => some { s with conns := s.conns.set k { conn with phase := .ended } }
  | none => none

def step (cfg : Config) (s : State) : Act → Option State
  | .session a => stepSession cfg s a
  | .pool a => stepPool cfg s a
  | .allocate i c => stepAllocate cfg s i c
  | .close a => stepClose cfg s a
  | .validate protocol id => stepValidate s protocol id
  | .connect k => stepConnect s k
  | .finish k => stepFinish s k

def machine (cfg : Config) : Machine State Act :=
  { init := { sess := .init, pool := .init, given := [], conns := [] }, step := step cfg }

/-! ## What a step can do -/

inductive Step (cfg : Config) (s : State) : Act → State → Prop
  | session (a : Session.Act) (sess : Session.State) (ha : sessionOnly a = true)
      (hs : Session.step cfg.session cfg.sessionIds s.sess a = some sess) :
      Step cfg s (.session a) { s with sess := sess }
  | pool (a : Pool.Act) (pool : Pool.State) (ha : poolOnly a = true)
      (hp : Pool.step cfg.pool cfg.browserIds s.pool a = some pool) :
      Step cfg s (.pool a) { s with pool := pool }
  | allocate (i c : Nat) (name : GoString) (w : Nat) (sess : Session.State)
      (hc : s.pool.clients[c]? = some (.holding name w)) (hnew : c ∉ s.given.map Prod.fst)
      (hs : Session.step cfg.session cfg.sessionIds s.sess (.allocate i true) = some sess) :
      Step cfg s (.allocate i c) { s with sess := sess, given := s.given ++ [(c, w)] }
  | close (a : Session.Act) (sess : Session.State) (br : Nat) (trash : Bool) (c w : Nat)
      (pool : Pool.State) (ha : closing a = true)
      (hs : Session.step cfg.session cfg.sessionIds s.sess a = some sess)
      (hl : sess.closes.getLast? = some (br, trash)) (hg : s.given[br]? = some (c, w))
      (hp : Pool.step cfg.pool cfg.browserIds s.pool (.close c trash) = some pool) :
      Step cfg s (.close a) { s with sess := sess, pool := pool }
  | unknown (protocol : Session.BrowserProtocol) (id : GoString) :
      Step cfg s (.validate protocol id) s
  | validate (protocol : Session.BrowserProtocol) (id : GoString) (sess : Session)
      (hg : (id, sess) ∈ s.sess.storage.entries protocol) :
      Step cfg s (.validate protocol id) { s with conns := s.conns ++ [⟨sess.br, .admitted⟩] }
  | connect (k br : Nat) (hk : s.conns[k]? = some ⟨br, .admitted⟩) :
      Step cfg s (.connect k) { s with conns := s.conns.set k ⟨br, .opened⟩ }
  | finish (k : Nat) (conn : Conn) :
      Step cfg s (.finish k) { s with conns := s.conns.set k { conn with phase := .ended } }

variable {cfg : Config} {s s' : State}

theorem stepAllocate_sound {i c : Nat} (h : stepAllocate cfg s i c = some s') :
    Step cfg s (.allocate i c) s' := by
  unfold stepAllocate at h
  split at h
  · rename_i name w hc
    split at h
    · simp at h
    · rename_i hany
      rw [Option.map_eq_some_iff] at h
      obtain ⟨sess, hs, rfl⟩ := h
      refine .allocate i c name w sess hc (fun hmem => hany ?_) hs
      obtain ⟨e, he, rfl⟩ := List.mem_map.mp hmem
      exact List.any_eq_true.mpr ⟨e, he, beq_self_eq_true e.1⟩
  · simp at h

theorem stepClose_sound {a : Session.Act} (h : stepClose cfg s a = some s') :
    Step cfg s (.close a) s' := by
  unfold stepClose at h
  split at h
  · rename_i ha
    split at h
    · rename_i sess hs
      split at h
      · rename_i br trash hl
        split at h
        · rename_i c w hg
          rw [Option.map_eq_some_iff] at h
          obtain ⟨pool, hp, rfl⟩ := h
          exact .close a sess br trash c w pool ha hs hl hg hp
        · simp at h
      · simp at h
    · simp at h
  · simp at h

theorem step_sound {a : Act} (h : step cfg s a = some s') : Step cfg s a s' := by
  cases a with
  | session a =>
    simp only [step, stepSession] at h
    split at h
    · rename_i ha
      rw [Option.map_eq_some_iff] at h
      obtain ⟨sess, hs, rfl⟩ := h
      exact .session a sess ha hs
    · simp at h
  | pool a =>
    simp only [step, stepPool] at h
    split at h
    · rename_i ha
      rw [Option.map_eq_some_iff] at h
      obtain ⟨pool, hp, rfl⟩ := h
      exact .pool a pool ha hp
    · simp at h
  | allocate i c => exact stepAllocate_sound h
  | close a => exact stepClose_sound h
  | validate protocol id =>
    simp only [step, stepValidate] at h
    split at h
    · simp at h
    split at h
    · exact Option.some.inj h ▸ .unknown protocol id
    · rename_i sess hg
      exact Option.some.inj h ▸ .validate protocol id sess (Session.get_mem hg)
  | connect k =>
    simp only [step, stepConnect] at h
    split at h
    · rename_i br hk
      exact Option.some.inj h ▸ .connect k br hk
    · simp at h
  | finish k =>
    simp only [step, stepFinish] at h
    split at h
    · rename_i conn hk
      exact Option.some.inj h ▸ .finish k conn
    · simp at h

end Selebrow.Proxy
