import Selebrow.Go
import Selebrow.Transition.Machine

/-!
# The quota authorizer

`LimitQuotaAuthorizer` is a counter of granted slots with a bounded queue of
waiters.  `reserve`, `cancel`, `release` and `externalReserve` are the sections
that the source runs under its mutex, each a function on the authorizer.  Around
them stands the machine of all the calls.  A `Reserve` call is one entry of
`calls`, numbered in the order in which the calls took the lock, and the number
stands for the channel that a queued call waits on.

The counters are Go `int`s.  Where nobody reserves from outside they count goroutines
and containers, and they are taken as unbounded integers; `Quota.External` has the sums
of `int`s.
-/

namespace Selebrow.Quota

open Transition

/-- An error of `Reserve`: the HTTP code it carries, the context error it wraps,
and its text. -/
structure ReserveError where
  code : Option Nat
  cause : Option CtxErr
  text : String
deriving DecidableEq, Repr

def wrap (err : CtxErr) (msg : String) : ReserveError :=
  { code := none, cause := some err, text := msg ++ ": " ++ err.text }

def newQuoteExceededError (e : ReserveError) : ReserveError :=
  { e with code := some 429 }

structure LimitQuotaAuthorizer where
  limit : Int
  allocated : Int
  queue : List Nat
  qLimit : Int
deriving DecidableEq, Repr

/-- How the first locked section of `Reserve` ends. -/
inductive Entered
  | granted
  | rejected (err : ReserveError)
  | queued
deriving DecidableEq, Repr

namespace LimitQuotaAuthorizer

def new (limit qLimit : Int) : LimitQuotaAuthorizer :=
  { limit := limit, allocated := 0, queue := [], qLimit := qLimit }

def formatError (q : LimitQuotaAuthorizer) (msg : String) : String :=
  msg ++ ": allocated=" ++ toString q.allocated ++ ", limit=" ++ toString q.limit ++
    ", queue size=" ++ toString q.queue.length

/-- The first locked section of `Reserve`, for a call that would wait on `ch`. -/
def reserve (q : LimitQuotaAuthorizer) (ch : Nat) : LimitQuotaAuthorizer × Entered :=
  let qSize := (q.queue.length : Int)
  if q.allocated + qSize < q.limit then
    ({ q with allocated := q.allocated + 1 }, .granted)
  else if qSize ≥ q.qLimit then
    (q, .rejected (newQuoteExceededError
      { code := none, cause := none, text := q.formatError "quota exceeded" }))
  else
    ({ q with queue := q.queue ++ [ch] }, .queued)

/-- The `default` branch of the second locked section: the waiter leaves the
queue, and the error is formatted after that. -/
def cancel (q : LimitQuotaAuthorizer) (ch : Nat) (err : CtxErr) :
    LimitQuotaAuthorizer × ReserveError :=
  let q' := { q with queue := q.queue.erase ch }
  match err with
  | .deadlineExceeded =>
    (q', newQuoteExceededError (wrap err (q'.formatError "quota wait failed")))
  | .canceled => (q', wrap err (q'.formatError "quota wait cancelled"))

/-- `Release`, with the channel it closes. -/
def release (q : LimitQuotaAuthorizer) : LimitQuotaAuthorizer × Option Nat :=
  match q.queue with
  | ch :: rest => ({ q with queue := rest }, some ch)
  | [] =>
    if q.allocated < 1 then ({ q with allocated := 0 }, none)
    else ({ q with allocated := q.allocated - 1 }, none)

def externalReserve (q : LimitQuotaAuthorizer) (qty : Int) : LimitQuotaAuthorizer :=
  { q with allocated := q.allocated + qty }

end LimitQuotaAuthorizer

/-- A `Reserve` call.  The first two returned from the first section.  The others
were queued: in the `select`, past its `ctx.Done` case and about to lock again,
returned nil, returned an error.  `closed` is the state of the channel. -/
inductive Call
  | fastPath
  | rejected (err : ReserveError)
  | select (closed : Bool)
  | ctxDone (err : CtxErr) (closed : Bool)
  | served
  | failed (err : ReserveError)

namespace Call

def granted : Call → Bool
  | .fastPath | .served => true
  | .select closed | .ctxDone _ closed => closed
  | .rejected _ | .failed _ => false

/-- In the queue as its own code sees it: queued, not served and not cancelled. -/
def waits : Call → Bool
  | .select closed | .ctxDone _ closed => !closed
  | _ => false

def enqueued : Call → Bool
  | .fastPath | .rejected _ => false
  | _ => true

def result : Call → Option (Except ReserveError Unit)
  | .fastPath | .served => some (.ok ())
  | .rejected err | .failed err => some (.error err)
  | .select _ | .ctxDone _ _ => none

def close : Call → Call
  | .select _ => .select true
  | .ctxDone err _ => .ctxDone err true
  | c => c

end Call

/-- A call, and whether the `Release` for its slot has been made. -/
structure Entry where
  call : Call
  released : Bool

/-- The call has been granted a slot that was not given back. -/
def Entry.holds (e : Entry) : Bool := e.call.granted && !e.released

structure State where
  qa : LimitQuotaAuthorizer
  calls : List Entry

/-- The atomic steps: the first section of a new call, the two cases of its first
`select`, its second section, the `Release` of the slot of call `i`, and
`ExternalReserve`. -/
inductive Act
  | reserve
  | wake (i : Nat)
  | ctxDone (i : Nat) (err : CtxErr)
  | recheck (i : Nat)
  | release (i : Nat)
  | externalReserve (qty : Int)

def stepReserve (s : State) : State :=
  let (qa, res) := s.qa.reserve s.calls.length
  let call : Call :=
    match res with
    | .granted => .fastPath
    | .rejected err => .rejected err
    | .queued => .select false
  { qa := qa, calls := s.calls ++ [⟨call, false⟩] }

def stepWake (s : State) (i : Nat) : Option State :=
  match s.calls[i]? with
  | some ⟨.select true, r⟩ => some { s with calls := s.calls.set i ⟨.served, r⟩ }
  | _ => none

/-- `select` may take this case also when the channel is closed. -/
def stepCtxDone (s : State) (i : Nat) (err : CtxErr) : Option State :=
  match s.calls[i]? with
  | some ⟨.select closed, r⟩ => some { s with calls := s.calls.set i ⟨.ctxDone err closed, r⟩ }
  | _ => none

def stepRecheck (s : State) (i : Nat) : Option State :=
  match s.calls[i]? with
  | some ⟨.ctxDone _ true, r⟩ => some { s with calls := s.calls.set i ⟨.served, r⟩ }
  | some ⟨.ctxDone err false, r⟩ =>
    let (qa, e) := s.qa.cancel i err
    some { qa := qa, calls := s.calls.set i ⟨.failed e, r⟩ }
  | _ => none

def closeChannel (calls : List Entry) : Option Nat → List Entry
  | some ch => calls.modify ch fun e => { e with call := e.call.close }
  | none => calls

def stepRelease (s : State) (i : Nat) : Option State :=
  match s.calls[i]? with
  | some e =>
    if e.holds then
      let (qa, ch) := s.qa.release
      some { qa := qa, calls := closeChannel (s.calls.set i { e with released := true }) ch }
    else none
  | none => none

def step (s : State) : Act → Option State
  | .reserve => some (stepReserve s)
  | .wake i => stepWake s i
  | .ctxDone i err => stepCtxDone s i err
  | .recheck i => stepRecheck s i
  | .release i => stepRelease s i
  | .externalReserve qty => some { s with qa := s.qa.externalReserve qty }

def machine (limit qLimit : Int) : Machine State Act :=
  { init := { qa := .new limit qLimit, calls := [] }, step := step }

/-- Every step but `ExternalReserve`. -/
def NoExternal (_ : State) : Act → Prop
  | .externalReserve _ => False
  | _ => True

/-! ## What a step can do -/

/-- The steps of the machine, one constructor for each branch of the source. -/
inductive Step (s : State) : Act → State → Prop
  | fastPath (h : s.qa.allocated + s.qa.queue.length < s.qa.limit) :
      Step s .reserve
        { qa := { s.qa with allocated := s.qa.allocated + 1 },
          calls := s.calls ++ [⟨.fastPath, false⟩] }
  | rejected (err : ReserveError) (h : s.qa.limit ≤ s.qa.allocated + s.qa.queue.length)
      (hq : s.qa.qLimit ≤ s.qa.queue.length) :
      Step s .reserve { s with calls := s.calls ++ [⟨.rejected err, false⟩] }
  | queued (h : s.qa.limit ≤ s.qa.allocated + s.qa.queue.length)
      (hq : (s.qa.queue.length : Int) < s.qa.qLimit) :
      Step s .reserve
        { qa := { s.qa with queue := s.qa.queue ++ [s.calls.length] },
          calls := s.calls ++ [⟨.select false, false⟩] }
  | wake (i : Nat) (r : Bool) (h : s.calls[i]? = some ⟨.select true, r⟩) :
      Step s (.wake i) { s with calls := s.calls.set i ⟨.served, r⟩ }
  | ctxDone (i : Nat) (err : CtxErr) (closed r : Bool)
      (h : s.calls[i]? = some ⟨.select closed, r⟩) :
      Step s (.ctxDone i err) { s with calls := s.calls.set i ⟨.ctxDone err closed, r⟩ }
  | lastMoment (i : Nat) (err : CtxErr) (r : Bool)
      (h : s.calls[i]? = some ⟨.ctxDone err true, r⟩) :
      Step s (.recheck i) { s with calls := s.calls.set i ⟨.served, r⟩ }
  | cancel (i : Nat) (err : CtxErr) (e : ReserveError) (r : Bool)
      (h : s.calls[i]? = some ⟨.ctxDone err false, r⟩) :
      Step s (.recheck i)
        { qa := { s.qa with queue := s.qa.queue.erase i },
          calls := s.calls.set i ⟨.failed e, r⟩ }
  | handOver (i : Nat) (c : Call) (ch : Nat) (rest : List Nat)
      (h : s.calls[i]? = some ⟨c, false⟩) (hc : c.granted = true)
      (hq : s.qa.queue = ch :: rest) :
      Step s (.release i)
        { qa := { s.qa with queue := rest },
          calls := (s.calls.set i ⟨c, true⟩).modify ch fun e => { e with call := e.call.close } }
  | underrun (i : Nat) (c : Call) (h : s.calls[i]? = some ⟨c, false⟩) (hc : c.granted = true)
      (hq : s.qa.queue = []) (ha : s.qa.allocated < 1) :
      Step s (.release i)
        { qa := { s.qa with allocated := 0 }, calls := s.calls.set i ⟨c, true⟩ }
  | free (i : Nat) (c : Call) (h : s.calls[i]? = some ⟨c, false⟩) (hc : c.granted = true)
      (hq : s.qa.queue = []) (ha : 1 ≤ s.qa.allocated) :
      Step s (.release i)
        { qa := { s.qa with allocated := s.qa.allocated - 1 },
          calls := s.calls.set i ⟨c, true⟩ }
  | external (qty : Int) :
      Step s (.externalReserve qty) { s with qa := s.qa.externalReserve qty }

theorem stepReserve_sound (s : State) : Step s .reserve (stepReserve s) := by
  unfold stepReserve LimitQuotaAuthorizer.reserve
  by_cases h : s.qa.allocated + s.qa.queue.length < s.qa.limit
  · simp only [h, if_true]
    exact .fastPath h
  · by_cases hq : (s.qa.queue.length : Int) ≥ s.qa.qLimit
    · simp only [h, hq, if_true, if_false]
      exact .rejected _ (by omega) hq
    · simp only [h, hq, if_false]
      exact .queued (by omega) (by omega)

theorem stepRecheck_sound {s s' : State} {i : Nat} (h : stepRecheck s i = some s') :
    Step s (.recheck i) s' := by
  unfold stepRecheck at h
  split at h
  · rename_i hi
    exact Option.some.inj h ▸ .lastMoment i _ _ hi
  · rename_i err r hi
    have hc : (s.qa.cancel i err).1 = { s.qa with queue := s.qa.queue.erase i } := by
      cases err <;> rfl
    simp only [Option.some.injEq] at h
    rw [hc] at h
    exact h ▸ .cancel i err _ r hi
  · simp at h

theorem stepRelease_sound {s s' : State} {i : Nat} (h : stepRelease s i = some s') :
    Step s (.release i) s' := by
  unfold stepRelease at h
  split at h
  · rename_i e hi
    obtain ⟨c, r⟩ := e
    split at h
    · rename_i hh
      simp only [Entry.holds, Bool.and_eq_true, Bool.not_eq_true'] at hh
      obtain ⟨hc, rfl⟩ := hh
      unfold LimitQuotaAuthorizer.release at h
      cases hq : s.qa.queue with
      | cons ch rest =>
        simp only [hq, closeChannel, Option.some.injEq] at h
        exact h ▸ .handOver i c ch rest hi hc hq
      | nil =>
        by_cases ha : s.qa.allocated < 1
        · simp only [hq, ha, if_true, closeChannel, Option.some.injEq] at h
          exact h ▸ hq ▸ .underrun i c hi hc hq ha
        · simp only [hq, ha, if_false, closeChannel, Option.some.injEq] at h
          exact h ▸ hq ▸ .free i c hi hc hq (by omega)
    · simp at h
  · simp at h

theorem step_sound {s s' : State} {a : Act} (h : step s a = some s') : Step s a s' := by
  cases a with
  | reserve => exact Option.some.inj h ▸ stepReserve_sound s
  | wake i =>
    simp only [step, stepWake] at h
    split at h
    · rename_i hi
      exact Option.some.inj h ▸ .wake i _ hi
    · simp at h
  | ctxDone i err =>
    simp only [step, stepCtxDone] at h
    split at h
    · rename_i hi
      exact Option.some.inj h ▸ .ctxDone i err _ _ hi
    · simp at h
  | recheck i => exact stepRecheck_sound h
  | release i => exact stepRelease_sound h
  | externalReserve qty => exact Option.some.inj h ▸ .external qty

end Selebrow.Quota
