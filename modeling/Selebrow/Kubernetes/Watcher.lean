import Mathlib.Logic.Function.Basic
import Selebrow.Go
import Selebrow.Transition.Machine

/-!
# The pod watcher

`PodWatcherImpl` runs one event loop and any number of `WaitPodReady` calls.  The
loop hands the address of a pod that became ready to the call that is registered
for it, over a channel with room for one value.  The send happens under the read
lock, so while the loop is at its send no call can enter the sections of
`addWaiter` and `removeWaiter`, which need the write lock.

A channel is a position of `channels`.  `processed` is the history of the events
that the loop has taken, the newest first; no step looks at it.
-/

namespace Selebrow.Kubernetes

open Transition

/-- What the loop reads of a `core.Pod`: `containers` is the number of containers
of its spec, `statuses` the `Ready` flags of its container statuses. -/
structure Pod where
  name : GoString
  containers : Nat
  statuses : List Bool
  podIP : GoString
deriving DecidableEq, Repr

inductive EventType
  | added
  | modified
  | deleted
  | other
deriving DecidableEq, Repr

/-- A `watch.Event`; the object is `none` where it is not a pod. -/
structure Event where
  type : EventType
  object : Option Pod
deriving DecidableEq, Repr

/-- A `chan string` made with room for one value. -/
structure Chan where
  buf : Option GoString
  closed : Bool
deriving DecidableEq, Repr

def makeChan : Chan := { buf := none, closed := false }

inductive WaitError
  | watcherClosed
  | ctx (err : CtxErr)
deriving DecidableEq, Repr

def WaitError.text : WaitError → String
  | .watcherClosed => "watcher was closed"
  | .ctx err => err.text

/-- One `WaitPodReady` call: the section that is next. -/
inductive Call
  | addWaiter (podName : GoString)
  | select (podName : GoString) (ch : Nat)
  | removeWaiter (podName : GoString) (ip : GoString) (ok : Bool) (err : Option CtxErr)
  | returned (result : Except WaitError GoString)

/-- Where `watchPodEvents` is.  In `sending` it is at `ch <- ip` under the read lock. -/
inductive Loop
  | idle
  | notifyWaiter (podName ip : GoString)
  | sending (ch : Nat) (ip : GoString)
  | removeWaiter (podName : GoString)
  | done
deriving DecidableEq, Repr

structure State where
  waiters : GoString → Option Nat
  channels : List Chan
  podsReady : GoString → Bool
  loop : Loop
  calls : List Call
  processed : List Event
  panicked : Bool

namespace State

def init : State :=
  { waiters := fun _ => none, channels := [], podsReady := fun _ => false, loop := .idle,
    calls := [], processed := [], panicked := false }

def setCall (s : State) (i : Nat) (c : Call) : State :=
  { s with calls := s.calls.set i c }

/-- The loop holds the read lock exactly while it sends. -/
def rLocked (s : State) : Bool :=
  match s.loop with
  | .sending _ _ => true
  | _ => false

/-- `close(ch)`, which panics on a channel that is closed already. -/
def closeChan (s : State) (ch : Nat) : State :=
  match s.channels[ch]? with
  | some c =>
    if c.closed then { s with panicked := true }
    else { s with channels := s.channels.set ch { c with closed := true } }
  | none => s

/-- The section of `removeWaiter`. -/
def removeWaiter (s : State) (podName : GoString) : State :=
  match s.waiters podName with
  | some ch => { s.closeChan ch with waiters := Function.update s.waiters podName none }
  | none => s

/-- The section of `addWaiter`; the channel it returns is the last one. -/
def addWaiter (s : State) (podName : GoString) : State :=
  { s with
    channels := s.channels ++ [makeChan],
    waiters := Function.update s.waiters podName (some s.channels.length) }

end State

/-- The statuses that the loop over `ContainerStatuses` counts before its `break`. -/
def readyCount : List Bool → Nat
  | [] => 0
  | false :: _ => 0
  | true :: rest => readyCount rest + 1

inductive Act
  | waitPodReady (podName : GoString)
  | addWaiter (i : Nat)
  | receive (i : Nat)
  | ctxDone (i : Nat) (err : CtxErr)
  | removeWaiter (i : Nat)
  | event (e : Event)
  | closed
  | notifyWaiter
  | send
  | deletePod

def stepAddWaiter (s : State) (i : Nat) : Option State :=
  match s.calls[i]? with
  | some (.addWaiter podName) =>
    if s.rLocked then none
    else some ((s.addWaiter podName).setCall i (.select podName s.channels.length))
  | _ => none

/-- `case ip, ok = <-ch`. -/
def stepReceive (s : State) (i : Nat) : Option State :=
  match s.calls[i]? with
  | some (.select podName ch) =>
    match s.channels[ch]? with
    | some ⟨some ip, closed⟩ =>
      some { s.setCall i (.removeWaiter podName ip true none) with
             channels := s.channels.set ch ⟨none, closed⟩ }
    | some ⟨none, true⟩ => some (s.setCall i (.removeWaiter podName [] false none))
    | _ => none
  | _ => none

def stepCtxDone (s : State) (i : Nat) (err : CtxErr) : Option State :=
  match s.calls[i]? with
  | some (.select podName _) =>
    some (s.setCall i (.removeWaiter podName [] false (some err)))
  | _ => none

/-- What `WaitPodReady` returns. -/
def waitResult (ip : GoString) (ok : Bool) (err : Option CtxErr) : Except WaitError GoString :=
  match err with
  | some err => .error (.ctx err)
  | none => if ok then .ok ip else .error .watcherClosed

def stepRemoveWaiter (s : State) (i : Nat) : Option State :=
  match s.calls[i]? with
  | some (.removeWaiter podName ip ok err) =>
    if s.rLocked then none
    else some ((s.removeWaiter podName).setCall i (.returned (waitResult ip ok err)))
  | _ => none

/-- The loop takes an event and goes through its `switch`. -/
def stepEvent (s : State) (e : Event) : Option State :=
  match s.loop with
  | .idle =>
    let s := { s with processed := e :: s.processed }
    match e.object with
    | none => some s
    | some pod =>
      match e.type with
      | .added => some { s with podsReady := Function.update s.podsReady pod.name false }
      | .modified =>
        if s.podsReady pod.name || pod.statuses.length != pod.containers then some s
        else if readyCount pod.statuses = pod.containers then
          some { s with
                 podsReady := Function.update s.podsReady pod.name true,
                 loop := .notifyWaiter pod.name pod.podIP }
        else some s
      | .deleted =>
        some { s with
               podsReady := Function.update s.podsReady pod.name false,
               loop := .removeWaiter pod.name }
      | .other => some s
  | _ => none

def stepNotifyWaiter (s : State) : Option State :=
  match s.loop with
  | .notifyWaiter podName ip =>
    match s.waiters podName with
    | some ch => some { s with loop := .sending ch ip }
    | none => some { s with loop := .idle }
  | _ => none

/-- `ch <- ip`, disabled while the buffer is full.  The read lock is released after it. -/
def stepSend (s : State) : Option State :=
  match s.loop with
  | .sending ch ip =>
    match s.channels[ch]? with
    | some c =>
      if c.closed then some { s with panicked := true }
      else if c.buf = none then
        some { s with channels := s.channels.set ch { c with buf := some ip }, loop := .idle }
      else none
    | none => none
  | _ => none

def stepDeletePod (s : State) : Option State :=
  match s.loop with
  | .removeWaiter podName => some { s.removeWaiter podName with loop := .idle }
  | _ => none

/-- A panic in any goroutine ends the process. -/
def step (s : State) (a : Act) : Option State :=
  if s.panicked then none
  else
    match a with
    | .waitPodReady podName => some { s with calls := s.calls ++ [.addWaiter podName] }
    | .addWaiter i => stepAddWaiter s i
    | .receive i => stepReceive s i
    | .ctxDone i err => stepCtxDone s i err
    | .removeWaiter i => stepRemoveWaiter s i
    | .event e => stepEvent s e
    | .closed => if s.loop = .idle then some { s with loop := .done } else none
    | .notifyWaiter => stepNotifyWaiter s
    | .send => stepSend s
    | .deletePod => stepDeletePod s

def machine : Machine State Act := { init := .init, step := step }

end Selebrow.Kubernetes
