import Selebrow.GoMap
import Selebrow.Transition.Buffered
import Selebrow.Transition.Machine

/-!
# The event broker

`EventBrokerImpl` keeps, for each event type, the channels of its subscribers; a channel
may be in several of the lists.  Publishers go through a list under the read lock, one
send after the other, so the sends of several publishers mix.  `Subscribe` and `ShutDown`
hold the write lock; `ShutDown` goes through the map in any order.

A channel is a position of `subscribers`, a call of `Publish` one of `publishes`.  What is
marked as history no step looks at.
-/

namespace Selebrow.Event

open Transition

/-- What the broker reads of an event, and what it only hands on. -/
structure IEvent (π : Type) where
  eventType : GoString
  event : π
deriving DecidableEq, Repr

/-- The arguments of a `Subscribe`. -/
structure EventTypes where
  names : List GoString
  nodup : names.Nodup

structure Subscriber (π : Type) where
  chan : Buffered (IEvent π)
  /-- History: what the channel was subscribed to, how many calls of `ShutDown` had
  returned, and which calls closed it. -/
  eventTypes : EventTypes
  since : Nat
  closedBy : List Nat

/-- One call of `Publish`: the event, and the channels that the loop has still to see. -/
structure Publish (π : Type) where
  event : IEvent π
  chs : List Nat
  returned : Bool
  /-- History: the channels that are subscribed to the type and not closed as it begins. -/
  registered : List Nat

/-- A running `ShutDown`: the keys of `closed`, and the type that the outer loop is at
with what is left of its channels. -/
structure ShutDown where
  closed : List Nat
  current : Option (GoString × List Nat)

/-- `b.subs[et]` -/
def chsOf (subs : GoMap GoString (List Nat)) (et : GoString) : List Nat :=
  (subs.lookup et).getD []

structure State (π : Type) where
  subs : GoMap GoString (List Nat)
  bSize : Nat
  subscribers : List (Subscriber π)
  publishes : List (Publish π)
  shutDown : Option ShutDown
  /-- History: the calls of `ShutDown` that have returned. -/
  shutDowns : Nat
  panicked : Bool

section

variable {π : Type}

def newEventBrokerImpl (bufferSize : Nat) : State π :=
  { subs := GoMap.empty, bSize := bufferSize, subscribers := [], publishes := [],
    shutDown := none, shutDowns := 0, panicked := false }

namespace State

/-- A publisher holds the read lock from its map access to its return. -/
def rLocked (s : State π) : Bool := s.publishes.any fun p => !p.returned

def wLocked (s : State π) : Bool := s.shutDown.isSome

def setChan (s : State π) (c : Nat) (sub : Subscriber π) (chan : Buffered (IEvent π)) : State π :=
  { s with subscribers := s.subscribers.set c { sub with chan := chan } }

/-- The channels that are subscribed to a type and not closed. -/
def registered (s : State π) (et : GoString) : List Nat :=
  (List.range s.subscribers.length).filter fun c =>
    match s.subscribers[c]? with
    | some sub => decide (et ∈ sub.eventTypes.names) && !sub.chan.closed
    | none => false

end State

/-- The loop of `Subscribe`: every list of the types gets the channel. -/
def addSubs (subs : GoMap GoString (List Nat)) (eventTypes : List GoString) (ch : Nat) :
    GoMap GoString (List Nat) :=
  eventTypes.foldl (fun subs et => subs.insert et (chsOf subs et ++ [ch])) subs

inductive Act (π : Type)
  | subscribe (eventTypes : EventTypes)
  | publish (event : IEvent π)
  | send (p : Nat)
  | publishReturns (p : Nat)
  | receive (c : Nat)
  | leave (c : Nat)
  | shutDown
  | nextType (et : GoString)
  | close
  | deleteType
  | shutDownReturns

def stepSubscribe (s : State π) (eventTypes : EventTypes) : Option (State π) :=
  if s.rLocked || s.wLocked then none
  else
    some { s with
           subs := addSubs s.subs eventTypes.names s.subscribers.length,
           subscribers := s.subscribers ++ [⟨.make s.bSize, eventTypes, s.shutDowns, []⟩] }

def stepPublish (s : State π) (event : IEvent π) : Option (State π) :=
  if s.wLocked then none
  else
    some { s with
           publishes := s.publishes ++
             [⟨event, chsOf s.subs event.eventType, false, s.registered event.eventType⟩] }

/-- The `select` in the loop; a send on a closed channel panics. -/
def stepSend (s : State π) (p : Nat) : Option (State π) :=
  match s.publishes[p]? with
  | some ⟨event, ch :: chs, false, registered⟩ =>
    match s.subscribers[ch]? with
    | some sub =>
      match sub.chan.trySend p event with
      | some chan =>
        some { s.setChan ch sub chan with
               publishes := s.publishes.set p ⟨event, chs, false, registered⟩ }
      | none => some { s with panicked := true }
    | none => none
  | _ => none

def stepPublishReturns (s : State π) (p : Nat) : Option (State π) :=
  match s.publishes[p]? with
  | some ⟨event, [], false, registered⟩ =>
    some { s with publishes := s.publishes.set p ⟨event, [], true, registered⟩ }
  | _ => none

def stepChan (s : State π) (c : Nat) (f : Buffered (IEvent π) → Buffered (IEvent π)) :
    Option (State π) :=
  match s.subscribers[c]? with
  | some sub => some (s.setChan c sub (f sub.chan))
  | none => none

def stepShutDown (s : State π) : Option (State π) :=
  if s.rLocked || s.wLocked then none
  else some { s with shutDown := some ⟨[], none⟩ }

/-- The outer loop goes to any type that is left in the map. -/
def stepNextType (s : State π) (et : GoString) : Option (State π) :=
  match s.shutDown with
  | some ⟨closed, none⟩ =>
    match s.subs.lookup et with
    | some chs => some { s with shutDown := some ⟨closed, some (et, chs)⟩ }
    | none => none
  | _ => none

/-- The inner loop; a close of a closed channel panics. -/
def stepClose (s : State π) : Option (State π) :=
  match s.shutDown with
  | some ⟨closed, some (et, ch :: chs)⟩ =>
    if ch ∈ closed then some { s with shutDown := some ⟨closed, some (et, chs)⟩ }
    else
      match s.subscribers[ch]? with
      | some sub =>
        match sub.chan.close with
        | some chan =>
          some { s with
                 subscribers := s.subscribers.set ch
                   { sub with chan := chan, closedBy := sub.closedBy ++ [s.shutDowns] },
                 shutDown := some ⟨ch :: closed, some (et, chs)⟩ }
        | none => some { s with panicked := true }
      | none => none
  | _ => none

def stepDeleteType (s : State π) : Option (State π) :=
  match s.shutDown with
  | some ⟨closed, some (et, [])⟩ =>
    some { s with subs := s.subs.delete et, shutDown := some ⟨closed, none⟩ }
  | _ => none

def stepShutDownReturns (s : State π) : Option (State π) :=
  match s.shutDown with
  | some ⟨_, none⟩ =>
    if s.subs.entries.isEmpty then
      some { s with shutDown := none, shutDowns := s.shutDowns + 1 }
    else none
  | _ => none

/-- A panic in any goroutine ends the process. -/
def step (s : State π) (a : Act π) : Option (State π) :=
  if s.panicked then none
  else
    match a with
    | .subscribe eventTypes => stepSubscribe s eventTypes
    | .publish event => stepPublish s event
    | .send p => stepSend s p
    | .publishReturns p => stepPublishReturns s p
    | .receive c => stepChan s c Buffered.receive
    | .leave c => stepChan s c Buffered.leave
    | .shutDown => stepShutDown s
    | .nextType et => stepNextType s et
    | .close => stepClose s
    | .deleteType => stepDeleteType s
    | .shutDownReturns => stepShutDownReturns s

def machine (bufferSize : Nat) : Machine (State π) (Act π) :=
  { init := newEventBrokerImpl bufferSize, step := step }

end

end Selebrow.Event
