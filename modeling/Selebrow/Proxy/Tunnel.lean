import Mathlib.Logic.Function.Basic
import Selebrow.Go
import Selebrow.Transition.Channel
import Selebrow.Transition.Machine

/-!
# The CONNECT tunnel

`handleConnect` takes over the client's connection, dials the target or an upstream proxy,
writes the 200 line and copies bytes both ways.  What a peer sends reaches the proxy in
order; how it is cut into segments is the choice of how many bytes each read returns.
Before the tunnel is up two buffered readers read from the connections, the server's for
the header of the request and the dialer's for the response of the upstream proxy.

A peer may finish sending, which is a half-close, or close its connection for good.
-/

namespace Selebrow.Tunnel

open Transition

inductive Peer
  | client
  | target
deriving DecidableEq, Repr

def Peer.other : Peer → Peer
  | .client => .target
  | .target => .client

@[simp] theorem Peer.other_other (p : Peer) : p.other.other = p := by cases p <;> rfl

@[simp] theorem Peer.other_ne (p : Peer) : p.other ≠ p := by cases p <;> decide

@[simp] theorem Peer.ne_other (p : Peer) : p ≠ p.other := by cases p <;> decide

/-- The proxy's connection to a peer. -/
structure Conn where
  /-- What the peer has sent through the tunnel. -/
  sent : GoString
  finished : Bool
  gone : Bool
  /-- What the proxy can still read, the handshake's bytes first. -/
  queue : GoString
  received : GoString
  /-- The proxy has closed it. -/
  closed : Bool
deriving DecidableEq, Repr

def Conn.opened (queue : GoString) : Conn :=
  { sent := [], finished := false, gone := false, queue := queue, received := [], closed := false }

/-- What the peer is given of `data` that is written to it. -/
def Conn.write (c : Conn) (data : GoString) : Conn :=
  if c.gone then c else { c with received := c.received ++ data }

section

variable (c : Conn) (data : GoString)

@[simp] theorem Conn.sent_write : (c.write data).sent = c.sent := by
  unfold Conn.write
  split <;> rfl

@[simp] theorem Conn.finished_write : (c.write data).finished = c.finished := by
  unfold Conn.write
  split <;> rfl

@[simp] theorem Conn.gone_write : (c.write data).gone = c.gone := by
  unfold Conn.write
  split <;> rfl

@[simp] theorem Conn.queue_write : (c.write data).queue = c.queue := by
  unfold Conn.write
  split <;> rfl

@[simp] theorem Conn.closed_write : (c.write data).closed = c.closed := by
  unfold Conn.write
  split <;> rfl

end

def Conn.read (c : Conn) (n : Nat) : Conn := { c with queue := c.queue.drop n }

def Conn.send (c : Conn) (data : GoString) : Conn :=
  { c with sent := c.sent ++ data, queue := c.queue ++ data }

/-- The loop of `io.Copy` that reads from one peer: it is about to read, or to write what
it has read, or the function has returned. -/
inductive Copy
  | reading
  | writing (buf : GoString)
  | done
deriving DecidableEq, Repr

def Copy.held : Copy → GoString
  | .writing buf => buf
  | .reading | .done => []

/-- The target is dialled itself, or through an upstream proxy, which answers with
these bytes. -/
inductive Upstream
  | direct
  | proxy (response : GoString)
deriving DecidableEq, Repr

/-- Where the handler is.  A buffered reader has read the bytes `buf` and is to find the
end of `header` in them. -/
inductive Phase
  | serving (header buf : GoString)
  | dialing
  | readResponse (header buf : GoString)
  | connected
  | copying
  | failed
deriving DecidableEq, Repr

structure State where
  phase : Phase
  conn : Peer → Conn
  copy : Peer → Copy

namespace State

def setConn (s : State) (p : Peer) (c : Conn) : State :=
  { s with conn := Function.update s.conn p c }

def setCopy (s : State) (p : Peer) (c : Copy) : State :=
  { s with copy := Function.update s.copy p c }

def setPhase (s : State) (ph : Phase) : State := { s with phase := ph }

section

variable (s : State) (p q : Peer) (c : Conn) (k : Copy) (ph : Phase)

@[simp] theorem phase_setConn : (s.setConn p c).phase = s.phase := rfl
@[simp] theorem phase_setCopy : (s.setCopy p k).phase = s.phase := rfl
@[simp] theorem phase_setPhase : (s.setPhase ph).phase = ph := rfl
@[simp] theorem conn_setCopy : (s.setCopy p k).conn = s.conn := rfl
@[simp] theorem conn_setPhase : (s.setPhase ph).conn = s.conn := rfl
@[simp] theorem copy_setConn : (s.setConn p c).copy = s.copy := rfl
@[simp] theorem copy_setPhase : (s.setPhase ph).copy = s.copy := rfl

@[simp] theorem conn_setConn : (s.setConn p c).conn p = c := by
  show Function.update s.conn p c p = c
  rw [Function.update_self]

@[simp] theorem copy_setCopy : (s.setCopy p k).copy p = k := by
  show Function.update s.copy p k p = k
  rw [Function.update_self]

variable {p q}

theorem conn_setConn_ne (h : q ≠ p) : (s.setConn p c).conn q = s.conn q := by
  show Function.update s.conn p c q = s.conn q
  rw [Function.update_of_ne h]

/-- What an update leaves alone in one connection it leaves alone in all. -/
theorem field_setConn {β : Type} (f : Conn → β) {c : Conn} (h : f c = f (s.conn p)) (q : Peer) :
    f ((s.setConn p c).conn q) = f (s.conn q) := by
  by_cases hq : q = p
  · subst hq
    rw [conn_setConn]
    exact h
  · rw [conn_setConn_ne s c hq]

theorem copy_setCopy_ne (h : q ≠ p) : (s.setCopy p k).copy q = s.copy q := by
  show Function.update s.copy p k q = s.copy q
  rw [Function.update_of_ne h]

end

end State

inductive Act
  /-- What the peers do. -/
  | send (p : Peer) (data : GoString)
  | finish (p : Peer)
  | leave (p : Peer)
  /-- A buffered reader reads `n` bytes. -/
  | fill (n : Nat)
  | hijack
  | dial
  | dialFails (err : GoString)
  | accept
  | respond
  /-- The loop that copies from the peer. -/
  | read (p : Peer) (n : Nat)
  | write (p : Peer)
  | eof (p : Peer)
  | readFails (p : Peer)
  | writeFails (p : Peer)
deriving DecidableEq, Repr

def established : GoString := bytes "HTTP/1.1 200 Connection Established\r\n\r\n"

def rawHttpError (err : GoString) : GoString :=
  bytes "HTTP/1.1 502 Bad Gateway\r\n" ++ bytes "Content-Length: " ++
    bytes (toString err.length) ++ bytes "\r\n" ++
    bytes "Content-Type: text/plain; charset=utf-8\r\n\r\n" ++ err

/-- There is a connection to the peer, and it is open at the peer's end. -/
def Phase.connects : Phase → Peer → Bool
  | .failed, _ => false
  | _, .client => true
  | .serving _ _, .target | .dialing, .target => false
  | _, .target => true

def stepPeer (s : State) (p : Peer) (ok : Bool) (c : Conn) : Option State :=
  if s.phase.connects p && ok then some (s.setConn p c) else none

def stepFill (s : State) (n : Nat) : Option State :=
  match s.phase with
  | .serving header buf =>
    if 0 < n ∧ n ≤ (s.conn .client).queue.length then
      some ((s.setConn .client ((s.conn .client).read n)).setPhase
        (.serving header (buf ++ (s.conn .client).queue.take n)))
    else none
  -- `ReadResponse` reads on only while it misses a part of the header.
  | .readResponse header buf =>
    if 0 < n ∧ n ≤ (s.conn .target).queue.length ∧ buf.length < header.length then
      some ((s.setConn .target ((s.conn .target).read n)).setPhase
        (.readResponse header (buf ++ (s.conn .target).queue.take n)))
    else none
  | _ => none

/-- `clientConn, _, err := hijacker.Hijack()`: the buffered reader is not kept. -/
def stepHijack (s : State) : Option State :=
  match s.phase with
  | .serving header buf => if header.length ≤ buf.length then some (s.setPhase .dialing) else none
  | _ => none

def stepDial (upstream : Upstream) (s : State) : Option State :=
  match s.phase with
  | .dialing =>
    match upstream with
    | .direct => some ((s.setConn .target (.opened [])).setPhase .connected)
    | .proxy response =>
      some ((s.setConn .target (.opened response)).setPhase (.readResponse response []))
  | _ => none

/-- `defer clientConn.Close()` and `rawHttpError` -/
def stepDialFails (s : State) (err : GoString) : Option State :=
  match s.phase with
  | .dialing | .readResponse _ _ =>
    some ((s.setConn .client
      { (s.conn .client).write (rawHttpError err) with closed := true }).setPhase .failed)
  | _ => none

/-- `return conn, nil`: the reader `br` that has read the response is not kept. -/
def stepAccept (s : State) : Option State :=
  match s.phase with
  | .readResponse header buf =>
    if header.length ≤ buf.length then some (s.setPhase .connected) else none
  | _ => none

def stepRespond (s : State) : Option State :=
  match s.phase with
  | .connected =>
    some ((s.setConn .client ((s.conn .client).write established)).setPhase .copying)
  | _ => none

/-- `io.Copy` has returned, and `dst.Close()` is deferred. -/
def endCopy (s : State) (p : Peer) : State :=
  (s.setCopy p .done).setConn p.other { s.conn p.other with closed := true }

def stepRead (s : State) (p : Peer) (n : Nat) : Option State :=
  match s.phase, s.copy p with
  | .copying, .reading =>
    if (s.conn p).closed = false ∧ 0 < n ∧ n ≤ (s.conn p).queue.length then
      some ((s.setConn p ((s.conn p).read n)).setCopy p (.writing ((s.conn p).queue.take n)))
    else none
  | _, _ => none

def stepWrite (s : State) (p : Peer) : Option State :=
  match s.phase, s.copy p with
  | .copying, .writing buf =>
    if (s.conn p.other).closed = false then
      some ((s.setConn p.other ((s.conn p.other).write buf)).setCopy p .reading)
    else none
  | _, _ => none

def stepEof (s : State) (p : Peer) : Option State :=
  match s.phase, s.copy p with
  | .copying, .reading =>
    if (s.conn p).closed = false ∧ (s.conn p).finished = true ∧ (s.conn p).queue = [] then
      some (endCopy s p)
    else none
  | _, _ => none

/-- The other loop has closed the connection: `net.ErrClosed`. -/
def stepReadFails (s : State) (p : Peer) : Option State :=
  match s.phase, s.copy p with
  | .copying, .reading => if (s.conn p).closed = true then some (endCopy s p) else none
  | _, _ => none

def stepWriteFails (s : State) (p : Peer) : Option State :=
  match s.phase, s.copy p with
  | .copying, .writing _ =>
    if (s.conn p.other).closed = true ∨ (s.conn p.other).gone = true then some (endCopy s p)
    else none
  | _, _ => none

def step (upstream : Upstream) (s : State) : Act → Option State
  | .send p data => stepPeer s p (!(s.conn p).finished) ((s.conn p).send data)
  | .finish p => stepPeer s p true { s.conn p with finished := true }
  | .leave p => stepPeer s p true { s.conn p with finished := true, gone := true }
  | .fill n => stepFill s n
  | .hijack => stepHijack s
  | .dial => stepDial upstream s
  | .dialFails err => stepDialFails s err
  | .accept => stepAccept s
  | .respond => stepRespond s
  | .read p n => stepRead s p n
  | .write p => stepWrite s p
  | .eof p => stepEof s p
  | .readFails p => stepReadFails s p
  | .writeFails p => stepWriteFails s p

/-- The client has sent `request`, the header of its CONNECT request. -/
def machine (upstream : Upstream) (request : GoString) : Machine State Act :=
  { init :=
      { phase := .serving request [],
        conn := Function.update (fun _ => .opened []) .client (.opened request),
        copy := fun _ => .reading },
    step := step upstream }

/-! ## The two directions -/

/-- The handshake's bytes that stand in front of what a peer sends through the tunnel. -/
def header (s : State) (p : Peer) : GoString :=
  match s.phase, p with
  | .serving header _, .client => header
  | .readResponse header _, .target => header
  | _, _ => []

/-- What has been read from a peer and is kept for the tunnel. -/
def buffered (s : State) (p : Peer) : GoString :=
  match s.phase, p with
  | .serving _ buf, .client => buf
  | .readResponse _ buf, .target => buf
  | _, _ => (s.copy p).held

def readable (c : Conn) : GoString := if c.closed then [] else c.queue

/-- The 200 line goes to the client ahead of the target's bytes. -/
def greeting : Peer → GoString
  | .client => []
  | .target => established

def unanswered (s : State) (p : Peer) : GoString :=
  if s.phase = .copying then [] else greeting p

/-- The direction that starts at a peer. -/
def channel (s : State) (p : Peer) : Channel UInt8 :=
  { sent := greeting p ++ (s.conn p).sent,
    received := (s.conn p.other).received,
    inTransit := unanswered s p ++ (buffered s p ++ readable (s.conn p)).drop (header s p).length,
    gone := (s.conn p.other).gone }

def Act.ofPeer : Act → Bool
  | .send _ _ | .finish _ | .leave _ => true
  | _ => false

/-- The proxy has nothing to do until a peer does something. -/
def Quiet (upstream : Upstream) (s : State) : Prop :=
  ∀ a : Act, a.ofPeer = false → step upstream s a = none

/-- Unless the dial failed: in both directions the receiver has got the beginning of what
is for it; as long as it has not left, the rest is on the way; and once the proxy has
nothing to do it has got everything. -/
def Faithful (upstream : Upstream) (s : State) : Prop :=
  s.phase ≠ .failed → ∀ p,
    (channel s p).Whole ∧
      ((channel s p).gone = false → Quiet upstream s → (channel s p).received = (channel s p).sent)

end Selebrow.Tunnel
