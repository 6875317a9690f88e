import Selebrow.Proxy.Tunnel

/-!
# What the tunnel delivers

The tunnel carries both streams without loss as long as the two readers that it throws
away are empty and no connection is closed on a peer that still has something to say.
Each of these is a condition on one step, and each step that breaks it loses bytes.
-/

namespace Selebrow.Tunnel

open Transition

/-- Nothing is thrown away with a buffered reader; a loop that ends closes a connection
with nothing left to read, and its peer sends nothing after that; unless there is nobody
to receive it. -/
def Careful (s : State) : Act → Prop
  | .send p data => data = [] ∨ (s.conn p).closed = false ∨ (s.conn p.other).gone = true
  | .hijack => (buffered s .client).length ≤ (header s .client).length
  | .accept =>
    (buffered s .target).length ≤ (header s .target).length ∨ (s.conn .client).gone = true
  | .eof p | .readFails p | .writeFails p =>
    (s.conn p.other).queue = [] ∨ (s.conn p).gone = true
  | _ => True

/-! ## What a step can do -/

/-- The ways in which the loop that reads from `p` ends. -/
inductive Ends (s : State) (p : Peer) : Act → Prop
  | eof (hk : s.copy p = .reading) (hf : (s.conn p).finished = true)
      (hq : (s.conn p).queue = []) : Ends s p (.eof p)
  | readFails (hk : s.copy p = .reading) (hc : (s.conn p).closed = true) :
      Ends s p (.readFails p)
  | writeFails (buf : GoString) (hk : s.copy p = .writing buf)
      (hc : (s.conn p.other).closed = true ∨ (s.conn p.other).gone = true) :
      Ends s p (.writeFails p)

inductive Step (upstream : Upstream) (s : State) : Act → State → Prop
  | send (p : Peer) (data : GoString) (hp : s.phase.connects p = true)
      (hf : (s.conn p).finished = false) :
      Step upstream s (.send p data) (s.setConn p ((s.conn p).send data))
  | finish (p : Peer) (hp : s.phase.connects p = true) :
      Step upstream s (.finish p) (s.setConn p { s.conn p with finished := true })
  | leave (p : Peer) (hp : s.phase.connects p = true) :
      Step upstream s (.leave p) (s.setConn p { s.conn p with finished := true, gone := true })
  | fillRequest (n : Nat) (header buf : GoString) (hph : s.phase = .serving header buf)
      (hn : n ≤ (s.conn .client).queue.length) :
      Step upstream s (.fill n) ((s.setConn .client ((s.conn .client).read n)).setPhase
        (.serving header (buf ++ (s.conn .client).queue.take n)))
  | fillResponse (n : Nat) (header buf : GoString) (hph : s.phase = .readResponse header buf)
      (hn : n ≤ (s.conn .target).queue.length) :
      Step upstream s (.fill n) ((s.setConn .target ((s.conn .target).read n)).setPhase
        (.readResponse header (buf ++ (s.conn .target).queue.take n)))
  | hijack (header buf : GoString) (hph : s.phase = .serving header buf)
      (hlen : header.length ≤ buf.length) : Step upstream s .hijack (s.setPhase .dialing)
  | dialDirect (hph : s.phase = .dialing) :
      Step upstream s .dial ((s.setConn .target (.opened [])).setPhase .connected)
  | dialProxy (response : GoString) (hph : s.phase = .dialing) :
      Step upstream s .dial
        ((s.setConn .target (.opened response)).setPhase (.readResponse response []))
  | dialFails (err : GoString) (s' : State) (hph : s'.phase = .failed) :
      Step upstream s (.dialFails err) s'
  | accept (header buf : GoString) (hph : s.phase = .readResponse header buf)
      (hlen : header.length ≤ buf.length) : Step upstream s .accept (s.setPhase .connected)
  | respond (hph : s.phase = .connected) :
      Step upstream s .respond
        ((s.setConn .client ((s.conn .client).write established)).setPhase .copying)
  | read (p : Peer) (n : Nat) (hph : s.phase = .copying) (hk : s.copy p = .reading)
      (hc : (s.conn p).closed = false) (hn : n ≤ (s.conn p).queue.length) :
      Step upstream s (.read p n)
        ((s.setConn p ((s.conn p).read n)).setCopy p (.writing ((s.conn p).queue.take n)))
  | write (p : Peer) (buf : GoString) (hph : s.phase = .copying) (hk : s.copy p = .writing buf) :
      Step upstream s (.write p)
        ((s.setConn p.other ((s.conn p.other).write buf)).setCopy p .reading)
  | ends (p : Peer) (a : Act) (hph : s.phase = .copying) (he : Ends s p a) :
      Step upstream s a (endCopy s p)

variable {upstream : Upstream} {request : GoString} {s s' : State} {p q : Peer} {a : Act}

theorem stepPeer_cases {ok : Bool} {c : Conn} (h : stepPeer s p ok c = some s') :
    s.phase.connects p = true ∧ ok = true ∧ s' = s.setConn p c := by
  rw [stepPeer] at h
  split at h
  · rename_i hok
    rw [Bool.and_eq_true] at hok
    cases h
    exact ⟨hok.1, hok.2, rfl⟩
  · contradiction

theorem stepFill_cases {n : Nat} (h : stepFill s n = some s') : Step upstream s (.fill n) s' := by
  rw [stepFill] at h
  split at h
  · rename_i header buf hph
    split at h
    · rename_i hn
      cases h
      exact .fillRequest n header buf hph hn.2
    · contradiction
  · rename_i header buf hph
    split at h
    · rename_i hn
      cases h
      exact .fillResponse n header buf hph hn.2.1
    · contradiction
  · contradiction

theorem stepHijack_cases (h : stepHijack s = some s') : Step upstream s .hijack s' := by
  rw [stepHijack] at h
  split at h
  · rename_i header buf hph
    split at h
    · rename_i hlen
      cases h
      exact .hijack header buf hph hlen
    · contradiction
  · contradiction

theorem stepDial_cases (h : stepDial upstream s = some s') : Step upstream s .dial s' := by
  unfold stepDial at h
  split at h
  · rename_i hph
    cases upstream with
    | direct =>
      cases h
      exact .dialDirect hph
    | proxy response =>
      cases h
      exact .dialProxy response hph
  · contradiction

theorem stepDialFails_cases {err : GoString} (h : stepDialFails s err = some s') :
    Step upstream s (.dialFails err) s' := by
  rw [stepDialFails] at h
  split at h
  · cases h
    exact .dialFails err _ rfl
  · cases h
    exact .dialFails err _ rfl
  · contradiction

theorem stepAccept_cases (h : stepAccept s = some s') : Step upstream s .accept s' := by
  rw [stepAccept] at h
  split at h
  · rename_i header buf hph
    split at h
    · rename_i hlen
      cases h
      exact .accept header buf hph hlen
    · contradiction
  · contradiction

theorem stepRespond_cases (h : stepRespond s = some s') : Step upstream s .respond s' := by
  rw [stepRespond] at h
  split at h
  · rename_i hph
    cases h
    exact .respond hph
  · contradiction

theorem stepRead_cases {n : Nat} (h : stepRead s p n = some s') :
    Step upstream s (.read p n) s' := by
  rw [stepRead] at h
  split at h
  · rename_i hph hk
    split at h
    · rename_i hn
      cases h
      exact .read p n hph hk hn.1 hn.2.2
    · contradiction
  · contradiction

theorem stepWrite_cases (h : stepWrite s p = some s') : Step upstream s (.write p) s' := by
  rw [stepWrite] at h
  split at h
  · rename_i buf hph hk
    split at h
    · cases h
      exact .write p buf hph hk
    · contradiction
  · contradiction

theorem stepEof_cases (h : stepEof s p = some s') : Step upstream s (.eof p) s' := by
  rw [stepEof] at h
  split at h
  · rename_i hph hk
    split at h
    · rename_i hn
      cases h
      exact .ends p (.eof p) hph (.eof hk hn.2.1 hn.2.2)
    · contradiction
  · contradiction

theorem stepReadFails_cases (h : stepReadFails s p = some s') :
    Step upstream s (.readFails p) s' := by
  rw [stepReadFails] at h
  split at h
  · rename_i hph hk
    split at h
    · rename_i hc
      cases h
      exact .ends p (.readFails p) hph (.readFails hk hc)
    · contradiction
  · contradiction

theorem stepWriteFails_cases (h : stepWriteFails s p = some s') :
    Step upstream s (.writeFails p) s' := by
  rw [stepWriteFails] at h
  split at h
  · rename_i buf hph hk
    split at h
    · rename_i hc
      cases h
      exact .ends p (.writeFails p) hph (.writeFails buf hk hc)
    · contradiction
  · contradiction

theorem step_cases (h : step upstream s a = some s') : Step upstream s a s' := by
  cases a with
  | send p data =>
    obtain ⟨hp, hok, rfl⟩ := stepPeer_cases h
    rw [Bool.not_eq_true'] at hok
    exact .send p data hp hok
  | finish p =>
    obtain ⟨hp, -, rfl⟩ := stepPeer_cases h
    exact .finish p hp
  | leave p =>
    obtain ⟨hp, -, rfl⟩ := stepPeer_cases h
    exact .leave p hp
  | fill n => exact stepFill_cases h
  | hijack => exact stepHijack_cases h
  | dial => exact stepDial_cases h
  | dialFails err => exact stepDialFails_cases h
  | accept => exact stepAccept_cases h
  | respond => exact stepRespond_cases h
  | read p n => exact stepRead_cases h
  | write p => exact stepWrite_cases h
  | eof p => exact stepEof_cases h
  | readFails p => exact stepReadFails_cases h
  | writeFails p => exact stepWriteFails_cases h

/-! ## The connections and the loops -/

/-- What holds of every state until a dial fails. -/
structure Live (s : State) : Prop where
  idle : s.phase ≠ .copying → ∀ q,
    (s.conn q).received = [] ∧ (s.conn q).closed = false ∧ s.copy q = .reading
  fresh : s.phase.connects .target = false → s.conn .target = .opened []
  left : ∀ q, (s.conn q).gone = true → (s.conn q).finished = true
  front : ∀ q, (header s q).length ≤ (buffered s q).length + (s.conn q).queue.length
  /-- Only the loop that writes to a peer closes its connection. -/
  shut : s.phase = .copying → ∀ q, (s.conn q.other).closed = true → s.copy q = .done
  ended : s.phase = .copying → ∀ q, s.copy q = .done →
    (s.conn q).closed = true ∨ ((s.conn q).finished = true ∧ (s.conn q).queue = []) ∨
      (s.conn q.other).gone = true

/-- What a peer can do to its connection. -/
structure Conn.Grows (c c' : Conn) : Prop where
  received : c'.received = c.received
  closed : c'.closed = c.closed
  queue : c.queue.length ≤ c'.queue.length
  left : (c.gone = true → c.finished = true) → c'.gone = true → c'.finished = true
  gone : c.gone = true → c'.gone = true
  drained : c.finished = true → c.queue = [] → c'.finished = true ∧ c'.queue = []

theorem forall_setConn {P : Peer → Conn → Prop} {c : Conn} (h : ∀ q, P q (s.conn q)) (hp : P p c) :
    ∀ q, P q ((s.setConn p c).conn q) := by
  intro q
  by_cases hq : q = p
  · subst hq
    rw [State.conn_setConn]
    exact hp
  · rw [State.conn_setConn_ne s c hq]
    exact h q

theorem Live.peer {c : Conn} (h : Live s) (hp : s.phase.connects p = true)
    (hg : (s.conn p).Grows c) : Live (s.setConn p c) := by
  have hsame : ∀ q, (s.conn q).Grows ((s.setConn p c).conn q) := by
    apply forall_setConn (P := fun q c => (s.conn q).Grows c)
    · intro q
      exact ⟨rfl, rfl, Nat.le_refl _, fun h => h, fun h => h, fun hf hq => ⟨hf, hq⟩⟩
    · exact hg
  constructor
  · intro hph q
    rw [(hsame q).received, (hsame q).closed]
    exact h.idle hph q
  · intro hconn
    have hne : Peer.target ≠ p := by
      intro heq
      subst heq
      exact absurd (hp.symm.trans hconn) (by decide)
    rw [State.conn_setConn_ne s c hne]
    exact h.fresh hconn
  · intro q
    exact (hsame q).left (h.left q)
  · intro q
    exact Nat.le_trans (h.front q) (Nat.add_le_add_left (hsame q).queue _)
  · intro hph q hc
    rw [(hsame q.other).closed] at hc
    exact h.shut hph q hc
  · intro hph q hk
    rw [(hsame q).closed]
    rcases h.ended hph q hk with hc | ⟨hf, hq⟩ | hgone
    · exact .inl hc
    · exact .inr (.inl ((hsame q).drained hf hq))
    · exact .inr (.inr ((hsame q.other).gone hgone))

/-- While the handshake lasts the loops have not begun. -/
theorem live_of_idle (hph : s.phase ≠ .copying)
    (hidle : ∀ q, (s.conn q).received = [] ∧ (s.conn q).closed = false ∧ s.copy q = .reading)
    (hfresh : s.phase.connects .target = false → s.conn .target = .opened [])
    (hleft : ∀ q, (s.conn q).gone = true → (s.conn q).finished = true)
    (hfront : ∀ q, (header s q).length ≤ (buffered s q).length + (s.conn q).queue.length) :
    Live s :=
  ⟨fun _ => hidle, hfresh, hleft, hfront, fun h => absurd h hph, fun h => absurd h hph⟩

section

variable (s p)

theorem conn_endCopy : (endCopy s p).conn p = s.conn p := by
  rw [endCopy, State.conn_setConn_ne _ _ (Peer.ne_other p), State.conn_setCopy]

theorem conn_endCopy_other :
    (endCopy s p).conn p.other = { s.conn p.other with closed := true } := by
  rw [endCopy, State.conn_setConn]

theorem copy_endCopy : (endCopy s p).copy p = .done := State.copy_setCopy s p .done

theorem copy_endCopy_other : (endCopy s p).copy p.other = s.copy p.other :=
  State.copy_setCopy_ne s .done (Peer.other_ne p)

end

theorem header_copying (h : s.phase = .copying) : header s p = [] := by
  unfold header
  rw [h]

theorem Peer.eq_or_other (p q : Peer) : q = p ∨ q = p.other := by
  cases p <;> cases q <;> decide

/-- Once the loops run the handshake has left nothing behind. -/
theorem live_of_copying (hph : s.phase = .copying)
    (hleft : ∀ q, (s.conn q).gone = true → (s.conn q).finished = true)
    (hshut : ∀ q, (s.conn q.other).closed = true → s.copy q = .done)
    (hended : ∀ q, s.copy q = .done →
      (s.conn q).closed = true ∨ ((s.conn q).finished = true ∧ (s.conn q).queue = []) ∨
        (s.conn q.other).gone = true) : Live s := by
  constructor
  · intro hne
    exact absurd hph hne
  · intro hc
    rw [hph] at hc
    exact absurd hc (by decide)
  · exact hleft
  · intro q
    rw [header_copying hph]
    exact Nat.zero_le _
  · exact fun _ => hshut
  · exact fun _ => hended

theorem live_endCopy (h : Live s) (hph : s.phase = .copying) (he : Ends s p a) :
    Live (endCopy s p) := by
  apply live_of_copying
  · exact hph
  · exact forall_setConn (P := fun _ c => c.gone = true → c.finished = true) h.left (h.left p.other)
  · intro q hc
    rcases Peer.eq_or_other p q with rfl | rfl
    · exact copy_endCopy s q
    · rw [Peer.other_other, conn_endCopy] at hc
      rw [copy_endCopy_other]
      exact h.shut hph p.other (by rw [Peer.other_other]; exact hc)
  · intro q hk
    rcases Peer.eq_or_other p q with rfl | rfl
    · rw [conn_endCopy, conn_endCopy_other]
      cases he with
      | eof hk hf hq => exact .inr (.inl ⟨hf, hq⟩)
      | readFails hk hc => exact .inl hc
      | writeFails buf hk hc =>
        rcases hc with hc | hg
        · rw [h.shut hph q hc] at hk
          contradiction
        · exact .inr (.inr hg)
    · left
      rw [conn_endCopy_other]

theorem live_write (h : Live s) (hph : s.phase = .copying) {buf : GoString}
    (hk : s.copy p = .writing buf) :
    Live ((s.setConn p.other ((s.conn p.other).write buf)).setCopy p .reading) := by
  have hcopy : ∀ {q}, s.copy q = .done → q ≠ p := by
    intro q hd heq
    subst heq
    rw [hd] at hk
    contradiction
  apply live_of_copying
  · exact hph
  · exact forall_setConn (P := fun _ c => c.gone = true → c.finished = true) h.left
      (by rw [Conn.gone_write, Conn.finished_write]; exact h.left p.other)
  · intro q hc
    rw [State.conn_setCopy, State.field_setConn s Conn.closed (Conn.closed_write _ _)] at hc
    have hd := h.shut hph q hc
    rw [State.copy_setCopy_ne _ _ (hcopy hd)]
    exact hd
  · intro q hd
    have hq : q ≠ p := by
      intro heq
      subst heq
      rw [State.copy_setCopy] at hd
      contradiction
    rw [State.copy_setCopy_ne _ _ hq] at hd
    rw [State.conn_setCopy, State.field_setConn s Conn.closed (Conn.closed_write _ _),
      State.field_setConn s Conn.finished (Conn.finished_write _ _),
      State.field_setConn s Conn.queue (Conn.queue_write _ _),
      State.field_setConn s Conn.gone (Conn.gone_write _ _)]
    exact h.ended hph q hd

theorem live_read (h : Live s) (hph : s.phase = .copying) {n : Nat} {buf : GoString}
    (hk : s.copy p = .reading) :
    Live ((s.setConn p ((s.conn p).read n)).setCopy p (.writing buf)) := by
  apply live_of_copying
  · exact hph
  · exact forall_setConn (P := fun _ c => c.gone = true → c.finished = true) h.left (h.left p)
  · intro q hc
    rw [State.conn_setCopy, State.field_setConn s Conn.closed (c := (s.conn p).read n) rfl] at hc
    have hd := h.shut hph q hc
    have hq : q ≠ p := by
      intro heq
      subst heq
      rw [hd] at hk
      contradiction
    rw [State.copy_setCopy_ne _ _ hq]
    exact hd
  · intro q hd
    have hq : q ≠ p := by
      intro heq
      subst heq
      rw [State.copy_setCopy] at hd
      contradiction
    rw [State.copy_setCopy_ne _ _ hq] at hd
    rw [State.conn_setCopy, State.field_setConn s Conn.gone (c := (s.conn p).read n) rfl,
      State.conn_setConn_ne s _ hq]
    exact h.ended hph q hd

/-- Moving `n` bytes from the connection of `p` to its buffer leads to the phase `ph`. -/
structure Fills (s : State) (p : Peer) (n : Nat) (ph : Phase) : Prop where
  before : s.phase ≠ .copying
  after : ph ≠ .copying
  head : ∀ q, header (s.setPhase ph) q = header s q
  filled : buffered (s.setPhase ph) p = buffered s p ++ (s.conn p).queue.take n
  kept : buffered (s.setPhase ph) p.other = buffered s p.other
  fresh : ph.connects .target = false → p = .client ∧ s.phase.connects .target = false

theorem fills_request {n : Nat} {hd buf : GoString} (hph : s.phase = .serving hd buf) :
    Fills s .client n (.serving hd (buf ++ (s.conn .client).queue.take n)) where
  before := by rw [hph]; exact nofun
  after := nofun
  head q := by cases q <;> simp [header, hph]
  filled := by simp [buffered, hph]
  kept := by simp [buffered, hph, Peer.other]
  fresh _ := ⟨rfl, by rw [hph]; rfl⟩

theorem fills_response {n : Nat} {hd buf : GoString} (hph : s.phase = .readResponse hd buf) :
    Fills s .target n (.readResponse hd (buf ++ (s.conn .target).queue.take n)) where
  before := by rw [hph]; exact nofun
  after := nofun
  head q := by cases q <;> simp [header, hph]
  filled := by simp [buffered, hph]
  kept := by simp [buffered, hph, Peer.other]
  fresh := nofun

theorem live_fill {n : Nat} {ph : Phase} (h : Live s) (hf : Fills s p n ph) :
    Live ((s.setConn p ((s.conn p).read n)).setPhase ph) := by
  have hidle := h.idle hf.before
  apply live_of_idle
  · exact hf.after
  · intro q
    rw [State.conn_setPhase, State.field_setConn s Conn.received (c := (s.conn p).read n) rfl,
      State.field_setConn s Conn.closed (c := (s.conn p).read n) rfl]
    exact hidle q
  · intro hc
    obtain ⟨hp, hconn⟩ := hf.fresh hc
    rw [State.conn_setPhase, State.conn_setConn_ne s _ (by rw [hp]; decide)]
    exact h.fresh hconn
  · exact forall_setConn (P := fun _ c => c.gone = true → c.finished = true) h.left (h.left p)
  · intro q
    have hq := h.front q
    show (header (s.setPhase ph) q).length ≤ (buffered (s.setPhase ph) q).length +
      ((s.setConn p ((s.conn p).read n)).conn q).queue.length
    rw [hf.head q]
    rcases Peer.eq_or_other p q with rfl | rfl
    · rw [hf.filled, State.conn_setConn, Conn.read, List.length_append, List.length_take,
        List.length_drop]
      omega
    · rw [hf.kept, State.conn_setConn_ne s _ (Peer.other_ne p)]
      exact hq

theorem live_dial (h : Live s) (hph : s.phase = .dialing) {queue : GoString} {ph : Phase}
    (hcopying : ph ≠ .copying) (hconn : ph.connects .target = true)
    (hfront : ∀ q, (header (s.setPhase ph) q).length ≤
      (((s.setConn .target (.opened queue)).setPhase ph).conn q).queue.length) :
    Live ((s.setConn .target (.opened queue)).setPhase ph) := by
  have hidle := h.idle (by rw [hph]; exact nofun)
  apply live_of_idle
  · exact hcopying
  · intro q
    have hq := forall_setConn (P := fun _ c => c.received = [] ∧ c.closed = false) (p := .target)
      (c := .opened queue) (fun q => ⟨(hidle q).1, (hidle q).2.1⟩) ⟨rfl, rfl⟩ q
    exact ⟨hq.1, hq.2, (hidle q).2.2⟩
  · intro hc
    exact absurd (hconn.symm.trans hc) (by decide)
  · exact forall_setConn (P := fun _ c => c.gone = true → c.finished = true) h.left nofun
  · intro q
    exact Nat.le_trans (hfront q) (Nat.le_add_left _ _)

theorem live_respond (h : Live s) (hph : s.phase = .connected) :
    Live ((s.setConn .client ((s.conn .client).write established)).setPhase .copying) := by
  have hidle := h.idle (by rw [hph]; exact nofun)
  apply live_of_copying
  · rfl
  · exact forall_setConn (P := fun _ c => c.gone = true → c.finished = true) h.left
      (by rw [Conn.gone_write, Conn.finished_write]; exact h.left .client)
  · intro q hc
    rw [State.conn_setPhase, State.field_setConn s Conn.closed (Conn.closed_write _ _),
      (hidle q.other).2.1] at hc
    contradiction
  · intro q hk
    rw [State.copy_setPhase, State.copy_setConn, (hidle q).2.2] at hk
    contradiction

theorem live_setPhase (h : Live s) {ph : Phase} (hs : s.phase ≠ .copying) (hph : ph ≠ .copying)
    (hfresh : ph.connects .target = false → s.phase.connects .target = false)
    (hfront : ∀ q, header (s.setPhase ph) q = []) : Live (s.setPhase ph) := by
  apply live_of_idle
  · exact hph
  · exact h.idle hs
  · intro hc
    exact h.fresh (hfresh hc)
  · exact h.left
  · intro q
    rw [hfront q]
    exact Nat.zero_le _

theorem step_live (h : Live s) (hs : step upstream s a = some s') (hne : s'.phase ≠ .failed) :
    Live s' := by
  cases step_cases hs with
  | send p data hp hf =>
    refine h.peer hp ⟨rfl, rfl, ?_, fun hl => hl, fun hg => hg, ?_⟩
    · exact List.length_append ▸ Nat.le_add_right _ _
    · intro hf'
      exact absurd (hf.symm.trans hf') (by decide)
  | finish p hp =>
    exact h.peer hp ⟨rfl, rfl, Nat.le_refl _, fun _ _ => rfl, fun hg => hg, fun _ hq => ⟨rfl, hq⟩⟩
  | leave p hp =>
    exact h.peer hp ⟨rfl, rfl, Nat.le_refl _, fun _ _ => rfl, fun _ => rfl, fun _ hq => ⟨rfl, hq⟩⟩
  | fillRequest n hd buf hph hn => exact live_fill h (fills_request hph)
  | fillResponse n hd buf hph hn => exact live_fill h (fills_response hph)
  | hijack hd buf hph hlen =>
    refine live_setPhase h (by rw [hph]; exact nofun) nofun ?_ fun q => rfl
    intro _
    rw [hph]
    rfl
  | dialDirect hph => exact live_dial h hph nofun rfl fun q => Nat.zero_le _
  | dialProxy response hph =>
    refine live_dial h hph nofun rfl fun q => ?_
    cases q with
    | client => exact Nat.zero_le _
    | target => exact Nat.le_refl _
  | dialFails err _ hph => exact absurd hph hne
  | accept hd buf hph hlen =>
    exact live_setPhase h (by rw [hph]; exact nofun) nofun nofun fun q => rfl
  | respond hph => exact live_respond h hph
  | read p n hph hk hc hn => exact live_read h hph hk
  | write p buf hph hk => exact live_write h hph hk
  | ends p _ hph he => exact live_endCopy h hph he

/-! ## What a step does to the two directions -/

theorem channel_copying (h : s.phase = .copying) :
    channel s p =
      { sent := greeting p ++ (s.conn p).sent, received := (s.conn p.other).received,
        inTransit := (s.copy p).held ++ readable (s.conn p), gone := (s.conn p.other).gone } := by
  have hbuf : buffered s p = (s.copy p).held := by
    unfold buffered
    rw [h]
  unfold channel unanswered
  rw [header_copying h, hbuf, if_pos h]
  rfl

theorem channel_send_other {data : GoString} :
    channel (s.setConn p ((s.conn p).send data)) p.other = channel s p.other := by
  unfold channel unanswered buffered header
  rw [State.conn_setConn_ne s _ (Peer.other_ne p), Peer.other_other, State.conn_setConn]
  rfl

theorem channel_send_closed {data : GoString} (hc : (s.conn p).closed = true) :
    channel (s.setConn p ((s.conn p).send data)) p =
      { channel s p with sent := (channel s p).sent ++ data } := by
  have hreadable : readable ((s.conn p).send data) = readable (s.conn p) := by
    unfold readable
    rw [hc, show ((s.conn p).send data).closed = true from hc, if_pos rfl, if_pos rfl]
  unfold channel unanswered buffered header
  rw [State.conn_setConn, State.conn_setConn_ne s _ (Peer.other_ne p), hreadable]
  simp only [Conn.send, List.append_assoc]
  rfl

theorem channel_send_open {data : GoString} (h : Live s) (hc : (s.conn p).closed = false) :
    channel (s.setConn p ((s.conn p).send data)) p =
      { channel s p with
        sent := (channel s p).sent ++ data, inTransit := (channel s p).inTransit ++ data } := by
  have hlen : (header s p).length ≤ (buffered s p ++ (s.conn p).queue).length := by
    rw [List.length_append]
    exact h.front p
  have hreadable : readable (s.conn p) = (s.conn p).queue := by
    rw [readable, hc]
    rfl
  have hreadable' : readable ((s.conn p).send data) = (s.conn p).queue ++ data := by
    rw [readable, show ((s.conn p).send data).closed = false from hc]
    rfl
  unfold channel
  rw [State.conn_setConn, State.conn_setConn_ne s _ (Peer.other_ne p), hreadable, hreadable']
  show Channel.mk _ _ (unanswered s p ++ (buffered s p ++ _).drop (header s p).length) _ = _
  rw [← List.append_assoc (buffered s p), List.drop_append_of_le_length hlen]
  simp only [Conn.send, List.append_assoc]

theorem channel_finish : channel (s.setConn p { s.conn p with finished := true }) q = channel s q := by
  unfold channel unanswered buffered header
  rcases Peer.eq_or_other p q with rfl | rfl
  · rw [State.conn_setConn, State.conn_setConn_ne s _ (Peer.other_ne q)]
    rfl
  · rw [State.conn_setConn_ne s _ (Peer.other_ne p), Peer.other_other, State.conn_setConn]
    rfl

theorem channel_leave :
    channel (s.setConn p { s.conn p with finished := true, gone := true }) p = channel s p := by
  unfold channel unanswered buffered header
  rw [State.conn_setConn, State.conn_setConn_ne s _ (Peer.other_ne p)]
  rfl

theorem channel_leave_other :
    channel (s.setConn p { s.conn p with finished := true, gone := true }) p.other =
      { channel s p.other with gone := true } := by
  unfold channel unanswered buffered header
  rw [State.conn_setConn_ne s _ (Peer.other_ne p), Peer.other_other, State.conn_setConn]
  rfl

theorem readable_read {c : Conn} (n : Nat) (hc : c.closed = false) :
    c.queue.take n ++ readable (c.read n) = readable c := by
  rw [readable, readable, hc, show (c.read n).closed = false from hc]
  exact List.take_append_drop n c.queue

/-- A reader that moves bytes from the connection to its buffer changes no direction. -/
theorem channel_fill {n : Nat} {ph : Phase} (h : Live s) (hf : Fills s p n ph) :
    channel ((s.setConn p ((s.conn p).read n)).setPhase ph) q = channel s q := by
  have hun : unanswered ((s.setConn p ((s.conn p).read n)).setPhase ph) q = unanswered s q := by
    unfold unanswered
    rw [State.phase_setPhase, if_neg hf.before, if_neg hf.after]
  unfold channel
  rw [hun]
  show Channel.mk _ _ (_ ++ (buffered (s.setPhase ph) q ++ _).drop
    (header (s.setPhase ph) q).length) _ = _
  rw [hf.head, State.conn_setPhase]
  rcases Peer.eq_or_other p q with rfl | rfl
  · rw [State.conn_setConn, State.conn_setConn_ne s _ (Peer.other_ne q), hf.filled,
      List.append_assoc, readable_read n (h.idle hf.before q).2.1]
    rfl
  · rw [State.conn_setConn_ne s _ (Peer.other_ne p), Peer.other_other, State.conn_setConn, hf.kept]
    rfl

theorem buffered_idle (ph : Phase) (h : Live s) (hs : s.phase ≠ .copying)
    (hheld : buffered (s.setPhase ph) q = (s.copy q).held) : buffered (s.setPhase ph) q = [] := by
  rw [hheld, (h.idle hs q).2.2]
  rfl

theorem readable_idle (h : Live s) (hph : s.phase ≠ .copying) :
    readable (s.conn q) = (s.conn q).queue := by
  rw [readable, (h.idle hph q).2.1]
  rfl

theorem inTransit_idle (h : Live s) (hph : s.phase ≠ .copying)
    (hlen : (header s q).length ≤ (buffered s q).length) :
    (channel s q).inTransit =
      greeting q ++ ((buffered s q).drop (header s q).length ++ (s.conn q).queue) := by
  rw [← List.drop_append_of_le_length hlen, ← readable_idle h hph]
  simp only [channel, unanswered, if_neg hph]

/-- A buffered reader is thrown away. -/
theorem channel_setPhase (ph : Phase) (h : Live s) (hs : s.phase ≠ .copying)
    (hph : ph ≠ .copying) (hhead : header (s.setPhase ph) q = [])
    (hbuf : buffered (s.setPhase ph) q = []) :
    channel (s.setPhase ph) q =
      { channel s q with inTransit := greeting q ++ (s.conn q).queue } := by
  unfold channel unanswered
  rw [hhead, hbuf, State.phase_setPhase, if_neg hph, State.conn_setPhase, readable_idle h hs]
  rfl

theorem carries_setPhase (ph : Phase) (h : Live s) (hs : s.phase ≠ .copying)
    (hph : ph ≠ .copying) (hhead : header (s.setPhase ph) q = [])
    (hbuf : buffered (s.setPhase ph) q = [])
    (hlen : (header s q).length ≤ (buffered s q).length)
    (hc : (buffered s q).length ≤ (header s q).length ∨ (s.conn q.other).gone = true) :
    (channel s q).Carries (channel (s.setPhase ph) q) := by
  rw [channel_setPhase ph h hs hph hhead hbuf]
  rcases hc with hc | hg
  · have hin := inTransit_idle h hs hlen
    rw [List.drop_eq_nil_of_le hc, List.nil_append] at hin
    rw [← hin]
    exact .rests
  · exact .discards _ _ (List.prefix_refl _) hg

theorem loses_setPhase (ph : Phase) (h : Live s) (hs : s.phase ≠ .copying)
    (hph : ph ≠ .copying) (hhead : header (s.setPhase ph) q = [])
    (hbuf : buffered (s.setPhase ph) q = [])
    (hlen : (header s q).length < (buffered s q).length) (hg : (s.conn q.other).gone = false) :
    (channel s q).Loses (channel (s.setPhase ph) q) := by
  rw [channel_setPhase ph h hs hph hhead hbuf]
  refine .drops _ ?_ hg
  intro heq
  have hl := congrArg List.length heq
  rw [inTransit_idle h hs (Nat.le_of_lt hlen)] at hl
  simp only [List.length_append, List.length_drop] at hl
  omega

theorem channel_dial (queue : GoString) (ph : Phase) (h : Live s) (hph : s.phase = .dialing)
    (hcopying : ph ≠ .copying) (hhead : header (s.setPhase ph) .client = [])
    (hqueue : queue.length ≤ (header (s.setPhase ph) .target).length)
    (hbuf : buffered (s.setPhase ph) q = []) :
    channel ((s.setConn .target (.opened queue)).setPhase ph) q = channel s q := by
  have hs : s.phase ≠ .copying := by rw [hph]; exact nofun
  have hfresh := h.fresh (by rw [hph]; rfl)
  have hhead' : header s q = [] := by
    unfold header
    rw [hph]
  have hbuf' : buffered s q = [] := by
    unfold buffered
    rw [hph, (h.idle hs q).2.2]
    rfl
  unfold channel unanswered
  rw [hhead', hbuf', if_neg hs, readable_idle h hs]
  show Channel.mk _ _ ((if ph = .copying then [] else greeting q) ++
    (buffered (s.setPhase ph) q ++ _).drop (header (s.setPhase ph) q).length) _ = _
  rw [hbuf, if_neg hcopying, State.conn_setPhase]
  cases q with
  | client =>
    rw [hhead, State.conn_setConn_ne s _ (by decide), readable_idle h hs]
    show Channel.mk _ ((s.setConn .target _).conn .target).received _
      ((s.setConn .target _).conn .target).gone = Channel.mk _ (s.conn .target).received _
      (s.conn .target).gone
    rw [State.conn_setConn, hfresh]
    rfl
  | target =>
    rw [State.conn_setConn, hfresh]
    show Channel.mk _ ((s.setConn .target _).conn .client).received _
      ((s.setConn .target _).conn .client).gone = Channel.mk _ (s.conn .client).received _
      (s.conn .client).gone
    rw [State.conn_setConn_ne s _ (by decide)]
    show Channel.mk _ _ (_ ++ ([] ++ queue).drop _) _ = _
    rw [List.nil_append, List.drop_eq_nil_of_le hqueue]
    rfl

/-- Bytes in front of the direction are written to its receiver. -/
theorem carries_write {data rest : GoString} (hin : (channel s p).inTransit = data ++ rest)
    (hsent : (channel s' p).sent = (channel s p).sent)
    (hrest : (channel s' p).inTransit = rest)
    (hother : s'.conn p.other = (s.conn p.other).write data) :
    (channel s p).Carries (channel s' p) := by
  have hreceived : (channel s' p).received = ((s.conn p.other).write data).received := by
    rw [← hother]
    rfl
  have hgone : (channel s' p).gone = (channel s p).gone := by
    show (s'.conn p.other).gone = (s.conn p.other).gone
    rw [hother, Conn.gone_write]
  cases hg : (s.conn p.other).gone with
  | true =>
    have h' : channel s' p = { channel s p with sent := (channel s p).sent, inTransit := rest } := by
      rw [Conn.write, if_pos hg] at hreceived
      rw [← hrest, ← hsent]
      show Channel.mk _ (channel s' p).received _ (channel s' p).gone = _
      rw [hreceived, hgone]
      rfl
    rw [h']
    exact .discards _ _ (List.prefix_refl _) hg
  | false =>
    have h' : channel s' p =
        { channel s p with received := (channel s p).received ++ data, inTransit := rest } := by
      rw [Conn.write, if_neg (by rw [hg]; decide)] at hreceived
      rw [← hrest]
      show Channel.mk (channel s' p).sent (channel s' p).received _ (channel s' p).gone = _
      rw [hsent, hreceived, hgone]
      rfl
    rw [h']
    exact .delivers _ _ hin hg

theorem carries_respond (h : Live s) (hph : s.phase = .connected) :
    (channel s q).Carries
      (channel ((s.setConn .client ((s.conn .client).write established)).setPhase .copying) q) := by
  have hs : s.phase ≠ .copying := by rw [hph]; exact nofun
  have hidle := h.idle hs
  have hin : (channel s q).inTransit = greeting q ++ readable (s.conn q) := by
    simp only [channel, unanswered, header, buffered, hph, (hidle q).2.2]
    rfl
  have hafter := channel_copying (p := q)
    (s := (s.setConn .client ((s.conn .client).write established)).setPhase .copying) rfl
  cases q with
  | client =>
    rw [hafter, State.conn_setPhase, State.copy_setPhase, State.copy_setConn, (hidle .client).2.2,
      State.conn_setConn]
    have hsame : channel s .client =
        { sent := greeting .client ++ (s.conn .client).sent,
          received := (s.conn .target).received,
          inTransit := greeting .client ++ readable (s.conn .client),
          gone := (s.conn .target).gone } := by
      rw [← hin]
      rfl
    rw [hsame, State.conn_setConn_ne s _ (by decide), Conn.sent_write, readable, readable,
      Conn.closed_write, Conn.queue_write]
    exact .rests
  | target =>
    apply carries_write hin
    · rw [hafter]
      rw [State.conn_setPhase, State.conn_setConn_ne s _ (by decide)]
      rfl
    · rw [hafter]
      rw [State.conn_setPhase, State.copy_setPhase, State.copy_setConn, (hidle .target).2.2,
        State.conn_setConn_ne s _ (by decide)]
      rfl
    · exact State.conn_setConn s .client _

theorem channel_read (hph : s.phase = .copying) {n : Nat} (hk : s.copy p = .reading)
    (hc : (s.conn p).closed = false) :
    channel ((s.setConn p ((s.conn p).read n)).setCopy p (.writing ((s.conn p).queue.take n))) q =
      channel s q := by
  rw [channel_copying (by exact hph), channel_copying hph, State.conn_setCopy]
  rcases Peer.eq_or_other p q with rfl | rfl
  · rw [State.conn_setConn, State.conn_setConn_ne s _ (Peer.other_ne q), State.copy_setCopy, hk]
    show Channel.mk _ _ ((s.conn q).queue.take n ++ readable ((s.conn q).read n)) _ = _
    rw [readable_read n hc]
    rfl
  · rw [State.conn_setConn_ne s _ (Peer.other_ne p), Peer.other_other, State.conn_setConn,
      State.copy_setCopy_ne _ _ (Peer.other_ne p)]
    rfl

theorem carries_copy (hph : s.phase = .copying) {buf : GoString} (hk : s.copy p = .writing buf) :
    (channel s q).Carries
      (channel ((s.setConn p.other ((s.conn p.other).write buf)).setCopy p .reading) q) := by
  have hafter := channel_copying (p := q)
    (s := (s.setConn p.other ((s.conn p.other).write buf)).setCopy p .reading) hph
  rcases Peer.eq_or_other p q with rfl | rfl
  · apply carries_write
    · rw [channel_copying hph, hk]
    · rw [hafter, channel_copying hph, State.conn_setCopy,
        State.conn_setConn_ne s _ (Peer.ne_other q)]
    · rw [hafter, State.copy_setCopy, State.conn_setCopy,
        State.conn_setConn_ne s _ (Peer.ne_other q)]
      rfl
    · exact State.conn_setConn s q.other _
  · rw [hafter, channel_copying hph, State.conn_setCopy, State.conn_setConn, Peer.other_other,
      State.conn_setConn_ne s _ (Peer.ne_other p), State.copy_setCopy_ne _ _ (Peer.other_ne p),
      State.copy_setConn, Conn.sent_write, readable, readable, Conn.closed_write, Conn.queue_write]
    exact .rests

theorem carries_endCopy (hph : s.phase = .copying) (h : Live s) (he : Ends s p a) :
    (channel s p).Carries (channel (endCopy s p) p) := by
  have hafter : channel (endCopy s p) p =
      { channel s p with inTransit := [] ++ readable (s.conn p) } := by
    rw [channel_copying (by exact hph), channel_copying hph, conn_endCopy, conn_endCopy_other,
      copy_endCopy]
    rfl
  rw [hafter]
  have hreading : s.copy p = .reading → (channel s p).inTransit = [] ++ readable (s.conn p) := by
    intro hk
    rw [channel_copying hph, hk]
    rfl
  cases he with
  | eof hk hf hq =>
    rw [← hreading hk]
    exact .rests
  | readFails hk hc =>
    rw [← hreading hk]
    exact .rests
  | writeFails buf hk hc =>
    rcases hc with hc | hg
    · rw [h.shut hph p hc] at hk
      contradiction
    · exact .discards _ _ (List.prefix_refl _) hg

theorem channel_endCopy_other (hph : s.phase = .copying) :
    channel (endCopy s p) p.other =
      { channel s p.other with inTransit := (s.copy p.other).held } := by
  rw [channel_copying (by exact hph), channel_copying hph, Peer.other_other, conn_endCopy,
    conn_endCopy_other, copy_endCopy_other]
  show Channel.mk _ _ ((s.copy p.other).held ++ []) _ = _
  rw [List.append_nil]

theorem inTransit_other (hph : s.phase = .copying) (h : Live s) (he : Ends s p a) :
    (channel s p.other).inTransit = (s.copy p.other).held ++ (s.conn p.other).queue := by
  have hopen : (s.conn p.other).closed = false := by
    cases hc : (s.conn p.other).closed with
    | false => rfl
    | true =>
      have hd := h.shut hph p hc
      cases he with
      | eof hk _ _ => rw [hd] at hk; contradiction
      | readFails hk _ => rw [hd] at hk; contradiction
      | writeFails buf hk _ => rw [hd] at hk; contradiction
  rw [channel_copying hph, readable, hopen]
  rfl

theorem nothing_buffered (h : Live s) (hs : s.phase ≠ .copying) (hhead : header s q = [])
    (hbuf : buffered s q = (s.copy q).held) :
    (header s q).length ≤ (buffered s q).length ∧ (buffered s q).length ≤ (header s q).length := by
  rw [hhead, hbuf, (h.idle hs q).2.2]
  exact ⟨Nat.le_refl _, Nat.le_refl _⟩

theorem careful_ends (he : Ends s p a) :
    Careful s a ↔ (s.conn p.other).queue = [] ∨ (s.conn p).gone = true := by
  cases he with
  | eof => rfl
  | readFails => rfl
  | writeFails => rfl

/-- A careful step carries on in both directions. -/
theorem step_carries (h : Live s) (hs : step upstream s a = some s') (hne : s'.phase ≠ .failed)
    (hc : Careful s a) (q : Peer) : (channel s q).Carries (channel s' q) := by
  cases step_cases hs with
  | send p data hp hf =>
    rcases Peer.eq_or_other p q with rfl | rfl
    · cases hcl : (s.conn q).closed with
      | false =>
        rw [channel_send_open h hcl]
        exact .takes data
      | true =>
        rw [channel_send_closed hcl]
        rcases hc with hnil | hopen | hg
        · subst hnil
          rw [List.append_nil]
          exact .rests
        · exact absurd (hcl.symm.trans hopen) (by decide)
        · exact .discards _ _ (List.prefix_append _ _) hg
    · rw [channel_send_other]
      exact .rests
  | finish p hp =>
    rw [channel_finish]
    exact .rests
  | leave p hp =>
    rcases Peer.eq_or_other p q with rfl | rfl
    · rw [channel_leave]
      exact .rests
    · rw [channel_leave_other]
      exact .leaves
  | fillRequest n hd buf hph hn =>
    rw [channel_fill h (fills_request hph)]
    exact .rests
  | fillResponse n hd buf hph hn =>
    rw [channel_fill h (fills_response hph)]
    exact .rests
  | hijack hd buf hph hlen =>
    have hs : s.phase ≠ .copying := by rw [hph]; exact nofun
    have hbuf := buffered_idle (q := q) .dialing h hs rfl
    cases q with
    | client =>
      apply carries_setPhase .dialing h hs nofun rfl hbuf
      · simp only [header, buffered, hph]
        exact hlen
      · exact .inl hc
    | target =>
      have hnone := nothing_buffered (q := .target) h hs (by simp only [header, hph])
        (by simp only [buffered, hph])
      exact carries_setPhase .dialing h hs nofun rfl hbuf hnone.1 (.inl hnone.2)
  | dialDirect hph =>
    have hs : s.phase ≠ .copying := by rw [hph]; exact nofun
    have hbuf := buffered_idle (q := q) .connected h hs rfl
    rw [channel_dial [] .connected h hph nofun rfl (Nat.zero_le _) hbuf]
    exact .rests
  | dialProxy response hph =>
    have hs : s.phase ≠ .copying := by rw [hph]; exact nofun
    have hbuf : buffered (s.setPhase (.readResponse response [])) q = [] := by
      cases q with
      | client => exact buffered_idle _ h hs rfl
      | target => rfl
    rw [channel_dial response (.readResponse response []) h hph nofun rfl (Nat.le_refl _) hbuf]
    exact .rests
  | dialFails err _ hph => exact absurd hph hne
  | accept hd buf hph hlen =>
    have hs : s.phase ≠ .copying := by rw [hph]; exact nofun
    have hbuf := buffered_idle (q := q) .connected h hs rfl
    cases q with
    | client =>
      have hnone := nothing_buffered (q := .client) h hs (by simp only [header, hph])
        (by simp only [buffered, hph])
      exact carries_setPhase .connected h hs nofun rfl hbuf hnone.1 (.inl hnone.2)
    | target =>
      apply carries_setPhase .connected h hs nofun rfl hbuf
      · simp only [header, buffered, hph]
        exact hlen
      · exact hc
  | respond hph => exact carries_respond h hph
  | read p n hph hk hcl hn =>
    rw [channel_read hph hk hcl]
    exact .rests
  | write p buf hph hk => exact carries_copy hph hk
  | ends p _ hph he =>
    rcases Peer.eq_or_other p q with rfl | rfl
    · exact carries_endCopy hph h he
    · have hin := inTransit_other hph h he
      rw [channel_endCopy_other hph]
      rcases (careful_ends he).mp hc with hq | hg
      · rw [hq, List.append_nil] at hin
        rw [← hin]
        exact .rests
      · apply Channel.Carries.discards _ _ (List.prefix_refl _)
        show (s.conn p.other.other).gone = true
        rw [Peer.other_other]
        exact hg

/-- A step that is not careful loses bytes in one direction. -/
theorem step_loses (h : Live s) (hs : step upstream s a = some s') (hne : s'.phase ≠ .failed)
    (hc : ¬ Careful s a) : ∃ q, (channel s q).Loses (channel s' q) := by
  cases step_cases hs with
  | send p data hp hf =>
    simp only [Careful, not_or, Bool.not_eq_false, Bool.not_eq_true] at hc
    obtain ⟨hnil, hcl, hg⟩ := hc
    refine ⟨p, ?_⟩
    rw [channel_send_closed hcl]
    exact .misses data hnil hg
  | hijack hd buf hph hlen =>
    have hs : s.phase ≠ .copying := by rw [hph]; exact nofun
    have hfresh := h.fresh (by rw [hph]; rfl)
    refine ⟨.client, loses_setPhase .dialing h hs nofun rfl ?_ ?_ ?_⟩
    · exact buffered_idle .dialing h hs rfl
    · exact Nat.lt_of_not_le hc
    · show (s.conn .target).gone = false
      rw [hfresh]
      rfl
  | accept hd buf hph hlen =>
    have hs : s.phase ≠ .copying := by rw [hph]; exact nofun
    simp only [Careful, not_or, Nat.not_le, Bool.not_eq_true] at hc
    exact ⟨.target, loses_setPhase .connected h hs nofun rfl
      (buffered_idle .connected h hs rfl) hc.1 hc.2⟩
  | dialFails err _ hph => exact absurd hph hne
  | ends p _ hph he =>
    rw [careful_ends he, not_or, Bool.not_eq_true] at hc
    refine ⟨p.other, ?_⟩
    rw [channel_endCopy_other hph]
    apply Channel.Loses.drops
    · rw [inTransit_other hph h he]
      intro heq
      exact hc.1 (List.append_right_eq_self.mp heq.symm)
    · show (s.conn p.other.other).gone = false
      rw [Peer.other_other]
      exact hc.2
  | finish p hp => exact absurd trivial hc
  | leave p hp => exact absurd trivial hc
  | fillRequest n hd buf hph hn => exact absurd trivial hc
  | fillResponse n hd buf hph hn => exact absurd trivial hc
  | dialDirect hph => exact absurd trivial hc
  | dialProxy response hph => exact absurd trivial hc
  | respond hph => exact absurd trivial hc
  | read p n hph hk hcl hn => exact absurd trivial hc
  | write p buf hph hk => exact absurd trivial hc

/-! ## Runs -/

theorem step_failed (h : s.phase = .failed) : step upstream s a = none := by
  cases hs : step upstream s a with
  | none => rfl
  | some s' =>
    exfalso
    cases step_cases hs with
    | send p data hp hf => rw [h] at hp; cases p <;> contradiction
    | finish p hp => rw [h] at hp; cases p <;> contradiction
    | leave p hp => rw [h] at hp; cases p <;> contradiction
    | fillRequest n hd buf hph hn => rw [h] at hph; contradiction
    | fillResponse n hd buf hph hn => rw [h] at hph; contradiction
    | hijack hd buf hph hlen => rw [h] at hph; contradiction
    | dialDirect hph => rw [h] at hph; contradiction
    | dialProxy response hph => rw [h] at hph; contradiction
    | dialFails err _ hph => simp only [step, stepDialFails, h] at hs; contradiction
    | accept hd buf hph hlen => rw [h] at hph; contradiction
    | respond hph => rw [h] at hph; contradiction
    | read p n hph hk hcl hn => rw [h] at hph; contradiction
    | write p buf hph hk => rw [h] at hph; contradiction
    | ends p _ hph he => rw [h] at hph; contradiction

theorem pos_of_front (h : Live s) (hlen : ¬ (header s q).length ≤ (buffered s q).length) :
    0 < (s.conn q).queue.length := by
  have := h.front q
  omega

/-- Before the loops run there is always something to do. -/
theorem copying_of_quiet (h : Live s) (hne : s.phase ≠ .failed) (hq : Quiet upstream s) :
    s.phase = .copying := by
  cases hph : s.phase with
  | serving hd buf =>
    exfalso
    by_cases hlen : hd.length ≤ buf.length
    · have hstep := hq .hijack rfl
      simp only [step, stepHijack, hph, if_pos hlen] at hstep
      contradiction
    · have hpos := pos_of_front (q := .client) h (by simp only [header, buffered, hph]; exact hlen)
      have hstep := hq (.fill 1) rfl
      simp only [step, stepFill, hph] at hstep
      rw [if_pos ⟨Nat.one_pos, hpos⟩] at hstep
      contradiction
  | dialing =>
    exfalso
    have hstep := hq .dial rfl
    cases upstream with
    | direct => simp [step, stepDial, hph] at hstep
    | proxy response => simp [step, stepDial, hph] at hstep
  | readResponse hd buf =>
    exfalso
    by_cases hlen : hd.length ≤ buf.length
    · have hstep := hq .accept rfl
      simp only [step, stepAccept, hph, if_pos hlen] at hstep
      contradiction
    · have hpos := pos_of_front (q := .target) h (by simp only [header, buffered, hph]; exact hlen)
      have hstep := hq (.fill 1) rfl
      simp only [step, stepFill, hph] at hstep
      rw [if_pos ⟨Nat.one_pos, hpos, Nat.lt_of_not_le hlen⟩] at hstep
      contradiction
  | connected =>
    exfalso
    have hstep := hq .respond rfl
    simp [step, stepRespond, hph] at hstep
  | copying => rfl
  | failed => exact absurd hph hne

theorem inTransit_of_quiet (h : Live s) (hne : s.phase ≠ .failed) (hq : Quiet upstream s)
    (hg : (s.conn q.other).gone = false) : (channel s q).inTransit = [] := by
  have hph := copying_of_quiet h hne hq
  rw [channel_copying hph]
  show (s.copy q).held ++ readable (s.conn q) = []
  cases hk : s.copy q with
  | reading =>
    cases hc : (s.conn q).closed with
    | true =>
      rw [readable, if_pos hc]
      rfl
    | false =>
      have hstep := hq (.read q 1) rfl
      simp only [step, stepRead, hph, hk] at hstep
      rw [readable, hc]
      cases hqueue : (s.conn q).queue with
      | nil => rfl
      | cons b rest =>
        rw [if_pos ⟨hc, Nat.one_pos, by rw [hqueue]; exact Nat.succ_pos _⟩] at hstep
        contradiction
  | writing buf =>
    exfalso
    cases hc : (s.conn q.other).closed with
    | true =>
      have hstep := hq (.writeFails q) rfl
      simp only [step, stepWriteFails, hph, hk] at hstep
      rw [if_pos (.inl hc)] at hstep
      contradiction
    | false =>
      have hstep := hq (.write q) rfl
      simp only [step, stepWrite, hph, hk] at hstep
      rw [if_pos hc] at hstep
      contradiction
  | done =>
    show [] ++ readable (s.conn q) = []
    rw [List.nil_append, readable]
    rcases h.ended hph q hk with hc | ⟨_, hnil⟩ | hgone
    · rw [if_pos hc]
    · rw [hnil, ite_self]
    · exact absurd (hg.symm.trans hgone) (by decide)

theorem faithful_of_whole (h : Live s) (hw : ∀ q, (channel s q).Whole) : Faithful upstream s := by
  intro hne q
  refine ⟨hw q, fun hg hq => ?_⟩
  rw [(hw q).2 hg, inTransit_of_quiet h hne hq hg, List.append_nil]

/-- Until a dial fails. -/
def Running (s : State) : Prop := s.phase = .failed ∨ Live s

theorem step_running (h : Running s) (hs : step upstream s a = some s') : Running s' := by
  rcases h with hf | h
  · rw [step_failed hf] at hs
    contradiction
  · by_cases hne : s'.phase = .failed
    · exact .inl hne
    · exact .inr (step_live h hs hne)

theorem dialFails_of_failed (hs : step upstream s a = some s') (hne : s.phase ≠ .failed)
    (hf : s'.phase = .failed) : ∃ err, a = .dialFails err := by
  cases step_cases hs with
  | send p data hp hfin => exact absurd hf hne
  | finish p hp => exact absurd hf hne
  | leave p hp => exact absurd hf hne
  | dialFails err _ hph => exact ⟨err, rfl⟩
  | read p n hph hk hcl hn => exact absurd hf hne
  | write p buf hph hk => exact absurd hf hne
  | ends p _ hph he => exact absurd hf hne
  | fillRequest | fillResponse | hijack | dialDirect | dialProxy | accept | respond => contradiction

theorem step_faithful_iff (h : Running s) (hf : Faithful upstream s)
    (hs : step upstream s a = some s') : Faithful upstream s' ↔ Careful s a := by
  rcases h with hfail | h
  · rw [step_failed hfail] at hs
    contradiction
  have hopen : s.phase ≠ .failed := by
    intro hfail
    rw [step_failed hfail] at hs
    contradiction
  by_cases hne : s'.phase = .failed
  · obtain ⟨err, rfl⟩ := dialFails_of_failed hs hopen hne
    exact ⟨fun _ => trivial, fun _ hne' => absurd hne hne'⟩
  · have hw : ∀ q, (channel s q).Whole := fun q => (hf hopen q).1
    constructor
    · intro hf'
      by_contra hc
      obtain ⟨q, hl⟩ := step_loses h hs hne hc
      exact hl.not_whole (hw q) (hf' hne q).1
    · intro hc
      exact faithful_of_whole (step_live h hs hne) fun q =>
        (step_carries h hs hne hc q).whole (hw q)

theorem running_init : Running (machine upstream request).init := by
  refine .inr (live_of_idle nofun ?_ ?_ ?_ ?_)
  · intro q
    cases q <;> exact ⟨rfl, rfl, rfl⟩
  · intro _
    rfl
  · intro q
    cases q <;> exact nofun
  · intro q
    cases q with
    | client => exact Nat.le_add_left _ _
    | target => exact Nat.zero_le _

theorem faithful_init : Faithful upstream (machine upstream request).init := by
  have hinit : Running (machine upstream request).init := running_init
  rcases hinit with hf | h
  · contradiction
  · refine faithful_of_whole h fun q => ?_
    have hin : (channel (machine upstream request).init q).inTransit = greeting q := by
      cases q with
      | client => exact List.drop_length
      | target => rfl
    have hsent : (channel (machine upstream request).init q).sent = greeting q := by
      cases q <;> rfl
    have hreceived : (channel (machine upstream request).init q).received = [] := by
      cases q <;> rfl
    constructor
    · rw [hreceived]
      exact List.nil_prefix
    · intro _
      rw [hin, hsent, hreceived, List.nil_append]

def sampleRequest : GoString := bytes "CONNECT a:80 HTTP/1.1\r\n\r\n"

def sampleResponse : GoString := bytes "HTTP/1.1 200 OK\r\n\r\n"

/-- The client asks once it has the 200 line, the target answers and finishes first. -/
def askAndAnswer : List Act :=
  [.fill 10, .fill 15, .hijack, .dial, .fill 19, .accept, .respond, .send .client (bytes "ask"),
    .read .client 2, .write .client, .read .client 1, .send .target (bytes "ok"), .finish .target,
    .write .client, .read .target 2, .write .target, .eof .target, .readFails .client]

/-- The client's first bytes arrive with the header of its request. -/
def sentWithHeader : List Act :=
  [.send .client (bytes "hi"), .fill 27, .hijack, .dial, .respond]

/-- The target's first bytes arrive with the response of the upstream proxy. -/
def sentWithResponse : List Act :=
  [.fill 25, .hijack, .dial, .send .target (bytes "hi"), .fill 21, .accept, .respond]

/-- The client asks and half-closes, and then the target answers. -/
def answeredLate : List Act :=
  [.fill 25, .hijack, .dial, .respond, .send .client (bytes "ask"), .finish .client,
    .read .client 3, .write .client, .eof .client, .send .target (bytes "ok"), .readFails .target]

end Selebrow.Tunnel
