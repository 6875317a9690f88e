import Selebrow.Proxy.Delivery
import Selebrow.Transition.Progress

/-!
# The end of a tunnel

The loops of a tunnel run until a peer has finished or left.  The loop that reads from it
copies what is there and ends, and the connection that it closes ends the other loop, so that
`wg.Wait()` returns.

The step `write` is the loop's and the receiver's: a `Write` waits for a peer that stays and
does not read, and nothing but this peer, or the end of its connection, helps the loop on.
All other steps of a loop are its own alone.
-/

namespace Selebrow.Tunnel

open Transition

/-- A step of the loop that reads from the peer. -/
def Act.ofLoop (p : Peer) : Act → Bool
  | .read q _ | .write q | .eof q | .readFails q | .writeFails q => decide (q = p)
  | _ => false

def Copy.weight : Copy → Nat
  | .reading => 1
  | .writing _ => 2
  | .done => 0

/-- What the loop can still have to do: a read and a write for each byte, and to end. -/
def stepsLeft (p : Peer) (s : State) : Nat :=
  2 * (readable (s.conn p)).length + (s.copy p).weight

/-- The loop is in a `Write` to a peer that has not left, on an open connection. -/
def Waits (p : Peer) (s : State) : Prop :=
  (∃ buf, s.copy p = .writing buf) ∧ (s.conn p.other).closed = false ∧
    (s.conn p.other).gone = false

/-- The loop ends after at most `n` of its steps, if the peer that it writes to reads or has
left; without this peer it can take one wherever it does not wait for it. -/
structure Ending (upstream : Upstream) (request : GoString) (p : Peer) (n : Nat) (s : State) :
    Prop where
  inevitable : (machine upstream request).Inevitable (fun _ _ => True) (Act.ofLoop p)
    (fun t => t.copy p = .done) n s
  alone : ∀ acts t, (machine upstream request).run s acts = some t →
    (machine upstream request).Along (fun u => ¬ u.copy p = .done) s acts →
      Waits p t ∨ ∃ a : Act, a.ofLoop p = true ∧ a ≠ .write p ∧ (step upstream t a).isSome = true

/-- Nothing more can be read than what is there. -/
structure Draining (p : Peer) (s : State) : Prop where
  live : Live s
  copying : s.phase = .copying
  drained : (s.conn p).finished = true ∨ (s.conn p).closed = true

/-- The tunnel ends, but not by itself. -/
structure TornDown (upstream : Upstream) (request : GoString) (s : State) : Prop where
  caused : ∀ q, s.copy q = .done →
    (s.conn q.other).closed = true ∧ ∃ r, (s.conn r).finished = true
  drains : ∀ p, (s.conn p).finished = true →
    Ending upstream request p (2 * (s.conn p).queue.length + 2) s
  follows : ∀ p, s.copy p = .done → Ending upstream request p.other 2 s
  /-- A loop that waits has no other step. -/
  held : ∀ p, Waits p s → ∀ a : Act, a.ofLoop p = true → (step upstream s a).isSome = true →
    a = .write p
  /-- The handler has returned. -/
  silent : (∀ q, s.copy q = .done) → Quiet upstream s

section

variable {upstream : Upstream} {request : GoString} {s s' : State} {p q : Peer} {a : Act} {n : Nat}

/-! ## One loop -/

theorem pos_of_read (h : stepRead s p n = some s') : 0 < n := by
  rw [stepRead] at h
  split at h
  · split at h
    · rename_i hn
      exact hn.2.1
    · contradiction
  · contradiction

theorem readable_write (c : Conn) (data : GoString) : readable (c.write data) = readable c := by
  rw [readable, readable, Conn.closed_write, Conn.queue_write]

theorem weight_le (k : Copy) : k.weight ≤ 2 := by
  cases k with
  | reading => exact Nat.le_succ 1
  | writing buf => exact Nat.le_refl 2
  | done => exact Nat.zero_le 2

/-- A step that leaves the loop where it is. -/
structure Beside (p : Peer) (s s' : State) : Prop where
  phase : s'.phase = s.phase
  finished : (s.conn p).finished = true → (s'.conn p).finished = true
  closed : (s.conn p).closed = true → (s'.conn p).closed = true
  readable : (readable (s'.conn p)).length ≤ (readable (s.conn p)).length
  copy : s'.copy p = s.copy p

theorem Beside.drained (h : Beside p s s') (hd : Draining p s) :
    (s'.conn p).finished = true ∨ (s'.conn p).closed = true := by
  rcases hd.drained with hf | hc
  · exact .inl (h.finished hf)
  · exact .inr (h.closed hc)

theorem Beside.stepsLeft (h : Beside p s s') : stepsLeft p s' ≤ stepsLeft p s := by
  have hreadable := h.readable
  rw [Tunnel.stepsLeft, Tunnel.stepsLeft, h.copy]
  omega

/-- What a peer does to its connection. -/
theorem beside_peer {c : Conn} (hf : (s.conn q).finished = true → c.finished = true)
    (hc : c.closed = (s.conn q).closed)
    (hr : q = p → (readable c).length ≤ (readable (s.conn q)).length) : Beside p s (s.setConn q c) := by
  by_cases hq : p = q
  · subst hq
    refine ⟨rfl, ?_, ?_, ?_, rfl⟩
    · rw [State.conn_setConn]
      exact hf
    · rw [State.conn_setConn, hc]
      exact fun h => h
    · rw [State.conn_setConn]
      exact hr rfl
  · have heq := State.conn_setConn_ne s c hq
    refine ⟨rfl, ?_, ?_, ?_, rfl⟩
    · rw [heq]
      exact fun h => h
    · rw [heq]
      exact fun h => h
    · exact Nat.le_of_eq (congrArg (fun c => (readable c).length) heq)

theorem beside_send {data : GoString} (hd : Draining p s) (hf : (s.conn q).finished = false) :
    Beside p s (s.setConn q ((s.conn q).send data)) := by
  apply beside_peer
  · intro hf'
    exact absurd (hf.symm.trans hf') (by decide)
  · rfl
  · intro hq
    have hc : (s.conn q).closed = true := by
      rw [hq] at hf ⊢
      rcases hd.drained with hf' | hc
      · exact absurd (hf.symm.trans hf') (by decide)
      · exact hc
    have hempty : readable ((s.conn q).send data) = [] := if_pos hc
    rw [hempty]
    exact Nat.zero_le _

theorem beside_read (h : q ≠ p) (buf : GoString) :
    Beside p s ((s.setConn q ((s.conn q).read n)).setCopy q (.writing buf)) := by
  have hconn : ((s.setConn q ((s.conn q).read n)).setCopy q (.writing buf)).conn p = s.conn p := by
    rw [State.conn_setCopy, State.conn_setConn_ne _ _ (Ne.symm h)]
  refine ⟨rfl, ?_, ?_, ?_, ?_⟩
  · rw [hconn]
    exact fun h => h
  · rw [hconn]
    exact fun h => h
  · exact Nat.le_of_eq (congrArg (fun c => (readable c).length) hconn)
  · rw [State.copy_setCopy_ne _ _ (Ne.symm h), State.copy_setConn]

theorem beside_write (h : q ≠ p) (buf : GoString) :
    Beside p s ((s.setConn q.other ((s.conn q.other).write buf)).setCopy q .reading) := by
  refine ⟨rfl, ?_, ?_, ?_, ?_⟩
  · rw [State.conn_setCopy, State.field_setConn s Conn.finished (Conn.finished_write _ _)]
    exact fun h => h
  · rw [State.conn_setCopy, State.field_setConn s Conn.closed (Conn.closed_write _ _)]
    exact fun h => h
  · have hreadable := State.field_setConn s readable (readable_write (s.conn q.other) buf) p
    exact Nat.le_of_eq (congrArg List.length hreadable)
  · rw [State.copy_setCopy_ne _ _ (Ne.symm h), State.copy_setConn]

theorem beside_endCopy : Beside p s (endCopy s p.other) := by
  have hconn : (endCopy s p.other).conn p = { s.conn p with closed := true } := by
    have heq := conn_endCopy_other s p.other
    rw [Peer.other_other] at heq
    exact heq
  have hcopy : (endCopy s p.other).copy p = s.copy p := by
    have heq := copy_endCopy_other s p.other
    rw [Peer.other_other] at heq
    exact heq
  refine ⟨rfl, ?_, ?_, ?_, hcopy⟩
  · rw [hconn]
    exact fun h => h
  · rw [hconn]
    exact fun _ => rfl
  · rw [hconn]
    exact Nat.zero_le _

theorem Draining.notFailed (h : Draining p s) : s.phase ≠ .failed := by
  rw [h.copying]
  decide

theorem Draining.beside (h : Draining p s) (hs : step upstream s a = some s') (hb : Beside p s s')
    (ha : a.ofLoop p = false) :
    Draining p s' ∧ stepsLeft p s' + (a.ofLoop p).toNat ≤ stepsLeft p s := by
  have hne : s'.phase ≠ .failed := by
    rw [hb.phase]
    exact h.notFailed
  refine ⟨⟨step_live h.live hs hne, hb.phase.trans h.copying, hb.drained h⟩, ?_⟩
  rw [ha]
  exact hb.stepsLeft

theorem ofLoop_ends (he : Ends s q a) (h : q ≠ p) : a.ofLoop p = false := by
  cases he with
  | eof hk hf hq => exact decide_eq_false h
  | readFails hk hc => exact decide_eq_false h
  | writeFails buf hk hc => exact decide_eq_false h

theorem Draining.own_read (h : Draining p s) (hk : s.copy p = .reading)
    (hc : (s.conn p).closed = false) (hpos : 0 < n) (hn : n ≤ (s.conn p).queue.length)
    (hlive : Live ((s.setConn p ((s.conn p).read n)).setCopy p (.writing ((s.conn p).queue.take n)))) :
    Draining p ((s.setConn p ((s.conn p).read n)).setCopy p (.writing ((s.conn p).queue.take n))) ∧
      stepsLeft p ((s.setConn p ((s.conn p).read n)).setCopy p (.writing ((s.conn p).queue.take n))) + 1 ≤
        stepsLeft p s := by
  have hopen : ((s.conn p).read n).closed = false := hc
  have hfinished := h.drained.resolve_right (by rw [hc]; exact Bool.false_ne_true)
  refine ⟨⟨hlive, h.copying, .inl ?_⟩, ?_⟩
  · rw [State.conn_setCopy, State.conn_setConn]
    exact hfinished
  · rw [stepsLeft, stepsLeft, State.copy_setCopy, State.conn_setCopy, State.conn_setConn, hk,
      readable, readable, hopen, hc]
    show 2 * ((s.conn p).queue.drop n).length + 2 + 1 ≤ 2 * (s.conn p).queue.length + 1
    rw [List.length_drop]
    omega

theorem Draining.own_write (h : Draining p s) {buf : GoString} (hk : s.copy p = .writing buf)
    (hlive : Live ((s.setConn p.other ((s.conn p.other).write buf)).setCopy p .reading)) :
    Draining p ((s.setConn p.other ((s.conn p.other).write buf)).setCopy p .reading) ∧
      stepsLeft p ((s.setConn p.other ((s.conn p.other).write buf)).setCopy p .reading) + 1 ≤
        stepsLeft p s := by
  have hconn : ((s.setConn p.other ((s.conn p.other).write buf)).setCopy p .reading).conn p =
      s.conn p := by
    rw [State.conn_setCopy, State.conn_setConn_ne _ _ (Peer.ne_other p)]
  refine ⟨⟨hlive, h.copying, ?_⟩, ?_⟩
  · rw [hconn]
    exact h.drained
  · rw [stepsLeft, stepsLeft, State.copy_setCopy, hconn, hk]
    exact Nat.le_refl _

/-- Until the loop ends each of its steps is one of those left, and no other step adds to them. -/
theorem Draining.next (h : Draining p s) (hs : step upstream s a = some s')
    (hend : s'.copy p ≠ .done) :
    Draining p s' ∧ stepsLeft p s' + (a.ofLoop p).toNat ≤ stepsLeft p s := by
  cases step_cases hs with
  | send q data hq hf => exact h.beside hs (beside_send h hf) rfl
  | finish q hq =>
    exact h.beside hs (beside_peer (fun _ => rfl) rfl fun _ => Nat.le_refl _) rfl
  | leave q hq =>
    exact h.beside hs (beside_peer (fun _ => rfl) rfl fun _ => Nat.le_refl _) rfl
  | read q n hph hk hc hn =>
    by_cases hq : q = p
    · subst hq
      have hown : Act.ofLoop q (.read q n) = true := decide_eq_true rfl
      rw [hown]
      exact h.own_read hk hc (pos_of_read hs) hn (step_live h.live hs h.notFailed)
    · exact h.beside hs (beside_read hq _) (decide_eq_false hq)
  | write q buf hph hk =>
    by_cases hq : q = p
    · subst hq
      have hown : Act.ofLoop q (.write q) = true := decide_eq_true rfl
      rw [hown]
      exact h.own_write hk (step_live h.live hs h.notFailed)
    · exact h.beside hs (beside_write hq buf) (decide_eq_false hq)
  | ends q _ hph he =>
    rcases Peer.eq_or_other q p with hp | hp
    · subst hp
      exact absurd (copy_endCopy s p) hend
    · have hq : q = p.other := by rw [hp, Peer.other_other]
      subst hq
      exact h.beside hs beside_endCopy (ofLoop_ends he (Peer.other_ne p))
  | fillRequest n hd buf hph hn =>
    rw [h.copying] at hph
    contradiction
  | fillResponse n hd buf hph hn =>
    rw [h.copying] at hph
    contradiction
  | hijack hd buf hph hlen =>
    rw [h.copying] at hph
    contradiction
  | dialDirect hph =>
    rw [h.copying] at hph
    contradiction
  | dialProxy response hph =>
    rw [h.copying] at hph
    contradiction
  | dialFails err _ hph =>
    simp only [step, stepDialFails, h.copying] at hs
    contradiction
  | accept hd buf hph hlen =>
    rw [h.copying] at hph
    contradiction
  | respond hph =>
    rw [h.copying] at hph
    contradiction

/-- Short of its end the loop waits for the peer that it writes to, or has a step of its own. -/
theorem Draining.alone (h : Draining p s) (hk : s.copy p ≠ .done) :
    Waits p s ∨ ∃ a : Act, a.ofLoop p = true ∧ a ≠ .write p ∧ (step upstream s a).isSome = true := by
  have hown : decide (p = p) = true := decide_eq_true rfl
  cases hcopy : s.copy p with
  | done => exact absurd hcopy hk
  | reading =>
    right
    cases hc : (s.conn p).closed with
    | true =>
      refine ⟨.readFails p, hown, by simp, ?_⟩
      simp only [step, stepReadFails, h.copying, hcopy, hc]
      rfl
    | false =>
      have hfinished := h.drained.resolve_right (by rw [hc]; exact Bool.false_ne_true)
      cases hq : (s.conn p).queue with
      | nil =>
        refine ⟨.eof p, hown, by simp, ?_⟩
        simp only [step, stepEof, h.copying, hcopy, hc, hfinished, hq]
        rfl
      | cons b queue =>
        refine ⟨.read p 1, hown, by simp, ?_⟩
        have hlength : 1 ≤ (s.conn p).queue.length := by
          rw [hq]
          exact Nat.succ_le_succ (Nat.zero_le _)
        show (stepRead s p 1).isSome = true
        unfold stepRead
        rw [h.copying, hcopy]
        show (if _ then some _ else none).isSome = true
        rw [if_pos ⟨hc, Nat.one_pos, hlength⟩]
        rfl
  | writing buf =>
    by_cases hfails : (s.conn p.other).closed = true ∨ (s.conn p.other).gone = true
    · right
      refine ⟨.writeFails p, hown, by simp, ?_⟩
      simp only [step, stepWriteFails, h.copying, hcopy, hfails]
      rfl
    · left
      rw [not_or, Bool.not_eq_true, Bool.not_eq_true] at hfails
      exact ⟨⟨buf, hcopy⟩, hfails⟩

theorem Waits.held (h : Waits p s) (hown : a.ofLoop p = true)
    (hs : (step upstream s a).isSome = true) : a = .write p := by
  obtain ⟨⟨buf, hk⟩, hc, hg⟩ := h
  obtain ⟨s', hs⟩ := Option.isSome_iff_exists.mp hs
  cases step_cases hs with
  | write q _ _ _ =>
    have hq : q = p := of_decide_eq_true hown
    rw [hq]
  | read q n _ hreading _ _ =>
    have hq : q = p := of_decide_eq_true hown
    rw [hq, hk] at hreading
    contradiction
  | ends q _ _ he =>
    cases he with
    | eof hreading _ _ | readFails hreading _ =>
      have hq : q = p := of_decide_eq_true hown
      rw [hq, hk] at hreading
      contradiction
    | writeFails buf' _ hfails =>
      have hq : q = p := of_decide_eq_true hown
      rw [hq, hc, hg] at hfails
      rcases hfails with h | h <;> contradiction
  | _ => contradiction

/-- A loop that waits goes on when the peer reads. -/
theorem Draining.enabled (h : Draining p s) (hk : s.copy p ≠ .done) :
    ∃ a : Act, a.ofLoop p = true ∧ (step upstream s a).isSome = true := by
  have halone : Waits p s ∨
      ∃ a : Act, a.ofLoop p = true ∧ a ≠ .write p ∧ (step upstream s a).isSome = true := h.alone hk
  rcases halone with ⟨⟨buf, hcopy⟩, hc, _⟩ | ⟨a, hown, _, hs⟩
  · refine ⟨.write p, decide_eq_true rfl, ?_⟩
    simp only [step, stepWrite, h.copying, hcopy, hc]
    rfl
  · exact ⟨a, hown, hs⟩

theorem Draining.ends (h : Draining p s) (hn : stepsLeft p s ≤ n) :
    Ending upstream request p n s := by
  have hinv : ∀ t a t', Draining p t → True → (machine upstream request).step t a = some t' →
      ¬ t.copy p = .done → ¬ t'.copy p = .done → Draining p t' :=
    fun t a t' ht _ hs _ hend => (ht.next hs hend).1
  have hleft : ∀ t a t', Draining p t → True → (machine upstream request).step t a = some t' →
      ¬ t.copy p = .done → ¬ t'.copy p = .done → stepsLeft p t' + (a.ofLoop p).toNat ≤ stepsLeft p t :=
    fun t a t' ht _ hs _ hend => (ht.next hs hend).2
  constructor
  · apply Machine.Inevitable.of_measure (stepsLeft p) hinv hleft ?_ h hn
    intro t ht hgoal
    exact ht.enabled hgoal
  · intro acts t hrun halong
    have hdraining := (Machine.countP_add_le hinv hleft acts h (Machine.meets_true _ _ acts) hrun
      halong).2
    exact hdraining.alone (halong.last acts hrun)

/-! ## Both loops -/

/-- A loop that has ended has closed a connection, and had a reason to end. -/
def Caused (s : State) : Prop :=
  ∀ q, s.copy q = .done → (s.conn q.other).closed = true ∧ ∃ r, (s.conn r).finished = true

theorem caused_of_setConn {c : Conn} (h : Caused s) (hc : c.closed = (s.conn p).closed)
    (hf : (s.conn p).finished = true → c.finished = true) : Caused (s.setConn p c) := by
  intro q hq
  obtain ⟨hclosed, r, hr⟩ := h q hq
  constructor
  · rw [State.field_setConn s Conn.closed hc]
    exact hclosed
  · refine ⟨r, ?_⟩
    by_cases hrp : r = p
    · subst hrp
      rw [State.conn_setConn]
      exact hf hr
    · rw [State.conn_setConn_ne s c hrp]
      exact hr

theorem caused_setCopy {k : Copy} (h : Caused s) (hk : k ≠ .done) : Caused (s.setCopy p k) := by
  intro q hq
  by_cases hqp : q = p
  · subst hqp
    rw [State.copy_setCopy] at hq
    exact absurd hq hk
  · rw [State.copy_setCopy_ne s k hqp] at hq
    exact h q hq

theorem finished_of_ends (hl : Live s) (hph : s.phase = .copying) (h : Caused s) (he : Ends s p a) :
    ∃ r, (s.conn r).finished = true := by
  cases he with
  | eof hk hf hq => exact ⟨p, hf⟩
  | readFails hk hc =>
    have hd : s.copy p.other = .done := hl.shut hph p.other (by rw [Peer.other_other]; exact hc)
    exact (h p.other hd).2
  | writeFails buf hk hc =>
    rcases hc with hc | hg
    · rw [hl.shut hph p hc] at hk
      contradiction
    · exact ⟨p.other, hl.left p.other hg⟩

theorem caused_endCopy (hl : Live s) (hph : s.phase = .copying) (h : Caused s) (he : Ends s p a) :
    Caused (endCopy s p) := by
  intro q hq
  have hfinished : ∃ r, ((endCopy s p).conn r).finished = true := by
    obtain ⟨r, hr⟩ := finished_of_ends hl hph h he
    refine ⟨r, ?_⟩
    rw [endCopy, State.field_setConn (s.setCopy p .done) Conn.finished
      (c := { s.conn p.other with closed := true }) rfl, State.conn_setCopy]
    exact hr
  refine ⟨?_, hfinished⟩
  rcases Peer.eq_or_other p q with rfl | rfl
  · rw [conn_endCopy_other]
  · rw [copy_endCopy_other] at hq
    rw [Peer.other_other, conn_endCopy]
    have hclosed := (h p.other hq).1
    rw [Peer.other_other] at hclosed
    exact hclosed

theorem step_caused (hl : Live s) (h : Caused s) (hs : step upstream s a = some s')
    (hph : s'.phase = .copying) : Caused s' := by
  cases step_cases hs with
  | send q data hq hf => exact caused_of_setConn h rfl fun hf => hf
  | finish q hq => exact caused_of_setConn h rfl fun _ => rfl
  | leave q hq => exact caused_of_setConn h rfl fun _ => rfl
  | respond hidle =>
    intro q hq
    have hreading := (hl.idle (by rw [hidle]; decide) q).2.2
    have hdone : s.copy q = .done := hq
    rw [hreading] at hdone
    contradiction
  | read q n hcopying hk hc hn =>
    have hwriting : Copy.writing ((s.conn q).queue.take n) ≠ .done := by
      intro hdone
      contradiction
    exact caused_setCopy (caused_of_setConn h rfl fun hf => hf) hwriting
  | write q buf hcopying hk =>
    have hreading : Copy.reading ≠ .done := by decide
    refine caused_setCopy ?_ hreading
    apply caused_of_setConn h (Conn.closed_write _ _)
    rw [Conn.finished_write]
    exact fun hf => hf
  | ends q _ hcopying he => exact caused_endCopy hl hcopying h he
  | dialFails err _ hfailed =>
    rw [hph] at hfailed
    contradiction
  | fillRequest | fillResponse | hijack | dialDirect | dialProxy | accept => contradiction

def Accounted (s : State) : Prop := s.phase = .failed ∨ (Live s ∧ (s.phase = .copying → Caused s))

theorem step_accounted (h : Accounted s) (hs : step upstream s a = some s') : Accounted s' := by
  rcases h with hf | ⟨hl, hc⟩
  · rw [step_failed hf] at hs
    contradiction
  by_cases hne : s'.phase = .failed
  · exact .inl hne
  refine .inr ⟨step_live hl hs hne, ?_⟩
  intro hph
  refine step_caused hl ?_ hs hph
  by_cases hcopying : s.phase = .copying
  · exact hc hcopying
  · intro q hq
    rw [(hl.idle hcopying q).2.2] at hq
    contradiction

theorem accounted_init : Accounted (machine upstream request).init := by
  have hinit : Running (machine upstream request).init := running_init
  rcases hinit with hf | hl
  · exact .inl hf
  · refine .inr ⟨hl, ?_⟩
    intro hph
    contradiction

theorem quiet_of_done (hph : s.phase = .copying) (h : ∀ q, s.copy q = .done) : Quiet upstream s := by
  intro a ha
  cases hs : step upstream s a with
  | none => rfl
  | some s' =>
    exfalso
    cases step_cases hs with
    | send | finish | leave => contradiction
    | read q n _ hk hc hn =>
      rw [h q] at hk
      contradiction
    | write q buf _ hk =>
      rw [h q] at hk
      contradiction
    | ends q _ _ he =>
      cases he with
      | eof hk hf hq =>
        rw [h q] at hk
        contradiction
      | readFails hk hc =>
        rw [h q] at hk
        contradiction
      | writeFails buf hk hc =>
        rw [h q] at hk
        contradiction
    | fillRequest n hd buf hidle hn =>
      rw [hph] at hidle
      contradiction
    | fillResponse n hd buf hidle hn =>
      rw [hph] at hidle
      contradiction
    | hijack hd buf hidle hlen =>
      rw [hph] at hidle
      contradiction
    | dialDirect hidle =>
      rw [hph] at hidle
      contradiction
    | dialProxy response hidle =>
      rw [hph] at hidle
      contradiction
    | dialFails err _ hfailed =>
      simp only [step, stepDialFails, hph] at hs
      contradiction
    | accept hd buf hidle hlen =>
      rw [hph] at hidle
      contradiction
    | respond hidle =>
      rw [hph] at hidle
      contradiction

end

/-- In every state of a tunnel: no loop has ended without a peer that has finished; the loop of
a peer that has finished ends after at most a read and a write for each byte that is there, and
the other loop after at most two more of its own steps, whatever the peers and the other loop do
in between, unless one of them waits for good in a `Write` to a peer that stays and does not
read; and then the proxy is done. -/
theorem torn_down (upstream : Upstream) (request : GoString) (s : State)
    (h : (machine upstream request).Reachable s) (hph : s.phase = .copying) :
    TornDown upstream request s := by
  have haccounted : Accounted s :=
    Machine.Reach.invariant accounted_init (fun _ _ _ ht _ hs => step_accounted ht hs) h
  rcases haccounted with hf | ⟨hl, hcaused⟩
  · rw [hph] at hf
    contradiction
  have hcaused := hcaused hph
  constructor
  · exact hcaused
  · intro p hp
    apply Draining.ends ⟨hl, hph, .inl hp⟩
    have hweight := weight_le (s.copy p)
    rw [stepsLeft, readable]
    split
    · rw [List.length_nil]
      omega
    · omega
  · intro p hp
    have hclosed := (hcaused p hp).1
    apply Draining.ends ⟨hl, hph, .inr hclosed⟩
    have hempty : readable (s.conn p.other) = [] := if_pos hclosed
    have hweight := weight_le (s.copy p.other)
    rw [stepsLeft, hempty, List.length_nil]
    omega
  · intro p hp a hown hs
    exact hp.held hown hs
  · exact quiet_of_done hph

def finishedEarly : List Act := [.hijack, .dial, .respond, .send .client (bytes "a"), .finish .client]

def finishedEarlyState : State :=
  ((machine .direct []).run (machine .direct []).init finishedEarly).getD (machine .direct []).init

theorem torn_down_finishedEarly : TornDown .direct [] finishedEarlyState :=
  torn_down .direct [] finishedEarlyState (Machine.reachable_of_run finishedEarly rfl) rfl

end Selebrow.Tunnel
