import Selebrow.Proxy.Connections

/-!
# Isolation of pooled browsers

A session's browser stays with the session until it is closed, and a stored session's
browser was not closed.  What is left is the deletion that gives the browser back to the
pool: it does not end the connections that were admitted for the session, so it keeps
them apart from the next session only when there are none.
-/

namespace Selebrow.Proxy

open Transition

/-- Webdrivers answer with fresh ids, and a deletion gives the browser back to the pool
only when every request that was admitted for the session has ended.  The connection of the
playwright `CreateSession` itself was admitted by nobody and is none of them. -/
def Drained (cfg : Config) (s : State) : Act → Prop
  | .session a => Session.FreshId s.sess a
  | .close (.closeDeleted i ok) =>
    ∀ (protocol : Session.BrowserProtocol) (sess : Session) (rest : List Session),
      s.sess.calls[i]? = some (Session.Call.deleted protocol sess rest) →
      Session.trash cfg.session protocol ok = false →
      ∀ conn ∈ s.conns, conn.br = sess.br → conn.phase = .ended
  | _ => True

/-- Call `c` of the pools holds browser `w`. -/
def Holds (p : Pool.State) (c w : Nat) : Prop :=
  ∃ name, p.clients[c]? = some (.holding name w)

/-- Browser `w` is with the call `c` that returned it, or was given to the backend's
`Close`. -/
def Kept (p : Pool.State) (c w : Nat) : Prop := Holds p c w ∨ 0 < p.closed w

structure Inv (s : State) : Prop where
  length : s.given.length = s.sess.browsers
  nodup : (s.given.map Prod.fst).Nodup
  held : ∀ b c w, s.given[b]? = some (c, w) → s.sess.closed b = 0 → Holds s.pool c w
  conns : ∀ conn ∈ s.conns, conn.phase ≠ .ended →
    ∃ c w, s.given[conn.br]? = some (c, w) ∧ Kept s.pool c w

variable {cfg : Config} {s s' : State}

/-- The runs of the composition are runs of the services. -/
theorem reach_session (h : (machine cfg).Reach (Drained cfg) s) :
    (Session.machine cfg.session cfg.sessionIds).Reach Session.FreshId s.sess := by
  refine Machine.Reach.map State.sess rfl (fun t a t' _ ha ht => ?_) h
  cases step_sound ht with
  | session a sess _ hs => exact .inr ⟨a, ha, hs⟩
  | allocate i c name w sess _ _ hs => exact .inr ⟨.allocate i true, trivial, hs⟩
  | close a sess br trash c w pool hcl hs _ _ _ =>
    refine .inr ⟨a, ?_, hs⟩
    cases a with
    | closeFailed i | closeDeleted i ok | shutdownClose i => exact trivial
    | _ => simp [closing] at hcl
  | _ => exact .inl rfl

/-- The runs of the composition are runs of the pools. -/
theorem reach_pool (h : (machine cfg).Reach (Drained cfg) s) :
    (Pool.machine cfg.pool cfg.browserIds).Reachable s.pool := by
  refine Machine.Reach.map State.pool rfl (fun t a t' _ _ ht => ?_) h
  cases step_sound ht with
  | pool a pool _ hp => exact .inr ⟨a, trivial, hp⟩
  | close a sess br trash c w pool _ _ _ _ hp => exact .inr ⟨.close c trash, trivial, hp⟩
  | _ => exact .inl rfl

/-! ## Closing -/

/-- What a section that calls `Browser.Close` does to the services. -/
theorem close_session {ids : FreshSupply GoString} {c : Session.Config} {t t' : Session.State}
    {a : Session.Act} (ha : closing a = true) (h : Session.step c ids t a = some t') :
    ∃ i d d' br trash, t.calls[i]? = some d ∧ Session.Closes c i a d br trash d' ∧
      t' = (t.setCall i d').close br trash := by
  cases Session.step_sound h with
  | close i _ d d' br trash hd hcl => exact ⟨i, d, d', br, trash, hd, hcl, rfl⟩
  | move i _ d d' _ hm => cases hm <;> simp [closing] at ha
  | _ => simp [closing] at ha

/-- The other sections close no browser and get none. -/
theorem sessionOnly_session {ids : FreshSupply GoString} {c : Session.Config}
    {t t' : Session.State} {a : Session.Act} (ha : sessionOnly a = true)
    (h : Session.step c ids t a = some t') :
    t'.closes = t.closes ∧ t'.browsers = t.browsers := by
  cases Session.step_sound h with
  | allocate i protocol _ => simp [sessionOnly] at ha
  | close i _ d d' br trash _ hcl => cases hcl <;> simp [sessionOnly, closing] at ha
  | _ => exact ⟨rfl, rfl⟩

theorem allocate_session {ids : FreshSupply GoString} {c : Session.Config}
    {t t' : Session.State} {i : Nat} (h : Session.step c ids t (.allocate i true) = some t') :
    t'.closes = t.closes ∧ t'.browsers = t.browsers + 1 := by
  generalize ha : Session.Act.allocate i true = a at h
  cases Session.step_sound h with
  | allocate j protocol _ => exact ⟨rfl, rfl⟩
  | move j _ d d' _ hm => cases hm <;> simp at ha
  | close j _ d d' br trash _ hcl => cases hcl <;> simp at ha
  | _ => simp at ha

theorem Holds.of_step {p p' : Pool.State} {a : Pool.Act} {c w : Nat}
    (h : Pool.step cfg.pool cfg.browserIds p a = some p') (ha : ∀ trash, a ≠ .close c trash)
    (hc : Holds p c w) : Holds p' c w := by
  obtain ⟨name, hc⟩ := hc
  exact ⟨name, Pool.step_holding h ha hc⟩

theorem Kept.of_step {p p' : Pool.State} {a : Pool.Act} {c w : Nat}
    (h : Pool.step cfg.pool cfg.browserIds p a = some p') (ha : ∀ trash, a ≠ .close c trash)
    (hc : Kept p c w) : Kept p' c w := by
  rcases hc with hc | hc
  · exact .inl (hc.of_step h ha)
  · exact .inr (Nat.lt_of_lt_of_le hc (Pool.step_closed h w))

/-! ## The invariant -/

theorem inv_of_allocate {i c w : Nat} {name : GoString} {sess : Session.State} (hi : Inv s)
    (hc : s.pool.clients[c]? = some (.holding name w)) (hnew : c ∉ s.given.map Prod.fst)
    (hs : Session.step cfg.session cfg.sessionIds s.sess (.allocate i true) = some sess) :
    Inv { s with sess := sess, given := s.given ++ [(c, w)] } := by
  obtain ⟨hcloses, hbrowsers⟩ := allocate_session hs
  have hlen := hi.length
  refine ⟨?_, ?_, fun b d v hb hclosed => ?_, fun conn hconn hne => ?_⟩
  · show (s.given ++ [(c, w)]).length = sess.browsers
    rw [List.length_append, hbrowsers, hlen]
    rfl
  · show ((s.given ++ [(c, w)]).map Prod.fst).Nodup
    rw [List.map_append, List.nodup_append_comm]
    exact List.nodup_cons.mpr ⟨hnew, hi.nodup⟩
  · show Holds s.pool d v
    rcases getElem?_concat_some hb with hb | ⟨_, hnew⟩
    · apply hi.held b d v hb
      rw [← hclosed]
      show (s.sess.closes.map Prod.fst).count b = (sess.closes.map Prod.fst).count b
      rw [hcloses]
    · obtain ⟨rfl, rfl⟩ := Prod.mk.inj hnew
      exact ⟨name, hc⟩
  · obtain ⟨d, v, hd, hkept⟩ := hi.conns conn hconn hne
    exact ⟨d, v, getElem?_append_some hd, hkept⟩

/-- Two browsers of the sessions were returned by different calls of the pools. -/
theorem given_inj (hi : Inv s) {b b' c w w' : Nat} (hb : s.given[b]? = some (c, w))
    (hb' : s.given[b']? = some (c, w')) : b = b' := by
  have hlt := (List.getElem?_eq_some_iff.mp hb).1
  apply (List.getElem?_inj (by rw [List.length_map]; exact hlt) hi.nodup).mp
  rw [List.getElem?_map, List.getElem?_map, hb, hb']
  rfl

theorem inv_of_close {a : Session.Act} {sess : Session.State} {br c w : Nat} {trash : Bool}
    {pool : Pool.State} (hi : Inv s) (hd : Drained cfg s (.close a)) (ha : closing a = true)
    (hs : Session.step cfg.session cfg.sessionIds s.sess a = some sess)
    (hl : sess.closes.getLast? = some (br, trash)) (hg : s.given[br]? = some (c, w))
    (hp : Pool.step cfg.pool cfg.browserIds s.pool (.close c trash) = some pool)
    (hone : sess.closed br ≤ 1) : Inv { s with sess := sess, pool := pool } := by
  obtain ⟨i, d, d', br', trash', hcall, hcl, rfl⟩ := close_session ha hs
  obtain ⟨rfl, rfl⟩ : br' = br ∧ trash' = trash := by
    rw [show ((s.sess.setCall i d').close br' trash').closes = s.sess.closes ++ [(br', trash')]
      from rfl, List.getLast?_append_of_ne_nil _ (by simp)] at hl
    simpa using hl
  have hother : ∀ {b e v : Nat}, s.given[b]? = some (e, v) → b ≠ br' →
      ∀ t, Pool.Act.close c trash' ≠ .close e t := by
    intro b e v hb hne t heq
    obtain ⟨rfl, -⟩ := Pool.Act.close.inj heq
    exact hne (given_inj hi hb hg)
  have hfirst : s.sess.closed br' = 0 := by
    rw [Session.closed_close, if_pos rfl] at hone
    omega
  refine ⟨hi.length, hi.nodup, fun b e v hb hclosed => ?_, fun conn hconn hne => ?_⟩
  · rw [Session.closed_close] at hclosed
    have hbr : b ≠ br' := by
      rintro rfl
      rw [if_pos rfl] at hclosed
      omega
    exact (hi.held b e v hb (by omega)).of_step hp (hother hb hbr)
  · show ∃ e v, s.given[conn.br]? = some (e, v) ∧ Kept pool e v
    obtain ⟨e, v, he, hkept⟩ := hi.conns conn hconn hne
    refine ⟨e, v, he, ?_⟩
    by_cases hbr : conn.br = br'
    · rw [hbr, hg, Option.some.injEq, Prod.mk.injEq] at he
      obtain ⟨rfl, rfl⟩ := he
      cases trash' with
      | true =>
        obtain ⟨name, hname⟩ := hi.held br' c w hg hfirst
        exact .inr (Pool.close_closed hname hp)
      | false =>
        -- The browser goes back to the pool, so the request has ended.
        generalize htrash : false = t at hcl
        cases hcl with
        | deleted protocol sess rest ok =>
          exact absurd (hd protocol sess rest hcall htrash.symm conn hconn hbr) hne
        | _ => simp at htrash
    · exact hkept.of_step hp (hother he hbr)

theorem step_inv {a : Act} (hi : Inv s) (hsess : Session.Inv cfg.sessionIds s.sess)
    (hsess' : Session.Inv cfg.sessionIds s'.sess) (hd : Drained cfg s a)
    (h : step cfg s a = some s') : Inv s' := by
  cases step_sound h with
  | session a sess ha hs =>
    obtain ⟨hcloses, hbrowsers⟩ := sessionOnly_session ha hs
    refine ⟨hi.length.trans hbrowsers.symm, hi.nodup, fun b c w hb hclosed => ?_, hi.conns⟩
    apply hi.held b c w hb
    rw [← hclosed]
    show (s.sess.closes.map Prod.fst).count b = (sess.closes.map Prod.fst).count b
    rw [hcloses]
  | pool a pool ha hp =>
    have hne : ∀ c trash, a ≠ .close c trash := by
      rintro c trash rfl
      simp [poolOnly] at ha
    refine ⟨hi.length, hi.nodup, fun b c w hb hclosed => ?_, fun conn hconn hended => ?_⟩
    · exact (hi.held b c w hb hclosed).of_step hp (hne c)
    · obtain ⟨c, w, hc, hkept⟩ := hi.conns conn hconn hended
      exact ⟨c, w, hc, hkept.of_step hp (hne c)⟩
  | allocate i c name w sess hc hnew hs => exact inv_of_allocate hi hc hnew hs
  | close a sess br trash c w pool ha hs hl hg hp =>
    have hone : (br < sess.browsers → sess.places br = 1) ∧
        (sess.browsers ≤ br → sess.places br = 0) := hsess'.one br
    rw [Session.State.places] at hone
    exact inv_of_close hi hd ha hs hl hg hp (by omega)
  | unknown protocol id => exact hi
  | validate protocol id sess hg =>
    refine ⟨hi.length, hi.nodup, hi.held, fun conn hconn hne => ?_⟩
    rcases List.mem_append.mp hconn with hconn | hconn
    · exact hi.conns conn hconn hne
    · -- The browser of a stored session was not closed.
      rw [List.mem_singleton] at hconn
      subst hconn
      have hstored : 0 < s.sess.stored sess.br := Session.stored_le hg
      have hone := hsess.one sess.br
      rw [Session.State.places] at hone
      have hlt : sess.br < s.given.length := by
        rw [hi.length]
        omega
      have hb : s.given[sess.br]? = some (s.given[sess.br].1, s.given[sess.br].2) :=
        List.getElem?_eq_getElem hlt
      exact ⟨_, _, hb, .inl (hi.held sess.br _ _ hb (by omega))⟩
  | connect k br hk =>
    refine ⟨hi.length, hi.nodup, hi.held, fun conn hconn hne => ?_⟩
    rcases List.mem_or_eq_of_mem_set hconn with hconn | rfl
    · exact hi.conns conn hconn hne
    · exact hi.conns ⟨br, .admitted⟩ (List.mem_of_getElem? hk) (by simp)
  | finish k conn₀ =>
    refine ⟨hi.length, hi.nodup, hi.held, fun conn hconn hne => ?_⟩
    rcases List.mem_or_eq_of_mem_set hconn with hconn | rfl
    · exact hi.conns conn hconn hne
    · exact absurd rfl hne

theorem reach_inv (h : (machine cfg).Reach (Drained cfg) s) : Inv s := by
  induction h with
  | refl => exact ⟨rfl, List.nodup_nil, by simp [machine], by simp [machine]⟩
  | tail hr hd hs ih =>
    exact step_inv ih (Session.reach_inv (reach_session hr))
      (Session.reach_inv (reach_session (Machine.Leads.tail hr hd hs))) hd hs

/-- The call of the pools that a close goes to holds the browser: the services close no
browser twice. -/
theorem close_enabled (h : (machine cfg).Reach (Drained cfg) s) {a : Session.Act}
    (ha : closing a = true) {sess : Session.State}
    (hs : Session.step cfg.session cfg.sessionIds s.sess a = some sess) :
    ∃ s', step cfg s (.close a) = some s' := by
  have hi := reach_inv h
  have hsess := Session.reach_inv (reach_session h)
  obtain ⟨i, d, d', br, trash, hcall, hcl, rfl⟩ := close_session ha hs
  have hclaim : 0 < s.sess.claimed br := by
    refine Nat.lt_of_lt_of_le ?_ (le_tally (Session.Call.claims br) hcall)
    cases hcl <;> simp [Session.Call.claims]
  have hone := hsess.one br
  rw [Session.State.places] at hone
  have hlt : br < s.given.length := by
    rw [hi.length]
    omega
  have hg : s.given[br]? = some (s.given[br].1, s.given[br].2) := List.getElem?_eq_getElem hlt
  obtain ⟨name, hc⟩ := hi.held br _ _ hg (by omega)
  have hlast : ((s.sess.setCall i d').close br trash).closes.getLast? = some (br, trash) :=
    List.getLast?_concat
  cases trash <;> simp [step, stepClose, ha, hs, hlast, hg, Pool.step, Pool.stepClose, hc]

/-! ## Isolation -/

/-- Each open connection is to a browser that its session still holds, or that was given
to the backend's `Close`, and no other session holds that browser. -/
def Isolated (s : State) : Prop :=
  ∀ conn ∈ s.conns, conn.phase = .opened →
    ∃ c w, s.given[conn.br]? = some (c, w) ∧ Kept s.pool c w ∧
      ∀ b d, s.given[b]? = some (d, w) → Holds s.pool d w → b = conn.br

/-- Open connections are isolated in every run in which webdrivers answer with fresh ids
and a browser goes back to the pool only when the requests of its session have ended. -/
theorem connections_isolated (h : (machine cfg).Reach (Drained cfg) s) : Isolated s := by
  have hi := reach_inv h
  have hpool := Pool.reach_inv (reach_pool h)
  intro conn hconn hopen
  obtain ⟨c, w, hg, hkept⟩ := hi.conns conn hconn (by simp [hopen])
  refine ⟨c, w, hg, hkept, fun b d hb hd => ?_⟩
  obtain ⟨name, hd⟩ := hd
  rcases hkept with ⟨name', hc⟩ | hclosed
  · obtain rfl := Pool.holding_unique hpool hc hd
    exact given_inj hi hb hg
  · exact absurd hd (Pool.not_holding_of_closed hpool hclosed d name)

/-- Webdriver sessions are deleted by request, and one idle browser is kept. -/
def oneIdle : Config := ⟨⟨true⟩, .unary 97, ⟨1, 10⟩, .unary 97⟩

/-- Session `a` was deleted and its browser is with session `b` now. -/
def reused (conns : List Conn) : State :=
  { sess :=
      { storage := ((Session.LocalSessionStorage.new.setSessions .webdriver
            [(bytes "a", ⟨bytes "a", 0⟩)]).setSessions .webdriver []).setSessions .webdriver
            [(bytes "b", ⟨bytes "b", 1⟩)],
        browsers := 2,
        calls := [.created .webdriver ⟨bytes "a", 0⟩, .done, .created .webdriver ⟨bytes "b", 1⟩],
        closes := [(0, false)] },
    pool :=
      { Pool.State.init with
        pools := [⟨bytes "a", [], false, false⟩],
        browsers := [⟨[], 5, 0⟩],
        clients := [.returned, .holding (bytes "a") 0],
        timers := [0] },
    given := [(0, 0), (1, 0)],
    conns := conns }

/-- Session `a` is created and a connection to its browser is opened. -/
def firstSession : List Act :=
  [.session (.create .webdriver), .session (.isShutdown 0), .pool (.allocate (bytes "a")),
    .pool (.isShutdown 0), .pool (.getPool 0), .pool (.createPool 0), .pool (.popIdle 0 0),
    .pool (.backendOk 0 5), .allocate 0 0, .session (.waitStarted 0 true),
    .session (.proxyCreate 0 (some [(bytes "sessionId", .string (bytes "a"))])),
    .session (.add 0), .validate .webdriver (bytes "a"), .connect 0]

/-- Session `a` is deleted and session `b` gets its browser. -/
def secondSession : List Act :=
  [.session (.find .webdriver (bytes "a")), .session (.delete 1), .close (.closeDeleted 1 true),
    .pool (.poolState 0), .pool (.checkAge 0 7), .pool (.pushIdle 0),
    .session (.create .webdriver), .session (.isShutdown 2), .pool (.allocate (bytes "a")),
    .pool (.isShutdown 1), .pool (.getPool 1), .pool (.popIdle 1 0), .allocate 2 1,
    .session (.waitStarted 2 true),
    .session (.proxyCreate 2 (some [(bytes "sessionId", .string (bytes "b"))])),
    .session (.add 2)]

/-- The connection of session `a` ended before the deletion; session `b` has one now. -/
theorem connections_isolated_reused : Isolated (reused [⟨0, .ended⟩, ⟨1, .opened⟩]) := by
  have hreach : (machine oneIdle).Reach (Drained oneIdle)
      (reused [⟨0, .ended⟩, ⟨1, .opened⟩]) := by
    refine Machine.leads_of_run (firstSession ++ .finish 0 :: secondSession ++
      [.validate .webdriver (bytes "b"), .connect 1]) ?_ rfl
    iterate 11 refine ⟨trivial, ?_⟩
    refine ⟨fun sess _ _ => ⟨fun found hf => ?_, ?_⟩, ?_⟩
    · exact List.not_mem_nil (show (sess.id, found) ∈ [] from hf)
    · show ∀ c ∈ [Session.Call.add .webdriver ⟨bytes "a", 0⟩], ∀ h ∈ c.handles, h.id ≠ sess.id
      simp [Session.Call.handles]
    iterate 5 refine ⟨trivial, ?_⟩
    refine ⟨fun protocol sess rest _ _ conn hconn _ => ?_, ?_⟩
    · rw [List.mem_singleton.mp (show conn ∈ [⟨0, .ended⟩] from hconn)]
    iterate 12 refine ⟨trivial, ?_⟩
    refine ⟨fun sess _ _ => ⟨fun found hf => ?_, ?_⟩, ?_⟩
    · exact List.not_mem_nil (show (sess.id, found) ∈ [] from hf)
    · show ∀ c ∈ [Session.Call.created .webdriver ⟨bytes "a", 0⟩, .done,
        .add .webdriver ⟨bytes "b", 1⟩], ∀ h ∈ c.handles, h.id ≠ sess.id
      simp [Session.Call.handles]
    exact ⟨trivial, trivial, trivial⟩
  exact connections_isolated hreach

/-- A tunnel of a deleted session is open to the browser of the next one. -/
theorem tunnel_outlives_session :
    (machine oneIdle).Reachable (reused [⟨0, .opened⟩]) ∧ ¬ Isolated (reused [⟨0, .opened⟩]) ∧
    ¬ ∀ s, (machine oneIdle).Reachable s → Isolated s := by
  have hreach : (machine oneIdle).Reachable (reused [⟨0, .opened⟩]) :=
    Machine.reachable_of_run (firstSession ++ secondSession) rfl
  have hnot : ¬ Isolated (reused [⟨0, .opened⟩]) := by
    intro h
    obtain ⟨c, w, hg, _, halone⟩ := h ⟨0, .opened⟩ (by simp [reused]) rfl
    obtain ⟨rfl, rfl⟩ : 0 = c ∧ 0 = w := Prod.mk.inj (Option.some.inj hg)
    exact absurd (halone 1 1 rfl ⟨bytes "a", rfl⟩) (by decide)
  exact ⟨hreach, hnot, fun h => hnot (h _ hreach)⟩

end Selebrow.Proxy
