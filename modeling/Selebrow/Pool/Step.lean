import Selebrow.Pool.Manager

/-!
# What a step of the pools can do

`Step` is the step function read as a relation, one constructor for each branch
that differs in what it touches.  The steps that only move one client on, and
touch neither pools nor browsers, are gathered in `Quiet`, and the three ways in
which a client gives its browser to the backend's `Close` in `Drops`.
-/

namespace Selebrow.Pool

open Transition

/-- Client `i` moves from one section to the next, and nothing else changes. -/
inductive Quiet (cfg : PoolConfig) (s : State) (i : Nat) : Act → Client → Client → Prop
  | refused (name : GoString) (h : s.shutdown = true) :
      Quiet cfg s i (.isShutdown i) (.isShutdown name) (.failed .managerShutdown)
  | admitted (name : GoString) (h : s.shutdown = false) :
      Quiet cfg s i (.isShutdown i) (.isShutdown name) (.getPool name)
  | found (name : GoString) (p : Nat) (pool : IdleBrowserPool) (h : s.pools[p]? = some pool)
      (hn : pool.name = name) : Quiet cfg s i (.getPool i) (.getPool name) (.popIdle name p)
  | missing (name : GoString) : Quiet cfg s i (.getPool i) (.getPool name) (.createPool name)
  | foundAgain (name : GoString) (p : Nat) (pool : IdleBrowserPool)
      (h : s.pools[p]? = some pool) (hn : pool.name = name) :
      Quiet cfg s i (.createPool i) (.createPool name) (.popIdle name p)
  | poolRefused (name : GoString) (p k : Nat) (pool : IdleBrowserPool)
      (h : s.pools[p]? = some pool) (hs : pool.shutdown = true) :
      Quiet cfg s i (.popIdle i k) (.popIdle name p) (.failed (.poolShutdown pool.name))
  | empty (name : GoString) (p k : Nat) (pool : IdleBrowserPool) (h : s.pools[p]? = some pool)
      (hs : pool.shutdown = false) (he : pool.idleWd = []) :
      Quiet cfg s i (.popIdle i k) (.popIdle name p) (.backend name p)
  | backendErr (name : GoString) (p : Nat) :
      Quiet cfg s i (.backendErr i) (.backend name p) (.failed .backend)
  | checkin (name : GoString) (w : Nat) :
      Quiet cfg s i (.close i false) (.holding name w) (.poolState w)
  | kept (w : Nat) (b : PooledBrowser) (pool : IdleBrowserPool) (hb : s.browsers[w]? = some b)
      (h : s.pools[b.checkin]? = some pool) (hs : pool.shutdown = false)
      (hm : (pool.idleWd.length : Int) < cfg.maxIdle) :
      Quiet cfg s i (.poolState i) (.poolState w) (.checkAge w)
  | young (w : Nat) (now : Int) :
      Quiet cfg s i (.checkAge i now) (.checkAge w) (.pushIdle w)

/-- Client `i` gives browser `w` to the backend's `Close`. -/
inductive Drops (i : Nat) : Act → Client → Nat → Prop
  | trash (name : GoString) (w : Nat) : Drops i (.close i true) (.holding name w) w
  | full (w : Nat) : Drops i (.poolState i) (.poolState w) w
  | aged (w : Nat) (now : Int) : Drops i (.checkAge i now) (.checkAge w) w

inductive Step (cfg : PoolConfig) (ids : FreshSupply GoString) (s : State) :
    Act → State → Prop
  | allocate (name : GoString) :
      Step cfg ids s (.allocate name) { s with clients := s.clients ++ [.isShutdown name] }
  | quiet (i : Nat) (a : Act) (c c' : Client) (hc : s.clients[i]? = some c)
      (hq : Quiet cfg s i a c c') : Step cfg ids s a (s.setClient i c')
  | create (i : Nat) (name : GoString) (hc : s.clients[i]? = some (.createPool name))
      (hl : s.locked = false) (hn : s.findPool name = none) :
      Step cfg ids s (.createPool i)
        { s.setClient i (.popIdle name s.pools.length) with
          pools := s.pools ++ [newIdleBrowserPool name] }
  | reuse (i k : Nat) (name : GoString) (p : Nat) (pool : IdleBrowserPool) (id : GoString)
      (w : Nat) (hc : s.clients[i]? = some (.popIdle name p)) (hp : s.pools[p]? = some pool)
      (hs : pool.shutdown = false) (hk : pool.idleWd[k]? = some (id, w)) :
      Step cfg ids s (.popIdle i k)
        { s.setClient i (.holding name w) with
          pools := s.pools.set p { pool with idleWd := deleteKey pool.idleWd id } }
  | fresh (i : Nat) (now : Int) (name : GoString) (p : Nat)
      (hc : s.clients[i]? = some (.backend name p)) :
      Step cfg ids s (.backendOk i now)
        { s.setClient i (.holding name s.browsers.length) with
          browsers := s.browsers ++ [⟨ids.gen s.browsers.length, now, p⟩] }
  | drop (i : Nat) (a : Act) (c : Client) (w : Nat) (hc : s.clients[i]? = some c)
      (hd : Drops i a c w) : Step cfg ids s a ((s.setClient i .returned).close w)
  | push (i w : Nat) (b : PooledBrowser) (pool : IdleBrowserPool)
      (hc : s.clients[i]? = some (.pushIdle w)) (hb : s.browsers[w]? = some b)
      (hp : s.pools[b.checkin]? = some pool) :
      Step cfg ids s (.pushIdle i)
        { s.setClient i .returned with
          timers := s.timers ++ [w],
          pools := s.pools.set b.checkin { pool with idleWd := insertKey pool.idleWd b.id w } }
  | evict (t w : Nat) (b : PooledBrowser) (pool : IdleBrowserPool)
      (ht : s.timers[t]? = some w) (hb : s.browsers[w]? = some b)
      (hp : s.pools[b.checkin]? = some pool) (hk : hasKey pool.idleWd b.id = true) :
      Step cfg ids s (.evictIdle t)
        { s.close w with
          timers := s.timers.eraseIdx t,
          pools := s.pools.set b.checkin { pool with idleWd := deleteKey pool.idleWd b.id } }
  | stale (t : Nat) :
      Step cfg ids s (.evictIdle t) { s with timers := s.timers.eraseIdx t }
  | callClose (k w : Nat) (hk : s.closers[k]? = some ⟨w, .claimed⟩) :
      Step cfg ids s (.callClose k) { s with closers := s.closers.set k ⟨w, .called⟩ }
  | completeClose (k w : Nat) (hk : s.closers[k]? = some ⟨w, .called⟩) :
      Step cfg ids s (.completeClose k) { s with closers := s.closers.set k ⟨w, .completed⟩ }
  | shutdown (hl : s.locked = false) :
      Step cfg ids s .shutdown
        { s with
          shutdown := true,
          locked := true,
          poolShutdowns := s.poolShutdowns ++ (List.range s.pools.length).map .start,
          shutdowns := s.shutdowns ++
            [.waiting s.poolShutdowns.length (s.poolShutdowns.length + s.pools.length)] }
  | poolShutdown (g p : Nat) (pool : IdleBrowserPool)
      (hg : s.poolShutdowns[g]? = some (.start p)) (hp : s.pools[p]? = some pool) :
      Step cfg ids s (.poolShutdown g)
        { s with
          pools := s.pools.set p { pool with idleWd := [], shutdown := true, locked := true },
          closers := s.closers ++ pool.idleWd.map fun e => ⟨e.2, .claimed⟩,
          poolShutdowns := s.poolShutdowns.set g
            (.waiting p s.closers.length (s.closers.length + pool.idleWd.length)) }
  | poolShutdownDone (g p lo hi : Nat) (ctxDone : Bool) (pool : IdleBrowserPool)
      (hg : s.poolShutdowns[g]? = some (.waiting p lo hi)) (hp : s.pools[p]? = some pool) :
      Step cfg ids s (.poolShutdownDone g ctxDone)
        { s with
          pools := s.pools.set p { pool with locked := false },
          poolShutdowns := s.poolShutdowns.set g (.done p) }
  | shutdownErr (j lo hi : Nat) (hj : s.shutdowns[j]? = some (.waiting lo hi)) :
      Step cfg ids s (.shutdownDone j true)
        { s with locked := false, shutdowns := s.shutdowns.set j (.returned false) }
  | shutdownOk (j lo hi : Nat) (hj : s.shutdowns[j]? = some (.waiting lo hi))
      (hd : allBetween s.poolShutdowns lo hi PoolShutdown.isDone = true) :
      Step cfg ids s (.shutdownDone j false)
        { s with locked := false, shutdowns := s.shutdowns.set j (.returned true) }

theorem findPool_some {s : State} {name : GoString} {p : Nat} (h : s.findPool name = some p) :
    ∃ pool, s.pools[p]? = some pool ∧ pool.name = name := by
  rw [State.findPool, List.findIdx?_eq_some_iff_getElem] at h
  obtain ⟨hp, hn, _⟩ := h
  exact ⟨s.pools[p], List.getElem?_eq_getElem hp, by simpa using hn⟩

variable {cfg : PoolConfig} {ids : FreshSupply GoString} {s s' : State}

theorem stepIsShutdown_sound {i : Nat} (h : stepIsShutdown s i = some s') :
    Step cfg ids s (.isShutdown i) s' := by
  unfold stepIsShutdown at h
  split at h
  · rename_i name hc
    split at h
    · simp at h
    split at h
    · rename_i hs
      exact Option.some.inj h ▸ .quiet i _ _ _ hc (.refused name hs)
    · rename_i hs
      exact Option.some.inj h ▸ .quiet i _ _ _ hc (.admitted name (by simpa using hs))
  · simp at h

theorem stepGetPool_sound {i : Nat} (h : stepGetPool s i = some s') :
    Step cfg ids s (.getPool i) s' := by
  unfold stepGetPool at h
  split at h
  · rename_i name hc
    split at h
    · simp at h
    split at h
    · rename_i p hp
      obtain ⟨pool, hpool, hn⟩ := findPool_some hp
      exact Option.some.inj h ▸ .quiet i _ _ _ hc (.found name p pool hpool hn)
    · exact Option.some.inj h ▸ .quiet i _ _ _ hc (.missing name)
  · simp at h

theorem stepCreatePool_sound {i : Nat} (h : stepCreatePool s i = some s') :
    Step cfg ids s (.createPool i) s' := by
  unfold stepCreatePool at h
  split at h
  · rename_i name hc
    split at h
    · simp at h
    rename_i hl
    split at h
    · rename_i p hp
      obtain ⟨pool, hpool, hn⟩ := findPool_some hp
      exact Option.some.inj h ▸ .quiet i _ _ _ hc (.foundAgain name p pool hpool hn)
    · rename_i hn
      exact Option.some.inj h ▸ .create i name hc (by simpa using hl) hn
  · simp at h

theorem stepPopIdle_sound {i k : Nat} (h : stepPopIdle s i k = some s') :
    Step cfg ids s (.popIdle i k) s' := by
  unfold stepPopIdle at h
  split at h
  · rename_i name p hc
    split at h
    · rename_i pool hp
      split at h
      · simp at h
      split at h
      · rename_i hs
        exact Option.some.inj h ▸ .quiet i _ _ _ hc (.poolRefused name p k pool hp hs)
      rename_i hs
      split at h
      · rename_i he
        exact Option.some.inj h ▸
          .quiet i _ _ _ hc (.empty name p k pool hp (by simpa using hs) (by simpa using he))
      split at h
      · rename_i id w hk
        exact Option.some.inj h ▸ .reuse i k name p pool id w hc hp (by simpa using hs) hk
      · simp at h
    · simp at h
  · simp at h

theorem stepClose_sound {i : Nat} {trash : Bool} (h : stepClose s i trash = some s') :
    Step cfg ids s (.close i trash) s' := by
  unfold stepClose at h
  split at h
  · rename_i name w hc
    cases trash with
    | true => exact Option.some.inj h ▸ .drop i _ _ w hc (.trash name w)
    | false => exact Option.some.inj h ▸ .quiet i _ _ _ hc (.checkin name w)
  · simp at h

theorem stepPoolState_sound {i : Nat} (h : stepPoolState cfg s i = some s') :
    Step cfg ids s (.poolState i) s' := by
  unfold stepPoolState at h
  split at h
  · rename_i w hc
    split at h
    · rename_i b hb
      split at h
      · rename_i pool hp
        split at h
        · simp at h
        split at h
        · exact Option.some.inj h ▸ .drop i _ _ w hc (.full w)
        · rename_i hd
          simp only [Bool.or_eq_true, decide_eq_true_eq, not_or, Bool.not_eq_true] at hd
          exact Option.some.inj h ▸
            .quiet i _ _ _ hc (.kept w b pool hb hp hd.1 (by omega))
      · simp at h
    · simp at h
  · simp at h

theorem stepCheckAge_sound {i : Nat} {now : Int} (h : stepCheckAge cfg s i now = some s') :
    Step cfg ids s (.checkAge i now) s' := by
  unfold stepCheckAge at h
  split at h
  · rename_i w hc
    split at h
    · split at h
      · exact Option.some.inj h ▸ .drop i _ _ w hc (.aged w now)
      · exact Option.some.inj h ▸ .quiet i _ _ _ hc (.young w now)
    · simp at h
  · simp at h

theorem stepPushIdle_sound {i : Nat} (h : stepPushIdle s i = some s') :
    Step cfg ids s (.pushIdle i) s' := by
  unfold stepPushIdle at h
  split at h
  · rename_i w hc
    split at h
    · rename_i b hb
      split at h
      · rename_i pool hp
        split at h
        · simp at h
        · exact Option.some.inj h ▸ .push i w b pool hc hb hp
      · simp at h
    · simp at h
  · simp at h

theorem stepEvictIdle_sound {t : Nat} (h : stepEvictIdle s t = some s') :
    Step cfg ids s (.evictIdle t) s' := by
  unfold stepEvictIdle at h
  split at h
  · rename_i w ht
    split at h
    · rename_i b hb
      split at h
      · rename_i pool hp
        split at h
        · simp at h
        split at h
        · rename_i hk
          exact Option.some.inj h ▸ .evict t w b pool ht hb hp hk
        · exact Option.some.inj h ▸ .stale t
      · simp at h
    · simp at h
  · simp at h

theorem stepShutdown_sound (h : stepShutdown s = some s') : Step cfg ids s .shutdown s' := by
  unfold stepShutdown at h
  split at h
  · simp at h
  · rename_i hl
    exact Option.some.inj h ▸ .shutdown (by simpa using hl)

theorem stepPoolShutdown_sound {g : Nat} (h : stepPoolShutdown s g = some s') :
    Step cfg ids s (.poolShutdown g) s' := by
  unfold stepPoolShutdown at h
  split at h
  · rename_i p hg
    split at h
    · rename_i pool hp
      split at h
      · simp at h
      · exact Option.some.inj h ▸ .poolShutdown g p pool hg hp
    · simp at h
  · simp at h

theorem stepPoolShutdownDone_sound {g : Nat} {ctxDone : Bool}
    (h : stepPoolShutdownDone s g ctxDone = some s') :
    Step cfg ids s (.poolShutdownDone g ctxDone) s' := by
  unfold stepPoolShutdownDone at h
  split at h
  · rename_i p lo hi hg
    split at h
    · rename_i pool hp
      split at h
      · exact Option.some.inj h ▸ .poolShutdownDone g p lo hi ctxDone pool hg hp
      · simp at h
    · simp at h
  · simp at h

theorem stepShutdownDone_sound {j : Nat} {ctxDone : Bool}
    (h : stepShutdownDone s j ctxDone = some s') :
    Step cfg ids s (.shutdownDone j ctxDone) s' := by
  unfold stepShutdownDone at h
  split at h
  · rename_i lo hi hj
    cases ctxDone with
    | true => exact Option.some.inj h ▸ .shutdownErr j lo hi hj
    | false =>
      simp only [Bool.false_eq_true, if_false] at h
      split at h
      · rename_i hd
        exact Option.some.inj h ▸ .shutdownOk j lo hi hj hd
      · simp at h
  · simp at h

theorem step_sound {a : Act} (h : step cfg ids s a = some s') : Step cfg ids s a s' := by
  cases a with
  | allocate name => exact Option.some.inj h ▸ .allocate name
  | isShutdown i => exact stepIsShutdown_sound h
  | getPool i => exact stepGetPool_sound h
  | createPool i => exact stepCreatePool_sound h
  | popIdle i k => exact stepPopIdle_sound h
  | backendOk i now =>
    simp only [step, stepBackendOk] at h
    split at h
    · rename_i name p hc
      exact Option.some.inj h ▸ .fresh i now name p hc
    · simp at h
  | backendErr i =>
    simp only [step, stepBackendErr] at h
    split at h
    · rename_i name p hc
      exact Option.some.inj h ▸ .quiet i _ _ _ hc (.backendErr name p)
    · simp at h
  | close i trash => exact stepClose_sound h
  | poolState i => exact stepPoolState_sound h
  | checkAge i now => exact stepCheckAge_sound h
  | pushIdle i => exact stepPushIdle_sound h
  | evictIdle t => exact stepEvictIdle_sound h
  | callClose k =>
    simp only [step, stepCallClose] at h
    split at h
    · rename_i w hk
      exact Option.some.inj h ▸ .callClose k w hk
    · simp at h
  | completeClose k =>
    simp only [step, stepCompleteClose] at h
    split at h
    · rename_i w hk
      exact Option.some.inj h ▸ .completeClose k w hk
    · simp at h
  | shutdown => exact stepShutdown_sound h
  | poolShutdown g => exact stepPoolShutdown_sound h
  | poolShutdownDone g ctxDone => exact stepPoolShutdownDone_sound h
  | shutdownDone j ctxDone => exact stepShutdownDone_sound h

end Selebrow.Pool
