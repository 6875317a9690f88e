import Mathlib.Tactic.ByContra
import Selebrow.Pool.Ownership

/-!
# Shutdown of the pools

After `BrowserPoolManager.Shutdown` returned nil, no pool should hold an idle
browser.  Two sections act on a flag that was tested in an earlier one: `pushIdle`
on a pool that was shut down since `PoolState`, and `createPool` on a manager that
was shut down since `isShutdown`.  The runs in which neither happens keep the
promise, and one run of each kind breaks it.
-/

namespace Selebrow.Pool

open Transition

/-- The sections act on flags that still hold: no browser is pushed to a pool that
has been shut down, and no pool is added once a `Shutdown` returned nil. -/
def FlagsFresh (s : State) : Act → Prop
  | .pushIdle i =>
    ∀ (w : Nat) (b : PooledBrowser) (pool : IdleBrowserPool),
      s.clients[i]? = some (Client.pushIdle w) → s.browsers[w]? = some b →
        s.pools[b.checkin]? = some pool → pool.shutdown = false
  | .createPool i =>
    ∀ name : GoString, s.clients[i]? = some (Client.createPool name) →
      s.findPool name = none → Shutdown.returned true ∉ s.shutdowns
  | _ => True

/-- Nothing is parked: once a `Shutdown` returned nil, every pool is shut down and
empty, and a browser that comes to be checked in goes to the backend's `Close`. -/
def NothingParked (cfg : PoolConfig) (ids : FreshSupply GoString) (s : State) : Prop :=
  Shutdown.returned true ∈ s.shutdowns →
    (∀ pool ∈ s.pools, pool.shutdown = true ∧ pool.idleWd = []) ∧
    ∀ (i w : Nat) (s' : State), s.clients[i]? = some (Client.poolState w) →
      step cfg ids s (.poolState i) = some s' → s' = (s.setClient i .returned).close w

def PoolShutdown.pool : PoolShutdown → Nat
  | .start p | .waiting p _ _ | .done p => p

def PoolShutdown.started : PoolShutdown → Bool
  | .start _ => false
  | _ => true

structure ShutdownInv (s : State) : Prop where
  empty : ∀ (p : Nat) (pool : IdleBrowserPool), s.pools[p]? = some pool →
    pool.shutdown = true → pool.idleWd = []
  /-- A waiting `Shutdown` holds the lock and has one goroutine for each pool. -/
  waiting : ∀ (j lo hi : Nat), s.shutdowns[j]? = some (Shutdown.waiting lo hi) →
    s.locked = true ∧ hi = lo + s.pools.length ∧
      ∀ p < s.pools.length, ∃ x : PoolShutdown, s.poolShutdowns[lo + p]? = some x ∧ x.pool = p
  started : ∀ (g : Nat) (x : PoolShutdown), s.poolShutdowns[g]? = some x → x.started = true →
    ∃ pool : IdleBrowserPool, s.pools[x.pool]? = some pool ∧ pool.shutdown = true
  returned : Shutdown.returned true ∈ s.shutdowns →
    ∀ (p : Nat) (pool : IdleBrowserPool), s.pools[p]? = some pool → pool.shutdown = true
  single : ∀ (j k lo hi lo' hi' : Nat), s.shutdowns[j]? = some (Shutdown.waiting lo hi) →
    s.shutdowns[k]? = some (Shutdown.waiting lo' hi') → j = k

theorem init_shutdownInv : ShutdownInv State.init := by
  refine ⟨?_, ?_, ?_, ?_, ?_⟩ <;> intros <;> simp_all [State.init]

variable {cfg : PoolConfig} {ids : FreshSupply GoString} {s : State}

/-! ## Small steps -/

theorem allBetween_get {γ : Type} {l : List γ} {lo hi i : Nat} {f : γ → Bool} {c : γ}
    (h : allBetween l lo hi f = true) (hlo : lo ≤ i) (hhi : i < hi) (hc : l[i]? = some c) :
    f c = true := by
  rw [allBetween, List.all_eq_true] at h
  refine h c (List.mem_of_getElem? (i := i - lo) ?_)
  rw [List.getElem?_take_of_lt (by omega), List.getElem?_drop]
  rw [show lo + (i - lo) = i by omega]
  exact hc

theorem PoolShutdown.started_of_isDone {x : PoolShutdown} (h : x.isDone = true) :
    x.started = true := by
  cases x <;> simp_all [PoolShutdown.isDone, PoolShutdown.started]

/-- What the invariant asks of the pools survives when one of them is replaced by
one that is as far in its shutdown, and empty if it is shut down. -/
theorem shutdownInv_set {q : Nat} {pool : IdleBrowserPool} (new : IdleBrowserPool)
    (hi : ShutdownInv s)
    (hq : s.pools[q]? = some pool) (hkeep : pool.shutdown = true → new.shutdown = true)
    (hempty : new.shutdown = true → new.idleWd = []) :
    ShutdownInv { s with pools := s.pools.set q new } := by
  have hlen : (s.pools.set q new).length = s.pools.length := List.length_set
  refine ⟨fun p old hp hs => ?_, fun j lo hi' hj => ?_, fun g x hg hx => ?_,
    fun hr p old hp => ?_, hi.single⟩
  · rcases getElem?_set_some hp with ⟨_, rfl⟩ | ⟨_, hp⟩
    · exact hempty hs
    · exact hi.empty p old hp hs
  · have := hi.waiting j lo hi' hj
    simp only [hlen]
    exact this
  · obtain ⟨old, hp, hs⟩ := hi.started g x hg hx
    obtain ⟨pool', hp', hs'⟩ := exists_getElem?_set
      (R := fun old new => old.shutdown = true → new.shutdown = true) (fun _ => id) hq hkeep hp
    exact ⟨pool', hp', hs' hs⟩
  · rcases getElem?_set_some hp with ⟨_, rfl⟩ | ⟨_, hp⟩
    · exact hkeep (hi.returned hr q pool hq)
    · exact hi.returned hr p old hp

/-- The invariant does not look at clients, browsers, timers or closers. -/
theorem ShutdownInv.congr {s' : State} (hi : ShutdownInv s) (hp : s'.pools = s.pools)
    (hl : s'.locked = s.locked) (hg : s'.poolShutdowns = s.poolShutdowns)
    (hs : s'.shutdowns = s.shutdowns) : ShutdownInv s' := by
  refine ⟨?_, ?_, ?_, ?_, ?_⟩
  · rw [hp]
    exact hi.empty
  · rw [hp, hl, hg, hs]
    exact hi.waiting
  · rw [hp, hg]
    exact hi.started
  · rw [hp, hs]
    exact hi.returned
  · rw [hs]
    exact hi.single

/-- A goroutine moves on, for the same pool, which is shut down. -/
theorem shutdownInv_goroutine {g p : Nat} {x : PoolShutdown} {pool : IdleBrowserPool}
    (y : PoolShutdown) (hi : ShutdownInv s) (hg : s.poolShutdowns[g]? = some x)
    (hx : x.pool = p) (hy : y.pool = p) (hp : s.pools[p]? = some pool) (hs : pool.shutdown = true) :
    ShutdownInv { s with poolShutdowns := s.poolShutdowns.set g y } := by
  refine ⟨hi.empty, fun j lo hi' hj => ?_, fun k z hk hz => ?_, hi.returned, hi.single⟩
  · obtain ⟨hl, hh, hall⟩ := hi.waiting j lo hi' hj
    refine ⟨hl, hh, fun q hq => ?_⟩
    obtain ⟨z, hz, hzq⟩ := hall q hq
    obtain ⟨z', hz', heq⟩ := exists_getElem?_set (R := fun z z' => z'.pool = z.pool)
      (fun _ => rfl) hg (hy.trans hx.symm) hz
    exact ⟨z', hz', heq.trans hzq⟩
  · rcases getElem?_set_some hk with ⟨_, rfl⟩ | ⟨_, hk⟩
    · exact ⟨pool, by rw [hy]; exact hp, hs⟩
    · exact hi.started k z hk hz

/-- A `Shutdown` that was waiting returns. -/
theorem shutdownInv_return {j lo hi : Nat} {ok : Bool} (hinv : ShutdownInv s)
    (hj : s.shutdowns[j]? = some (.waiting lo hi))
    (hok : ok = true → ∀ (p : Nat) (pool : IdleBrowserPool), s.pools[p]? = some pool →
      pool.shutdown = true) :
    ShutdownInv { s with locked := false, shutdowns := s.shutdowns.set j (.returned ok) } := by
  have hnone : ∀ (k lo' hi' : Nat),
      (s.shutdowns.set j (.returned ok))[k]? ≠ some (Shutdown.waiting lo' hi') := by
    intro k lo' hi' hk
    rcases getElem?_set_some hk with ⟨_, h⟩ | ⟨hjk, hk⟩
    · simp at h
    · exact hjk (hinv.single j k _ _ _ _ hj hk)
  refine ⟨hinv.empty, fun k lo' hi' hk => absurd hk (hnone k lo' hi'), hinv.started,
    fun hr => ?_, fun k _ lo' hi' _ _ hk => absurd hk (hnone k lo' hi')⟩
  rcases List.mem_or_eq_of_mem_set hr with hr | hr
  · exact hinv.returned hr
  · exact hok (by simpa using hr.symm)

/-- The goroutines that a `Shutdown` starts are numbered like the pools. -/
theorem shutdownInv_start (hi : ShutdownInv s) (hl : s.locked = false) :
    ShutdownInv { s with
      shutdown := true,
      locked := true,
      poolShutdowns := s.poolShutdowns ++ (List.range s.pools.length).map .start,
      shutdowns := s.shutdowns ++
        [.waiting s.poolShutdowns.length (s.poolShutdowns.length + s.pools.length)] } := by
  have hidle : ∀ (j lo hi' : Nat), s.shutdowns[j]? ≠ some (Shutdown.waiting lo hi') := by
    intro j lo hi' hj
    have := (hi.waiting j lo hi' hj).1
    simp [hl] at this
  have hlast : ∀ (j lo hi' : Nat), (s.shutdowns ++
      [Shutdown.waiting s.poolShutdowns.length (s.poolShutdowns.length + s.pools.length)])[j]? =
        some (Shutdown.waiting lo hi') → j = s.shutdowns.length ∧
          lo = s.poolShutdowns.length ∧ hi' = s.poolShutdowns.length + s.pools.length := by
    intro j lo hi' hj
    rcases getElem?_concat_some hj with hj | ⟨rfl, heq⟩
    · exact absurd hj (hidle j lo hi')
    · exact ⟨rfl, Shutdown.waiting.inj heq⟩
  refine ⟨hi.empty, fun j lo hi' hj => ?_, fun g x hg hx => ?_, fun hr => ?_,
    fun j k lo hi' lo' hi'' hj hk => ?_⟩
  · obtain ⟨_, rfl, rfl⟩ := hlast j lo hi' hj
    refine ⟨rfl, rfl, fun p hp => ⟨.start p, ?_, rfl⟩⟩
    rw [List.getElem?_append_right (by omega), Nat.add_sub_cancel_left, List.getElem?_map,
      List.getElem?_range hp]
    rfl
  · rw [List.getElem?_append] at hg
    split at hg
    · exact hi.started g x hg hx
    · obtain ⟨p, _, rfl⟩ := List.mem_map.mp (List.mem_of_getElem? hg)
      simp [PoolShutdown.started] at hx
  · rw [List.mem_append, List.mem_singleton] at hr
    rcases hr with hr | hr
    · exact hi.returned hr
    · simp at hr
  · rw [(hlast j lo hi' hj).1, (hlast k lo' hi'' hk).1]

theorem shutdownInv_create {name : GoString} (hi : ShutdownInv s) (hl : s.locked = false)
    (hr : Shutdown.returned true ∉ s.shutdowns) :
    ShutdownInv { s with pools := s.pools ++ [newIdleBrowserPool name] } := by
  refine ⟨fun p pool hp hs => ?_, fun j lo hi' hj => ?_, fun g x hg hx => ?_,
    fun hr' => absurd hr' hr, hi.single⟩
  · rcases getElem?_concat_some hp with hp | ⟨_, rfl⟩
    · exact hi.empty p pool hp hs
    · rfl
  · have := (hi.waiting j lo hi' hj).1
    simp [hl] at this
  · obtain ⟨pool, hp, hs⟩ := hi.started g x hg hx
    exact ⟨pool, getElem?_append_some hp, hs⟩

/-! ## Runs -/

theorem step_shutdownInv {s' : State} {a : Act} (hi : ShutdownInv s) (ha : FlagsFresh s a)
    (h : step cfg ids s a = some s') : ShutdownInv s' := by
  cases step_sound h with
  | create i name hc hl hn =>
    exact (shutdownInv_create hi hl (ha name hc hn)).congr rfl rfl rfl rfl
  | reuse i k name p pool id w _ hp hs _ =>
    have hset := shutdownInv_set { pool with idleWd := deleteKey pool.idleWd id } hi hp
      (fun h => h) (fun h => by simp [hs] at h)
    exact hset.congr rfl rfl rfl rfl
  | push i w b pool hc hb hp =>
    have hs := ha w b pool hc hb hp
    have hset := shutdownInv_set { pool with idleWd := insertKey pool.idleWd b.id w } hi hp
      (fun h => h) (fun h => by simp [hs] at h)
    exact hset.congr rfl rfl rfl rfl
  | evict t w b pool _ _ hp _ =>
    have hempty := hi.empty _ pool hp
    have hset := shutdownInv_set { pool with idleWd := deleteKey pool.idleWd b.id } hi hp
      (fun h => h) (fun h => by simp [deleteKey, hempty h])
    exact hset.congr rfl rfl rfl rfl
  | shutdown hl => exact shutdownInv_start hi hl
  | poolShutdown g p pool hg hp =>
    have hset := shutdownInv_set { pool with idleWd := [], shutdown := true, locked := true } hi hp
      (fun _ => rfl) (fun _ => rfl)
    have hq := List.getElem?_set_self (a := { pool with idleWd := [], shutdown := true, locked := true })
      (List.getElem?_eq_some_iff.mp hp).1
    have hgo := shutdownInv_goroutine
      (.waiting p s.closers.length (s.closers.length + pool.idleWd.length)) hset hg rfl rfl hq rfl
    exact hgo.congr rfl rfl rfl rfl
  | poolShutdownDone g p lo hi' _ pool hg hp =>
    obtain ⟨pool', hp', hs⟩ := hi.started g _ hg rfl
    rw [show s.pools[p]? = some pool' from hp', Option.some.injEq] at hp
    subst hp
    have hset := shutdownInv_set { pool' with locked := false } hi hp' (fun h => h)
      (hi.empty p pool' hp')
    have hq := List.getElem?_set_self (a := { pool' with locked := false })
      (List.getElem?_eq_some_iff.mp hp').1
    exact shutdownInv_goroutine (.done p) hset hg rfl rfl hq hs
  | shutdownErr j lo hi' hj => exact shutdownInv_return hi hj (by simp)
  | shutdownOk j lo hi' hj hd =>
    apply shutdownInv_return hi hj
    intro _ p pool hp
    -- The goroutine of pool `p` is done, so it shut the pool down.
    obtain ⟨_, hh, hall⟩ := hi.waiting j lo hi' hj
    have hlt := (List.getElem?_eq_some_iff.mp hp).1
    obtain ⟨x, hx, hxp⟩ := hall p hlt
    have hdone := allBetween_get hd (by omega) (by omega) hx
    obtain ⟨pool', hp', hs⟩ := hi.started _ x hx (PoolShutdown.started_of_isDone hdone)
    rw [hxp, hp, Option.some.injEq] at hp'
    exact hp' ▸ hs
  | _ => exact hi.congr rfl rfl rfl rfl

theorem reach_shutdownInv (h : (machine cfg ids).Reach FlagsFresh s) : ShutdownInv s :=
  h.invariant init_shutdownInv (fun _ _ _ hi hc hs => step_shutdownInv hi hc hs)

/-- In the runs whose sections act on flags that still hold, nothing is parked
after a `Shutdown` that returned nil. -/
theorem nothing_parked_after_shutdown (h : (machine cfg ids).Reach FlagsFresh s) :
    NothingParked cfg ids s := by
  have hi := reach_shutdownInv h
  intro hr
  constructor
  · intro pool hmem
    obtain ⟨p, hp⟩ := List.mem_iff_getElem?.mp hmem
    have hdown := hi.returned hr p pool hp
    exact ⟨hdown, hi.empty p pool hp hdown⟩
  · intro i w s' hc hs
    generalize ha : Act.poolState i = a at hs
    cases step_sound hs with
    | quiet j _ c c' hc' hq =>
      cases hq with
      | kept _ b pool _ hp hfalse _ =>
        have htrue := hi.returned hr _ pool hp
        rw [hfalse] at htrue
        contradiction
      | _ => simp at ha
    | drop j _ c v hc' hd =>
      cases hd with
      | full v =>
        simp only [Act.poolState.injEq] at ha
        subst ha
        rw [hc, Option.some.injEq, Client.poolState.injEq] at hc'
        rw [hc']
      | _ => simp at ha
    | _ => simp at ha

/-- A client holds its browser through a whole `Shutdown`, and then gives it back. -/
def heldThroughShutdown : State :=
  { State.init with
    pools := [⟨bytes "a", [], true, false⟩],
    shutdown := true,
    browsers := [⟨[], 5, 0⟩],
    clients := [.poolState 0],
    poolShutdowns := [.done 0],
    shutdowns := [.returned true] }

theorem nothing_parked_after_shutdown_heldThroughShutdown :
    Shutdown.returned true ∈ heldThroughShutdown.shutdowns ∧
      NothingParked ⟨1, 10⟩ (.unary 97) heldThroughShutdown := by
  have hreach : (machine ⟨1, 10⟩ (.unary 97)).Reach FlagsFresh heldThroughShutdown := by
    refine Machine.leads_of_run
      [.allocate (bytes "a"), .isShutdown 0, .getPool 0, .createPool 0, .popIdle 0 0,
        .backendOk 0 5, .shutdown, .poolShutdown 0, .poolShutdownDone 0 false,
        .shutdownDone 0 false, .close 0 false] ?_ rfl
    refine ⟨trivial, trivial, trivial, fun _ _ _ => ?_, trivial, trivial, trivial, trivial,
      trivial, trivial, trivial, trivial⟩
    decide
  exact ⟨by decide, nothing_parked_after_shutdown hreach⟩

/-! ## The two gaps -/

/-- The check-in saw `PoolState` before the shutdown and pushes after it. -/
def parkedByCheckin : State :=
  { State.init with
    pools := [⟨bytes "a", [([], 0)], true, false⟩],
    shutdown := true,
    browsers := [⟨[], 5, 0⟩],
    clients := [.returned],
    timers := [0],
    poolShutdowns := [.done 0],
    shutdowns := [.returned true] }

/-- The allocation passed `isShutdown` before the shutdown and creates its pool
after it. -/
def addedByAllocate : State :=
  { State.init with
    pools := [newIdleBrowserPool (bytes "a")],
    shutdown := true,
    clients := [.popIdle (bytes "a") 0],
    shutdowns := [.returned true] }

theorem parked_after_shutdown :
    (∃ s, (machine ⟨1, 10⟩ (.unary 97)).Reachable s ∧ Shutdown.returned true ∈ s.shutdowns ∧
      ∃ pool ∈ s.pools, pool.idleWd ≠ []) ∧
    (∃ s, (machine ⟨1, 10⟩ (.unary 97)).Reachable s ∧ Shutdown.returned true ∈ s.shutdowns ∧
      ∃ pool ∈ s.pools, pool.shutdown = false) ∧
    ¬ ∀ s, (machine ⟨1, 10⟩ (.unary 97)).Reachable s → NothingParked ⟨1, 10⟩ (.unary 97) s := by
  have hcheckin : (machine ⟨1, 10⟩ (.unary 97)).Reachable parkedByCheckin :=
    Machine.reachable_of_run
      [.allocate (bytes "a"), .isShutdown 0, .getPool 0, .createPool 0, .popIdle 0 0,
        .backendOk 0 5, .close 0 false, .poolState 0, .checkAge 0 7, .shutdown, .poolShutdown 0,
        .poolShutdownDone 0 false, .shutdownDone 0 false, .pushIdle 0] rfl
  have hallocate : (machine ⟨1, 10⟩ (.unary 97)).Reachable addedByAllocate :=
    Machine.reachable_of_run
      [.allocate (bytes "a"), .isShutdown 0, .getPool 0, .shutdown, .shutdownDone 0 false,
        .createPool 0] rfl
  refine ⟨⟨parkedByCheckin, hcheckin, by decide, by decide⟩,
    ⟨addedByAllocate, hallocate, by decide, by decide⟩, fun h => ?_⟩
  have := ((h _ hcheckin (by decide)).1 _ List.mem_cons_self).2
  simp at this

end Selebrow.Pool
