import Selebrow.Pool.Ownership

/-!
# The size of a pool

`checkin` tests the size of the pool in `PoolState` and pushes the browser in a later
section, so other check-ins can pass the same test in between.  The pools stay within
`maxIdle` in the runs in which a test that passes would also have passed with the check-ins
under way counted beside the idle browsers.
-/

namespace Selebrow.Pool

open Transition

/-- No pool has more idle browsers than `maxIdle`. -/
def WithinSize (cfg : PoolConfig) (s : State) : Prop :=
  ∀ pool ∈ s.pools, (pool.idleWd.length : Int) ≤ cfg.maxIdle

variable {cfg : PoolConfig} {ids : FreshSupply GoString} {s s' : State}

/-! ## A test that counts the check-ins under way -/

/-- The client passed the test of `PoolState` for pool `p` and has not pushed. -/
def Client.passed (browsers : List PooledBrowser) (p : Nat) : Client → Bool
  | .checkAge w | .pushIdle w => browsers[w]?.any fun b => b.checkin == p
  | _ => false

/-- The check-ins of pool `p` that are between their test and their push. -/
def State.underWay (s : State) (p : Nat) : Nat := s.clients.countP (Client.passed s.browsers p)

def State.idleAt (s : State) (p : Nat) : Nat :=
  match s.pools[p]? with
  | some pool => pool.idleWd.length
  | none => 0

/-- A test that passes leaves room for the check-ins that are under way. -/
def RoomCounted (cfg : PoolConfig) (s : State) : Act → Prop
  | .poolState i =>
    ∀ (w : Nat) (b : PooledBrowser) (pool : IdleBrowserPool),
      s.clients[i]? = some (Client.poolState w) → s.browsers[w]? = some b →
        s.pools[b.checkin]? = some pool → (pool.idleWd.length : Int) < cfg.maxIdle →
          (pool.idleWd.length + s.underWay b.checkin : Int) < cfg.maxIdle
  | _ => True

/-- The idle browsers and the check-ins under way fit together. -/
def Counted (cfg : PoolConfig) (s : State) : Prop :=
  ∀ p, (s.idleAt p + s.underWay p : Int) ≤ cfg.maxIdle

theorem counted_of_le (h : Counted cfg s)
    (hle : ∀ p, s'.idleAt p + s'.underWay p ≤ s.idleAt p + s.underWay p) : Counted cfg s' := by
  intro p
  have := h p
  have := hle p
  omega

theorem idleAt_of_some {p : Nat} {pool : IdleBrowserPool} (hp : s.pools[p]? = some pool) :
    s.idleAt p = pool.idleWd.length := by
  rw [State.idleAt, hp]

theorem idleAt_set {q : Nat} {pool new : IdleBrowserPool} (hq : s.pools[q]? = some pool)
    (h : s'.pools = s.pools.set q new) (p : Nat) :
    s'.idleAt p = if q = p then new.idleWd.length else s.idleAt p := by
  by_cases hqp : q = p
  · rw [if_pos hqp, idleAt_of_some (hqp ▸ h ▸ getElem?_set_eq hq)]
  · rw [if_neg hqp, State.idleAt, State.idleAt, h, List.getElem?_set_ne hqp]

theorem idleAt_deleteKey {q : Nat} {pool : IdleBrowserPool} (id : GoString)
    (hq : s.pools[q]? = some pool)
    (h : s'.pools = s.pools.set q { pool with idleWd := deleteKey pool.idleWd id }) (p : Nat) :
    s'.idleAt p ≤ s.idleAt p := by
  rw [idleAt_set hq h p]
  split
  · rename_i hqp
    rw [← hqp, idleAt_of_some hq]
    exact length_deleteKey_le pool.idleWd id
  · exact Nat.le_refl _

/-- Client `i` moves on and no browser is added. -/
theorem underWay_set (s' : State) {i : Nat} {c c' : Client} (hc : s.clients[i]? = some c)
    (h : s'.clients = s.clients.set i c') (hb : s'.browsers = s.browsers) (p : Nat) :
    s'.underWay p + (c.passed s.browsers p).toNat =
      s.underWay p + (c'.passed s.browsers p).toNat := by
  rw [State.underWay, State.underWay, h, hb]
  exact countP_set_add _ c' hc

/-- A browser that is being checked in was allocated. -/
theorem passed_append (hi : Inv ids s) (b : PooledBrowser) (p : Nat) {c : Client}
    (hc : c ∈ s.clients) : c.passed (s.browsers ++ [b]) p = c.passed s.browsers p := by
  have hlt : ∀ w, c.checksIn w = 1 → w < s.browsers.length := by
    intro w hw
    by_contra hge
    obtain ⟨i, hi'⟩ := List.mem_iff_getElem?.mp hc
    have := le_tally (Client.checksIn w) hi'
    have := (hi.one w).2 (by omega)
    simp only [State.places, State.checkedIn] at this
    omega
  cases c with
  | checkAge w | pushIdle w =>
    have := hlt w (by rw [Client.checksIn, if_pos rfl])
    rw [Client.passed, Client.passed, List.getElem?_append_left this]
  | _ => rfl

/-- Client `i` moves on, and its pool takes what the client gives up. -/
theorem counted_of_set {i : Nat} {c c' : Client} (h : Counted cfg s) (hc : s.clients[i]? = some c)
    (hs : s'.clients = s.clients.set i c') (hb : s'.browsers = s.browsers)
    (hle : ∀ p, s'.idleAt p + (c'.passed s.browsers p).toNat ≤
      s.idleAt p + (c.passed s.browsers p).toNat) : Counted cfg s' := by
  apply counted_of_le h
  intro p
  have := underWay_set _ hc hs hb p
  have := hle p
  omega

theorem counted_of_quiet {i : Nat} {a : Act} {c c' : Client} (h : Counted cfg s)
    (hroom : RoomCounted cfg s a) (hc : s.clients[i]? = some c) (hq : Quiet cfg s i a c c') :
    Counted cfg (s.setClient i c') := by
  cases hq with
  | kept w b pool hb hp _ hm =>
    intro p
    have hlt := hroom w b pool hc hb hp hm
    have hset := underWay_set (s.setClient i (.checkAge w)) hc rfl rfl p
    have hold := h p
    have hidle : (s.setClient i (.checkAge w)).idleAt p = s.idleAt p := rfl
    simp only [Client.passed, hb, Option.any_some, Bool.toNat_false] at hset
    rw [hidle]
    by_cases hpc : b.checkin = p
    · subst hpc
      have := Bool.toNat_le (b.checkin == b.checkin)
      rw [idleAt_of_some hp] at *
      omega
    · rw [beq_eq_false_iff_ne.mpr hpc, Bool.toNat_false] at hset
      omega
  | _ => exact counted_of_set h hc rfl rfl fun p => Nat.le_refl _

theorem counted_of_create {i : Nat} {name : GoString} (h : Counted cfg s)
    (hc : s.clients[i]? = some (.createPool name)) :
    Counted cfg { s.setClient i (.popIdle name s.pools.length) with
                  pools := s.pools ++ [newIdleBrowserPool name] } := by
  refine counted_of_set h hc rfl rfl fun p => Nat.add_le_add_right ?_ _
  simp only [State.idleAt]
  split
  · rename_i pool hp
    rcases getElem?_concat_some hp with hp | ⟨_, rfl⟩
    · exact Nat.le_of_eq (by rw [hp])
    · exact Nat.zero_le _
  · exact Nat.zero_le _

theorem counted_of_push {i w : Nat} {b : PooledBrowser} {pool : IdleBrowserPool}
    (h : Counted cfg s) (hc : s.clients[i]? = some (.pushIdle w)) (hb : s.browsers[w]? = some b)
    (hp : s.pools[b.checkin]? = some pool) :
    Counted cfg { s.setClient i .returned with
                  timers := s.timers ++ [w],
                  pools := s.pools.set b.checkin
                    { pool with idleWd := insertKey pool.idleWd b.id w } } := by
  refine counted_of_set h hc rfl rfl fun p => ?_
  rw [idleAt_set hp rfl p]
  simp only [Client.passed, hb, Option.any_some, Bool.toNat_false]
  by_cases hpc : b.checkin = p
  · subst hpc
    have := length_insertKey_le pool.idleWd b.id w
    rw [if_pos rfl, idleAt_of_some hp, beq_self_eq_true, Bool.toNat_true]
    exact this
  · rw [if_neg hpc]
    exact Nat.le_add_right _ _

theorem step_counted {a : Act} (hi : Inv ids s) (h : Counted cfg s) (hroom : RoomCounted cfg s a)
    (hs : step cfg ids s a = some s') : Counted cfg s' := by
  cases step_sound hs with
  | quiet i _ c c' hc hq => exact counted_of_quiet h hroom hc hq
  | allocate name =>
    apply counted_of_le h
    intro p
    simp [State.idleAt, State.underWay, Client.passed]
  | create i name hc _ hn => exact counted_of_create h hc
  | reuse i k name q pool id w hc hq _ _ =>
    exact counted_of_set h hc rfl rfl fun p => Nat.add_le_add_right (idleAt_deleteKey id hq rfl p) _
  | fresh i now name q hc =>
    apply counted_of_le h
    intro p
    have hcount : (s.clients.set i (.holding name s.browsers.length)).countP
        (Client.passed (s.browsers ++ [⟨ids.gen s.browsers.length, now, q⟩]) p) =
        s.clients.countP (Client.passed (s.browsers ++ [⟨ids.gen s.browsers.length, now, q⟩]) p) :=
      countP_set_add (Client.passed _ p) (.holding name s.browsers.length) hc
    have hsame : s.clients.countP
        (Client.passed (s.browsers ++ [⟨ids.gen s.browsers.length, now, q⟩]) p) =
        s.clients.countP (Client.passed s.browsers p) :=
      List.countP_congr fun c hmem => by rw [passed_append hi _ p hmem]
    exact Nat.le_of_eq (congrArg (s.idleAt p + ·) (hcount.trans hsame))
  | drop i _ c w hc hd =>
    exact counted_of_set h hc rfl rfl fun p => Nat.add_le_add_left (Nat.zero_le _) _
  | push i w b pool hc hb hp => exact counted_of_push h hc hb hp
  | evict t w b pool _ _ hq _ =>
    apply counted_of_le h
    intro p
    exact Nat.add_le_add_right (idleAt_deleteKey b.id hq rfl p) _
  | poolShutdown g q pool _ hq =>
    apply counted_of_le h
    intro p
    apply Nat.add_le_add_right
    rw [idleAt_set hq rfl p]
    split
    · exact Nat.zero_le _
    · exact Nat.le_refl _
  | poolShutdownDone g q lo hi ctxDone pool _ hq =>
    apply counted_of_le h
    intro p
    apply Nat.add_le_add_right
    rw [idleAt_set hq rfl p]
    split
    · rename_i hqp
      exact Nat.le_of_eq (by rw [← hqp, idleAt_of_some hq])
    · exact Nat.le_refl _
  | _ => exact h

theorem reach_counted (hm : 1 ≤ cfg.maxIdle) (h : (machine cfg ids).Reach (RoomCounted cfg) s) :
    Counted cfg s := by
  have hinit : Counted cfg State.init := by
    intro p
    show ((0 : Nat) + (0 : Nat) : Int) ≤ cfg.maxIdle
    omega
  have hboth := h.invariant (P := fun t => Inv ids t ∧ Counted cfg t) ⟨init_inv ids, hinit⟩
    fun t a t' ht hc hs => ⟨step_inv ht.1 hs, step_counted ht.1 ht.2 hc hs⟩
  exact hboth.2

/-- The idle browsers alone are no more than with the check-ins under way. -/
theorem withinSize_of_counted (h : Counted cfg s) : WithinSize cfg s := by
  intro pool hmem
  obtain ⟨p, hp⟩ := List.mem_iff_getElem?.mp hmem
  have hp' := h p
  rw [idleAt_of_some hp] at hp'
  omega

/-! ## The size -/

/-- In the runs in which a check-in passes `PoolState` only while the idle browsers and the
check-ins that are under way leave it a place, every pool stays within its size. -/
theorem idle_within_size (hm : 1 ≤ cfg.maxIdle)
    (h : (machine cfg ids).Reach (RoomCounted cfg) s) : WithinSize cfg s :=
  withinSize_of_counted (reach_counted hm h)

/-- Browser 0 is idle, and browser 1 has passed the test for the second place. -/
def secondCheckin : State :=
  { State.init with
    pools := [⟨bytes "a", [([], 0)], false, false⟩],
    browsers := [⟨[], 5, 0⟩, ⟨[97], 6, 0⟩],
    clients := [.returned, .pushIdle 1],
    timers := [0] }

def twoAllocations : List Act :=
  [.allocate (bytes "a"), .isShutdown 0, .getPool 0, .createPool 0, .popIdle 0 0, .backendOk 0 5,
    .allocate (bytes "a"), .isShutdown 1, .getPool 1, .popIdle 1 0, .backendOk 1 6]

theorem idle_within_size_secondCheckin :
    (1 : Int) ≤ 2 ∧ WithinSize ⟨2, 10⟩ secondCheckin := by
  have hreach : (machine ⟨2, 10⟩ (.unary 97)).Reach (RoomCounted ⟨2, 10⟩) secondCheckin := by
    refine Machine.leads_of_run (twoAllocations ++
      [.close 0 false, .poolState 0, .checkAge 0 7, .pushIdle 0, .close 1 false, .poolState 1,
        .checkAge 1 8]) ?_ rfl
    iterate 12 refine ⟨trivial, ?_⟩
    refine ⟨?_, trivial, trivial, trivial, ?_, trivial, trivial⟩
    · intro w b pool hc hb hp _
      cases hc
      cases hb
      cases hp
      decide
    · intro w b pool hc hb hp _
      cases hc
      cases hb
      cases hp
      decide
  exact ⟨by decide, idle_within_size (by decide) hreach⟩

/-- Both check-ins passed the test while the pool was empty. -/
def overfull : State :=
  { State.init with
    pools := [⟨bytes "a", [([97], 1), ([], 0)], false, false⟩],
    browsers := [⟨[], 5, 0⟩, ⟨[97], 6, 0⟩],
    clients := [.returned, .returned],
    timers := [0, 1] }

theorem size_exceeded :
    (machine ⟨1, 10⟩ (.unary 97)).Reachable overfull ∧ ¬ WithinSize ⟨1, 10⟩ overfull ∧
      ¬ ∀ (cfg : PoolConfig) (ids : FreshSupply GoString) (s : State), 1 ≤ cfg.maxIdle →
        (machine cfg ids).Reachable s → WithinSize cfg s := by
  have hreach : (machine ⟨1, 10⟩ (.unary 97)).Reachable overfull :=
    Machine.reachable_of_run (twoAllocations ++
      [.close 0 false, .close 1 false, .poolState 0, .poolState 1, .checkAge 0 7, .checkAge 1 8,
        .pushIdle 0, .pushIdle 1]) rfl
  have hover : ¬ WithinSize ⟨1, 10⟩ overfull := by
    intro h
    have := h _ List.mem_cons_self
    simp at this
  exact ⟨hreach, hover, fun h => hover (h _ _ _ (by decide) hreach)⟩

end Selebrow.Pool
