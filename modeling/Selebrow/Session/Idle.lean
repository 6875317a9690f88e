import Selebrow.Session.Storage
import Selebrow.Transition.Entries
import Selebrow.Transition.Machine

/-!
# The clean-up of idle sessions

`cleanupIdleSessions` and the requests that pass `ValidateSession`, section by section, on
one clock.  A request is accepted when `FindSession` finds its session; it takes the time
after that, and stores it after that again.  The clean-up takes the time, reads the time
stamp, and deletes the session by its id, each in a section of its own.

`accepted` is the time of the latest accepted request of each session, and `removals` is
the history of the sessions that the clean-up has removed.
-/

namespace Selebrow.Session

open Transition

def minDuration : Int := -9223372036854775808
def maxDuration : Int := 9223372036854775807

/-- `time.Duration` -/
structure Duration where
  ns : Int
  min_le : minDuration ≤ ns
  le_max : ns ≤ maxDuration

/-- `t.Sub(u)` -/
def sub (t u : Int) : Int := max minDuration (min (t - u) maxDuration)

structure IdleConfig where
  defaultTimeout : Duration
  maxTimeout : Duration
  /-- `sess.ReqCaps().GetTimeout()` -/
  requested : Session → Duration
  /-- when `CreateSession` made the session, and set `LastUsed` -/
  created : Session → Int

/-- The timeout that `cleanupIdleSessions` computes for a session. -/
def IdleConfig.timeout (cfg : IdleConfig) (sess : Session) : Duration :=
  let timeout := if (cfg.requested sess).ns ≤ 0 then cfg.defaultTimeout else cfg.requested sess
  if timeout.ns > cfg.maxTimeout.ns then cfg.maxTimeout else timeout

/-- A request in `ValidateSession`. -/
inductive Validation
  | found (sess : Session)
  | timed (sess : Session) (t : Int)
  | passed (sess : Session)
deriving DecidableEq, Repr

/-- A call of `cleanupIdleSessions`, with the sessions that it has still to look at. -/
inductive Cleanup
  | next (rest : List Session)
  | timed (sess : Session) (t : Int) (rest : List Session)
  | deleting (sess : Session) (rest : List Session)
deriving DecidableEq, Repr

structure Removal where
  sess : Session
  time : Int
  accepted : Int
deriving DecidableEq, Repr

structure IdleState where
  clock : Int
  storage : LocalSessionStorage
  /-- The sessions that `CreateSession` has added. -/
  added : List Session
  lastUsed : Session → Int
  accepted : Session → Int
  requests : List Validation
  cleanups : List Cleanup
  removals : List Removal

inductive IdleAct
  | tick (d : Nat)
  | add (sess : Session)
  | findSession (id : GoString)
  | requestNow (i : Nat)
  | setLastUsed (i : Nat)
  /-- `DeleteSession` for another reason. -/
  | delete (id : GoString)
  | listSessions
  | cleanupNow (i : Nat)
  | lastUsed (i : Nat)
  | cleanupDelete (i : Nat)

def setTime (f : Session → Int) (sess : Session) (t : Int) : Session → Int :=
  fun x => if x = sess then t else f x

namespace IdleState

def setRequest (s : IdleState) (i : Nat) (r : Validation) : IdleState :=
  { s with requests := s.requests.set i r }

def setCleanup (s : IdleState) (i : Nat) (c : Cleanup) : IdleState :=
  { s with cleanups := s.cleanups.set i c }

end IdleState

/-- `Storage.Add`, of a session that was made before. -/
def stepAddSession (cfg : IdleConfig) (s : IdleState) (sess : Session) : Option IdleState :=
  if sess ∈ s.added ∨ s.clock < cfg.created sess then none
  else
    match s.storage.add .webdriver sess with
    | .error _ => none
    | .ok storage => some { s with storage := storage, added := s.added ++ [sess] }

def stepFindSession (s : IdleState) (id : GoString) : Option IdleState :=
  match s.storage.get .webdriver id with
  | none => some s
  | some sess =>
    some { s with
           accepted := setTime s.accepted sess s.clock,
           requests := s.requests ++ [.found sess] }

def stepRequestNow (s : IdleState) (i : Nat) : Option IdleState :=
  match s.requests[i]? with
  | some (.found sess) => some (s.setRequest i (.timed sess s.clock))
  | _ => none

def stepSetLastUsed (s : IdleState) (i : Nat) : Option IdleState :=
  match s.requests[i]? with
  | some (.timed sess t) =>
    some { s.setRequest i (.passed sess) with lastUsed := setTime s.lastUsed sess t }
  | _ => none

def stepCleanupNow (s : IdleState) (i : Nat) : Option IdleState :=
  match s.cleanups[i]? with
  | some (.next (sess :: rest)) => some (s.setCleanup i (.timed sess s.clock rest))
  | _ => none

/-- `if idle := s.now().Sub(sess.LastUsed()); idle > timeout` -/
def idle (cfg : IdleConfig) (s : IdleState) (sess : Session) (t : Int) : Bool :=
  sub t (s.lastUsed sess) > (cfg.timeout sess).ns

def stepLastUsed (cfg : IdleConfig) (s : IdleState) (i : Nat) : Option IdleState :=
  match s.cleanups[i]? with
  | some (.timed sess t rest) =>
    if idle cfg s sess t then some (s.setCleanup i (.deleting sess rest))
    else some (s.setCleanup i (.next rest))
  | _ => none

/-- `DeleteSession` up to `Storage.Delete`, which takes the id. -/
def stepCleanupDelete (s : IdleState) (i : Nat) : Option IdleState :=
  match s.cleanups[i]? with
  | some (.deleting sess rest) =>
    match s.storage.get .webdriver sess.id with
    | none => some (s.setCleanup i (.next rest))
    | some stored =>
      some { s.setCleanup i (.next rest) with
             storage := (s.storage.delete .webdriver sess.id).1,
             removals := s.removals ++ [⟨stored, s.clock, s.accepted stored⟩] }
  | _ => none

def idleStep (cfg : IdleConfig) (s : IdleState) : IdleAct → Option IdleState
  | .tick d => some { s with clock := s.clock + d }
  | .add sess => stepAddSession cfg s sess
  | .findSession id => stepFindSession s id
  | .requestNow i => stepRequestNow s i
  | .setLastUsed i => stepSetLastUsed s i
  | .delete id => some { s with storage := (s.storage.delete .webdriver id).1 }
  | .listSessions => some { s with cleanups := s.cleanups ++ [.next (s.storage.list .webdriver)] }
  | .cleanupNow i => stepCleanupNow s i
  | .lastUsed i => stepLastUsed cfg s i
  | .cleanupDelete i => stepCleanupDelete s i

def idleMachine (cfg : IdleConfig) (start : Int) : Machine IdleState IdleAct where
  init :=
    { clock := start, storage := .new, added := [], lastUsed := cfg.created, accepted := cfg.created,
      requests := [], cleanups := [], removals := [] }
  step := idleStep cfg

/-! ## The removals of a run -/

/-- What has to have passed since the latest accepted request. -/
def IdleConfig.limit (cfg : IdleConfig) (sess : Session) : Int :=
  min (if 0 < (cfg.requested sess).ns then (cfg.requested sess).ns else cfg.defaultTimeout.ns)
    cfg.maxTimeout.ns

/-- Every session that the clean-up removed had been idle for longer than its limit. -/
def OnlyIdleRemoved (cfg : IdleConfig) (s : IdleState) : Prop :=
  ∀ r ∈ s.removals, cfg.limit r.sess < r.time - r.accepted

/-- The time stamp by which the clean-up finds a session idle is not older than the latest
accepted request, no request is accepted between that and the removal, and the session that
is removed is the one that was found idle. -/
def Undisturbed (cfg : IdleConfig) (s : IdleState) : IdleAct → Prop
  | .findSession id =>
    ∀ sess, s.storage.get .webdriver id = some sess → ∀ rest, .deleting sess rest ∉ s.cleanups
  | .lastUsed i =>
    ∀ sess t rest, s.cleanups[i]? = some (.timed sess t rest) → idle cfg s sess t = true →
      s.accepted sess ≤ s.lastUsed sess
  | .cleanupDelete i =>
    ∀ sess rest, s.cleanups[i]? = some (.deleting sess rest) →
      ∀ stored, s.storage.get .webdriver sess.id = some stored → stored = sess
  | _ => True

theorem timeout_eq_limit (cfg : IdleConfig) (sess : Session) :
    (cfg.timeout sess).ns = cfg.limit sess := by
  simp only [IdleConfig.timeout, IdleConfig.limit]
  split <;> split <;> split <;> omega

/-- A difference that saturates is at the end of the range. -/
theorem lt_of_lt_sub {t u : Int} {d : Duration} (h : d.ns < sub t u) : d.ns < t - u := by
  have hmin := d.min_le
  have hmax := d.le_max
  simp only [sub] at h
  omega

/-- What the clean-up knows in each of its sections. -/
def CleanupInv (cfg : IdleConfig) (s : IdleState) : Cleanup → Prop
  | .next _ => True
  | .timed _ t _ => t ≤ s.clock
  | .deleting sess _ => cfg.limit sess < s.clock - s.accepted sess

structure IdleInv (cfg : IdleConfig) (s : IdleState) : Prop where
  cleanups : ∀ c ∈ s.cleanups, CleanupInv cfg s c
  removals : OnlyIdleRemoved cfg s

section Proofs

variable {cfg : IdleConfig} {s s' : IdleState} {a : IdleAct} {i : Nat}

theorem CleanupInv.tick (d : Nat) {c : Cleanup} (h : CleanupInv cfg s c) :
    CleanupInv cfg { s with clock := s.clock + d } c := by
  cases c with
  | next rest => trivial
  | timed sess t rest =>
    have ht : t ≤ s.clock := h
    show t ≤ s.clock + d
    omega
  | deleting sess rest =>
    have hidle : cfg.limit sess < s.clock - s.accepted sess := h
    show cfg.limit sess < s.clock + d - s.accepted sess
    omega

/-- The clean-up does not look at what else is in the state. -/
theorem CleanupInv.congr {c : Cleanup} (h : CleanupInv cfg s c) (hclock : s'.clock = s.clock)
    (haccepted : s'.accepted = s.accepted) : CleanupInv cfg s' c := by
  cases c with
  | next rest => trivial
  | timed sess t rest =>
    show t ≤ s'.clock
    rw [hclock]
    exact h
  | deleting sess rest =>
    show cfg.limit sess < s'.clock - s'.accepted sess
    rw [hclock, haccepted]
    exact h

theorem IdleInv.congr (h : IdleInv cfg s) (hclock : s'.clock = s.clock)
    (haccepted : s'.accepted = s.accepted) (hcleanups : s'.cleanups = s.cleanups)
    (hremovals : s'.removals = s.removals) : IdleInv cfg s' := by
  constructor
  · rw [hcleanups]
    exact fun c hc => (h.cleanups c hc).congr hclock haccepted
  · rw [OnlyIdleRemoved, hremovals]
    exact h.removals

/-- A section of the clean-up that removes nothing. -/
theorem IdleInv.setCleanup (h : IdleInv cfg s) {c : Cleanup} (hc : CleanupInv cfg s c) :
    IdleInv cfg (s.setCleanup i c) := by
  constructor
  · intro c' hc'
    rcases List.mem_or_eq_of_mem_set hc' with hc' | rfl
    · exact (h.cleanups c' hc').congr rfl rfl
    · exact hc.congr rfl rfl
  · exact h.removals

theorem inv_findSession {id : GoString} (h : IdleInv cfg s)
    (hc : Undisturbed cfg s (.findSession id)) (hs : stepFindSession s id = some s') :
    IdleInv cfg s' := by
  rw [stepFindSession] at hs
  split at hs
  · cases hs
    exact h
  · rename_i sess hsess
    cases hs
    constructor
    · intro c hmem
      cases c with
      | next rest => trivial
      | timed sess' t rest => exact h.cleanups _ hmem
      | deleting sess' rest =>
        have hne : sess' ≠ sess := by
          intro heq
          subst heq
          exact hc sess' hsess rest hmem
        show cfg.limit sess' < s.clock - setTime s.accepted sess s.clock sess'
        rw [setTime, if_neg hne]
        exact h.cleanups _ hmem
    · exact h.removals

theorem inv_cleanupNow (h : IdleInv cfg s) (hs : stepCleanupNow s i = some s') :
    IdleInv cfg s' := by
  rw [stepCleanupNow] at hs
  split at hs
  · cases hs
    exact h.setCleanup (Int.le_refl s.clock)
  · contradiction

theorem inv_lastUsed (h : IdleInv cfg s) (hc : Undisturbed cfg s (.lastUsed i))
    (hs : stepLastUsed cfg s i = some s') : IdleInv cfg s' := by
  rw [stepLastUsed] at hs
  split at hs
  · rename_i sess t rest hi
    split at hs
    · rename_i hidle
      cases hs
      apply h.setCleanup
      have hclock : t ≤ s.clock := h.cleanups _ (List.mem_of_getElem? hi)
      have hstamp := hc sess t rest hi hidle
      have hlong := lt_of_lt_sub (of_decide_eq_true hidle)
      rw [timeout_eq_limit] at hlong
      show cfg.limit sess < s.clock - s.accepted sess
      omega
    · cases hs
      exact h.setCleanup trivial
  · contradiction

theorem inv_cleanupDelete (h : IdleInv cfg s) (hc : Undisturbed cfg s (.cleanupDelete i))
    (hs : stepCleanupDelete s i = some s') : IdleInv cfg s' := by
  rw [stepCleanupDelete] at hs
  split at hs
  · rename_i sess rest hi
    split at hs
    · cases hs
      exact h.setCleanup trivial
    · rename_i stored hstored
      cases hs
      have heq := hc sess rest hi stored hstored
      subst heq
      have hnext : IdleInv cfg (s.setCleanup i (.next rest)) := h.setCleanup trivial
      constructor
      · exact fun c hmem => (hnext.cleanups c hmem).congr rfl rfl
      · intro r hr
        rcases List.mem_append.mp hr with hr | hr
        · exact h.removals r hr
        · rw [List.mem_singleton] at hr
          rw [hr]
          exact h.cleanups _ (List.mem_of_getElem? hi)
  · contradiction

theorem inv_idleStep (h : IdleInv cfg s) (hc : Undisturbed cfg s a)
    (hs : idleStep cfg s a = some s') : IdleInv cfg s' := by
  cases a with
  | tick d =>
    cases hs
    exact ⟨fun c hmem => (h.cleanups c hmem).tick d, h.removals⟩
  | add sess =>
    rw [idleStep, stepAddSession] at hs
    split at hs
    · contradiction
    · split at hs
      · contradiction
      · cases hs
        exact h.congr rfl rfl rfl rfl
  | findSession id => exact inv_findSession h hc hs
  | requestNow i =>
    rw [idleStep, stepRequestNow] at hs
    split at hs
    · cases hs
      exact h.congr rfl rfl rfl rfl
    · contradiction
  | setLastUsed i =>
    rw [idleStep, stepSetLastUsed] at hs
    split at hs
    · cases hs
      exact h.congr rfl rfl rfl rfl
    · contradiction
  | delete id =>
    cases hs
    exact h.congr rfl rfl rfl rfl
  | listSessions =>
    cases hs
    constructor
    · intro c hmem
      rcases List.mem_append.mp hmem with hmem | hmem
      · exact (h.cleanups c hmem).congr rfl rfl
      · rw [List.mem_singleton] at hmem
        rw [hmem]
        trivial
    · exact h.removals
  | cleanupNow i => exact inv_cleanupNow h hs
  | lastUsed i => exact inv_lastUsed h hc hs
  | cleanupDelete i => exact inv_cleanupDelete h hc hs

/-- In every undisturbed run the clean-up removes idle sessions only. -/
theorem only_idle_removed {start : Int} (h : (idleMachine cfg start).Reach (Undisturbed cfg) s) :
    OnlyIdleRemoved cfg s := by
  have hinv : IdleInv cfg s := by
    apply h.invariant
    · constructor
      · intro c hc
        contradiction
      · intro r hr
        contradiction
    · intro t a t' ht hc hstep
      exact inv_idleStep ht hc hstep
  exact hinv.removals

/-! ## When a time stamp is behind -/

/-- No time stamp replaces a later one. -/
def InOrder (s : IdleState) : IdleAct → Prop
  | .setLastUsed i => ∀ sess t, s.requests[i]? = some (.timed sess t) → s.lastUsed sess ≤ t
  | _ => True

/-- The latest accepted request has left its time stamp, or is on its way to do so. -/
structure StampInv (s : IdleState) : Prop where
  found : ∀ sess, .found sess ∈ s.requests → s.accepted sess ≤ s.clock
  stamped : ∀ sess, s.accepted sess ≤ s.lastUsed sess ∨ .found sess ∈ s.requests ∨
    ∃ t, .timed sess t ∈ s.requests ∧ s.accepted sess ≤ t

theorem StampInv.congr (h : StampInv s) (hclock : s.clock ≤ s'.clock)
    (haccepted : s'.accepted = s.accepted) (hlastUsed : s'.lastUsed = s.lastUsed)
    (hrequests : s'.requests = s.requests) : StampInv s' := by
  constructor
  · intro sess hfound
    rw [hrequests] at hfound
    rw [haccepted]
    exact Int.le_trans (h.found sess hfound) hclock
  · rw [haccepted, hlastUsed, hrequests]
    exact h.stamped

theorem stampInv_findSession {id : GoString} (h : StampInv s)
    (hs : stepFindSession s id = some s') : StampInv s' := by
  rw [stepFindSession] at hs
  split at hs
  · cases hs
    exact h
  · rename_i sess _
    cases hs
    constructor
    · intro sess' hfound
      show setTime s.accepted sess s.clock sess' ≤ s.clock
      rw [setTime]
      split
      · exact Int.le_refl _
      · rename_i hne
        rcases List.mem_append.mp hfound with hfound | hfound
        · exact h.found sess' hfound
        · rw [List.mem_singleton] at hfound
          exact absurd (Validation.found.inj hfound) hne
    · intro sess'
      show setTime s.accepted sess s.clock sess' ≤ s.lastUsed sess' ∨ _ ∨
        ∃ t, _ ∧ setTime s.accepted sess s.clock sess' ≤ t
      by_cases heq : sess' = sess
      · subst heq
        exact .inr (.inl (List.mem_append_right _ (List.mem_singleton.mpr rfl)))
      · rw [setTime, if_neg heq]
        rcases h.stamped sess' with hle | hfound | ⟨t, htimed, hle⟩
        · exact .inl hle
        · exact .inr (.inl (List.mem_append_left _ hfound))
        · exact .inr (.inr ⟨t, List.mem_append_left _ htimed, hle⟩)

theorem stampInv_requestNow (h : StampInv s) (hs : stepRequestNow s i = some s') :
    StampInv s' := by
  rw [stepRequestNow] at hs
  split at hs
  · rename_i sess hi
    cases hs
    have hfound : s.accepted sess ≤ s.clock := h.found sess (List.mem_of_getElem? hi)
    constructor
    · intro sess' hmem
      rcases List.mem_or_eq_of_mem_set hmem with hmem | hmem
      · exact h.found sess' hmem
      · contradiction
    · intro sess'
      rcases h.stamped sess' with hle | hmem | ⟨t, hmem, hle⟩
      · exact .inl hle
      · by_cases heq : sess' = sess
        · subst heq
          exact .inr (.inr ⟨s.clock, List.mem_set (lt_of_getElem? hi) _, hfound⟩)
        · refine .inr (.inl (mem_set_of_ne hi hmem ?_ _))
          intro h'
          exact heq (Validation.found.inj h')
      · refine .inr (.inr ⟨t, mem_set_of_ne hi hmem ?_ _, hle⟩)
        intro h'
        contradiction
  · contradiction

theorem stampInv_setLastUsed (h : StampInv s) (hc : InOrder s (.setLastUsed i))
    (hs : stepSetLastUsed s i = some s') : StampInv s' := by
  rw [stepSetLastUsed] at hs
  split at hs
  · rename_i sess t hi
    cases hs
    have horder : s.lastUsed sess ≤ t := hc sess t hi
    constructor
    · intro sess' hmem
      rcases List.mem_or_eq_of_mem_set hmem with hmem | hmem
      · exact h.found sess' hmem
      · contradiction
    · intro sess'
      show s.accepted sess' ≤ setTime s.lastUsed sess t sess' ∨ _ ∨ _
      rcases h.stamped sess' with hle | hmem | ⟨t', hmem, hle⟩
      · apply Or.inl
        rw [setTime]
        split
        · rename_i heq
          subst heq
          exact Int.le_trans hle horder
        · exact hle
      · refine .inr (.inl (mem_set_of_ne hi hmem ?_ _))
        intro h'
        contradiction
      · by_cases heq : Validation.timed sess' t' = .timed sess t
        · cases heq
          apply Or.inl
          rw [setTime, if_pos rfl]
          exact hle
        · exact .inr (.inr ⟨t', mem_set_of_ne hi hmem heq _, hle⟩)
  · contradiction

theorem stampInv_idleStep (h : StampInv s) (hc : InOrder s a) (hs : idleStep cfg s a = some s') :
    StampInv s' := by
  cases a with
  | tick d =>
    cases hs
    refine h.congr ?_ rfl rfl rfl
    show s.clock ≤ s.clock + d
    omega
  | add sess =>
    rw [idleStep, stepAddSession] at hs
    split at hs
    · contradiction
    · split at hs
      · contradiction
      · cases hs
        exact h.congr (Int.le_refl _) rfl rfl rfl
  | findSession id => exact stampInv_findSession h hs
  | requestNow i => exact stampInv_requestNow h hs
  | setLastUsed i => exact stampInv_setLastUsed h hc hs
  | delete id =>
    cases hs
    exact h.congr (Int.le_refl _) rfl rfl rfl
  | listSessions =>
    cases hs
    exact h.congr (Int.le_refl _) rfl rfl rfl
  | cleanupNow i =>
    rw [idleStep, stepCleanupNow] at hs
    split at hs
    · cases hs
      exact h.congr (Int.le_refl _) rfl rfl rfl
    · contradiction
  | lastUsed i =>
    rw [idleStep, stepLastUsed] at hs
    split at hs
    · split at hs
      · cases hs
        exact h.congr (Int.le_refl _) rfl rfl rfl
      · cases hs
        exact h.congr (Int.le_refl _) rfl rfl rfl
    · contradiction
  | cleanupDelete i =>
    rw [idleStep, stepCleanupDelete] at hs
    split at hs
    · split at hs
      · cases hs
        exact h.congr (Int.le_refl _) rfl rfl rfl
      · cases hs
        exact h.congr (Int.le_refl _) rfl rfl rfl
    · contradiction

/-- When time stamps are stored in order, only a request between `FindSession` and
`SetLastUsed` leaves the time stamp of its session behind. -/
theorem accepted_le_lastUsed {start : Int} (h : (idleMachine cfg start).Reach InOrder s)
    {sess : Session} (hfound : .found sess ∉ s.requests) (htimed : ∀ t, .timed sess t ∉ s.requests) :
    s.accepted sess ≤ s.lastUsed sess := by
  have hinv : StampInv s := by
    apply h.invariant
    · constructor
      · intro sess hmem
        contradiction
      · intro sess
        exact .inl (Int.le_refl _)
    · intro t a t' ht hc hstep
      exact stampInv_idleStep ht hc hstep
  rcases hinv.stamped sess with hle | hmem | ⟨t, hmem, _⟩
  · exact hle
  · exact absurd hmem hfound
  · exact absurd hmem (htimed t)

end Proofs

/-! ## Sessions that are removed in use -/

def duration (ns : Nat) (h : (ns : Int) ≤ maxDuration) : Duration :=
  ⟨ns, Int.le_trans (by decide) (Int.natCast_nonneg ns), h⟩

/-- No timeout is requested; the default one is 60. -/
def sampleConfig : IdleConfig where
  defaultTimeout := duration 60 (by decide)
  maxTimeout := duration 300 (by decide)
  requested := fun _ => duration 0 (by decide)
  created := fun _ => 0

def idleSession : Session := ⟨bytes "s1", 0⟩

/-- A request at time 10, and a clean-up at time 100. -/
def idleRun : List IdleAct :=
  [.add idleSession, .tick 10, .findSession (bytes "s1"), .requestNow 0, .setLastUsed 0, .tick 90,
    .listSessions, .cleanupNow 0, .lastUsed 0, .cleanupDelete 0]

/-- The request arrives after the clean-up has found the session idle. -/
def lateRequest : List IdleAct :=
  [.add idleSession, .tick 100, .listSessions, .cleanupNow 0, .lastUsed 0,
    .findSession (bytes "s1"), .requestNow 0, .setLastUsed 0, .cleanupDelete 0]

/-- The request has found the session, but not set the time. -/
def pendingRequest : List IdleAct :=
  [.add idleSession, .tick 100, .findSession (bytes "s1"), .listSessions, .cleanupNow 0,
    .lastUsed 0, .cleanupDelete 0]

/-- Two requests, at the times 10 and 70, store their times the other way round. -/
def swappedRequests : List IdleAct :=
  [.add idleSession, .tick 10, .findSession (bytes "s1"), .requestNow 0, .tick 60,
    .findSession (bytes "s1"), .requestNow 1, .setLastUsed 1, .setLastUsed 0, .tick 10,
    .listSessions, .cleanupNow 0, .lastUsed 0, .cleanupDelete 0]

theorem only_idle_removed_after90 :
    ∃ s, (idleMachine sampleConfig 0).run (idleMachine sampleConfig 0).init idleRun = some s ∧
      s.removals = [⟨idleSession, 100, 10⟩] ∧ OnlyIdleRemoved sampleConfig s := by
  have hmeets : (idleMachine sampleConfig 0).Meets (Undisturbed sampleConfig)
      (idleMachine sampleConfig 0).init idleRun := by
    refine ⟨trivial, trivial, ?_, trivial, trivial, trivial, trivial, trivial, ?_, ?_, trivial⟩
    · intro sess _ rest hmem
      exact absurd hmem List.not_mem_nil
    · intro sess t rest hi _
      cases hi
      decide
    · intro sess rest hi stored hstored
      cases hi
      exact (Option.some.inj hstored).symm
  exact ⟨_, rfl, rfl, only_idle_removed (Machine.leads_of_run idleRun hmeets rfl)⟩

theorem removed_in_use :
    (∃ s, (idleMachine sampleConfig 0).run (idleMachine sampleConfig 0).init lateRequest = some s ∧
      s.removals = [⟨idleSession, 100, 100⟩]) ∧
    (∃ s, (idleMachine sampleConfig 0).run (idleMachine sampleConfig 0).init pendingRequest = some s ∧
      s.removals = [⟨idleSession, 100, 100⟩]) ∧
    (∃ s, (idleMachine sampleConfig 0).run (idleMachine sampleConfig 0).init swappedRequests = some s ∧
      s.removals = [⟨idleSession, 80, 70⟩]) ∧
    ¬∀ s, (idleMachine sampleConfig 0).Reachable s → OnlyIdleRemoved sampleConfig s := by
  have hlate : ∃ s, (idleMachine sampleConfig 0).run (idleMachine sampleConfig 0).init lateRequest =
      some s ∧ s.removals = [⟨idleSession, 100, 100⟩] := ⟨_, rfl, rfl⟩
  refine ⟨hlate, ⟨_, rfl, rfl⟩, ⟨_, rfl, rfl⟩, ?_⟩
  intro h
  obtain ⟨s, hs, hremovals⟩ := hlate
  have honly := h s (Machine.reachable_of_run lateRequest hs)
  rw [OnlyIdleRemoved, hremovals] at honly
  exact absurd (honly _ List.mem_cons_self) (by decide)

end Selebrow.Session
