import Mathlib.Tactic.ByContra
import Selebrow.Pool.Step
import Selebrow.Transition.Entries
import Selebrow.Transition.Tally

/-!
# Exclusive ownership of pooled browsers

A browser is counted in four places: with a client that holds it, in a check-in,
in the idle map of a pool, and with a caller of the backend's `Close`.  The
counts over the whole state add up to one for each browser that was allocated,
in every state that any interleaving reaches.  Everything else follows from
that sum.
-/

namespace Selebrow.Pool

open Transition

/-- Client `c` holds browser `w`. -/
def Client.holds (w : Nat) : Client → Nat
  | .holding _ w' => if w' = w then 1 else 0
  | _ => 0

/-- Client `c` is checking browser `w` in. -/
def Client.checksIn (w : Nat) : Client → Nat
  | .poolState w' | .checkAge w' | .pushIdle w' => if w' = w then 1 else 0
  | _ => 0

def IdleBrowserPool.keeps (w : Nat) (pool : IdleBrowserPool) : Nat :=
  (pool.idleWd.map Prod.snd).count w

def Closer.closes (w : Nat) (c : Closer) : Nat := if c.w = w then 1 else 0

namespace State

def held (s : State) (w : Nat) : Nat := tally (Client.holds w) s.clients

def checkedIn (s : State) (w : Nat) : Nat := tally (Client.checksIn w) s.clients

def idle (s : State) (w : Nat) : Nat := tally (IdleBrowserPool.keeps w) s.pools

def closed (s : State) (w : Nat) : Nat := tally (Closer.closes w) s.closers

/-- How many places browser `w` is in. -/
def places (s : State) (w : Nat) : Nat := s.held w + s.checkedIn w + s.idle w + s.closed w

end State

/-- Client `c` goes to pool `p` for its own pool name, or holds a browser of it. -/
def Client.Named (s : State) : Client → Prop
  | .popIdle name p | .backend name p =>
    ∃ pool : IdleBrowserPool, s.pools[p]? = some pool ∧ pool.name = name
  | .holding name w =>
    ∃ b : PooledBrowser, s.browsers[w]? = some b ∧
      ∃ pool : IdleBrowserPool, s.pools[b.checkin]? = some pool ∧ pool.name = name
  | _ => True

structure Inv (ids : FreshSupply GoString) (s : State) : Prop where
  ids_eq : ∀ (w : Nat) (b : PooledBrowser), s.browsers[w]? = some b → b.id = ids.gen w
  keys : ∀ (p : Nat) (pool : IdleBrowserPool), s.pools[p]? = some pool → ∀ e ∈ pool.idleWd,
    e.1 = ids.gen e.2 ∧ ∃ b : PooledBrowser, s.browsers[e.2]? = some b ∧ b.checkin = p
  one : ∀ w, (w < s.browsers.length → s.places w = 1) ∧ (s.browsers.length ≤ w → s.places w = 0)
  named : ∀ c ∈ s.clients, c.Named s

/-! ## The idle map -/

theorem count_deleteKey {ids : FreshSupply GoString} {l : List (GoString × Nat)}
    (h : ∀ e ∈ l, e.1 = ids.gen e.2) (w v : Nat) :
    ((deleteKey l (ids.gen w)).map Prod.snd).count v =
      if v = w then 0 else (l.map Prod.snd).count v := by
  induction l with
  | nil => simp [deleteKey]
  | cons e rest ih =>
    have ih := ih (fun d hd => h d (List.mem_cons_of_mem e hd))
    have he := h e List.mem_cons_self
    rw [deleteKey_cons]
    by_cases hw : e.2 = w
    · rw [if_pos (by rw [he, hw]), ih, List.map_cons, List.count_cons, hw]
      by_cases hv : v = w
      · simp [hv]
      · simp [hv, Ne.symm hv]
    · have hkey : e.1 ≠ ids.gen w := by
        rw [he]
        exact fun heq => hw (ids.injective heq)
      rw [if_neg hkey, List.map_cons, List.count_cons, ih, List.map_cons, List.count_cons]
      by_cases hv : v = w
      · subst hv
        simp [hw]
      · simp [hv]

theorem hasKey_count {ids : FreshSupply GoString} {l : List (GoString × Nat)}
    (h : ∀ e ∈ l, e.1 = ids.gen e.2) {w : Nat} (hk : hasKey l (ids.gen w) = true) :
    0 < (l.map Prod.snd).count w := by
  rw [hasKey, List.any_eq_true] at hk
  obtain ⟨e, he, hid⟩ := hk
  have heq : e.2 = w := ids.injective (by rw [← h e he]; simpa using hid)
  rw [List.count_pos_iff]
  exact heq ▸ List.mem_map_of_mem he

/-- A shutdown claims exactly the idle browsers. -/
theorem tally_claim (l : List (GoString × Nat)) (w : Nat) :
    tally (Closer.closes w) (l.map fun e => ⟨e.2, .claimed⟩) = (l.map Prod.snd).count w := by
  rw [tally_map]
  exact tally_eq_count Prod.snd w l

/-! ## What the steps leave alone -/

/-- The pools that were there are there under their names, and the browsers that
were there are unchanged. -/
structure Extends (s s' : State) : Prop where
  pools : ∀ (p : Nat) (pool : IdleBrowserPool), s.pools[p]? = some pool →
    ∃ pool' : IdleBrowserPool, s'.pools[p]? = some pool' ∧ pool'.name = pool.name
  browsers : ∀ (w : Nat) (b : PooledBrowser), s.browsers[w]? = some b → s'.browsers[w]? = some b

theorem extends_of_eq {s s' : State} (hp : s'.pools = s.pools) (hb : s'.browsers = s.browsers) :
    Extends s s' :=
  ⟨fun p pool h => ⟨pool, by rw [hp]; exact h, rfl⟩, fun w b h => by rw [hb]; exact h⟩

theorem Extends.trans {s s' s'' : State} (h : Extends s s') (h' : Extends s' s'') :
    Extends s s'' := by
  refine ⟨fun p pool hp => ?_, fun w b hb => h'.browsers w b (h.browsers w b hb)⟩
  obtain ⟨pool', hp', hn⟩ := h.pools p pool hp
  obtain ⟨pool'', hp'', hn'⟩ := h'.pools p pool' hp'
  exact ⟨pool'', hp'', hn'.trans hn⟩

theorem Client.Named.mono {s s' : State} (hx : Extends s s') {c : Client} (h : c.Named s) :
    c.Named s' := by
  cases c with
  | popIdle name p =>
    obtain ⟨pool, hp, hn⟩ := h
    obtain ⟨pool', hp', hn'⟩ := hx.pools p pool hp
    exact ⟨pool', hp', hn'.trans hn⟩
  | backend name p =>
    obtain ⟨pool, hp, hn⟩ := h
    obtain ⟨pool', hp', hn'⟩ := hx.pools p pool hp
    exact ⟨pool', hp', hn'.trans hn⟩
  | holding name w =>
    obtain ⟨b, hb, pool, hp, hn⟩ := h
    obtain ⟨pool', hp', hn'⟩ := hx.pools _ pool hp
    exact ⟨b, hx.browsers w b hb, pool', hp', hn'.trans hn⟩
  | _ => trivial

theorem pools_set {pools : List IdleBrowserPool} {q : Nat} {pool new : IdleBrowserPool}
    (hq : pools[q]? = some pool) (hn : new.name = pool.name) :
    ∀ (p : Nat) (old : IdleBrowserPool), pools[p]? = some old →
      ∃ pool' : IdleBrowserPool, (pools.set q new)[p]? = some pool' ∧ pool'.name = old.name :=
  fun _ _ hp => exists_getElem?_set (R := fun old new => new.name = old.name) (fun _ => rfl) hq hn hp

theorem step_extends {cfg : PoolConfig} {ids : FreshSupply GoString} {s s' : State} {a : Act}
    (h : step cfg ids s a = some s') : Extends s s' := by
  cases step_sound h with
  | create i name _ _ _ =>
    exact ⟨fun p pool hp => ⟨pool, getElem?_append_some hp, rfl⟩, fun _ _ hb => hb⟩
  | reuse i k name p pool id w _ hp _ _ => exact ⟨pools_set hp rfl, fun _ _ hb => hb⟩
  | fresh i now name p _ =>
    exact ⟨fun _ pool hp => ⟨pool, hp, rfl⟩, fun _ _ hb => getElem?_append_some hb⟩
  | push i w b pool _ _ hp => exact ⟨pools_set hp rfl, fun _ _ hb => hb⟩
  | evict t w b pool _ _ hp _ => exact ⟨pools_set hp rfl, fun _ _ hb => hb⟩
  | poolShutdown g p pool _ hp => exact ⟨pools_set hp rfl, fun _ _ hb => hb⟩
  | poolShutdownDone g p lo hi _ pool _ hp => exact ⟨pools_set hp rfl, fun _ _ hb => hb⟩
  | _ => exact extends_of_eq rfl rfl

theorem leads_extends {cfg : PoolConfig} {ids : FreshSupply GoString} {C : State → Act → Prop}
    {s t : State} (h : (machine cfg ids).Leads C s t) : Extends s t := by
  induction h with
  | refl => exact extends_of_eq rfl rfl
  | tail _ _ hs ih => exact ih.trans (step_extends hs)

theorem named_set {s s' : State} {i : Nat} {c : Client} (hx : Extends s s')
    (h : ∀ d ∈ s.clients, d.Named s) (hc : c.Named s') :
    ∀ d ∈ s.clients.set i c, d.Named s' := by
  intro d hd
  rcases List.mem_or_eq_of_mem_set hd with hd | rfl
  · exact (h d hd).mono hx
  · exact hc

theorem named_mono {s s' : State} (hx : Extends s s') (hc : s'.clients = s.clients)
    (h : ∀ d ∈ s.clients, d.Named s) : ∀ d ∈ s'.clients, d.Named s' := by
  intro d hd
  rw [hc] at hd
  exact (h d hd).mono hx

/-! ## The invariant -/

/-- The idle maps stay keyed when one pool's map loses entries or gains one. -/
theorem keys_set {ids : FreshSupply GoString} {s : State} {q : Nat} {new : IdleBrowserPool}
    (h : ∀ (p : Nat) (pool : IdleBrowserPool), s.pools[p]? = some pool → ∀ e ∈ pool.idleWd,
      e.1 = ids.gen e.2 ∧ ∃ b : PooledBrowser, s.browsers[e.2]? = some b ∧ b.checkin = p)
    (hnew : ∀ e ∈ new.idleWd,
      e.1 = ids.gen e.2 ∧ ∃ b : PooledBrowser, s.browsers[e.2]? = some b ∧ b.checkin = q) :
    ∀ (p : Nat) (pool : IdleBrowserPool), (s.pools.set q new)[p]? = some pool → ∀ e ∈ pool.idleWd,
      e.1 = ids.gen e.2 ∧ ∃ b : PooledBrowser, s.browsers[e.2]? = some b ∧ b.checkin = p := by
  intro p pool hp
  rcases getElem?_set_some hp with ⟨rfl, rfl⟩ | ⟨_, hp⟩
  · exact hnew
  · exact h p pool hp

theorem init_inv (ids : FreshSupply GoString) : Inv ids State.init := by
  refine ⟨?_, ?_, ?_, ?_⟩ <;> intros <;> simp_all [State.init, State.places, State.held,
    State.checkedIn, State.idle, State.closed]

variable {cfg : PoolConfig} {ids : FreshSupply GoString} {s s' : State}

theorem inv_of_quiet {i : Nat} {a : Act} {c c' : Client} (hi : Inv ids s)
    (hc : s.clients[i]? = some c) (hq : Quiet cfg s i a c c') :
    Inv ids (s.setClient i c') := by
  have hold : ∀ w, c'.holds w + c'.checksIn w = c.holds w + c.checksIn w := by
    intro w
    cases hq <;> simp [Client.holds, Client.checksIn]
  have hnamed : c'.Named s := by
    have := hi.named c (List.mem_of_getElem? hc)
    cases hq with
    | found name p pool hp hn => exact ⟨pool, hp, hn⟩
    | foundAgain name p pool hp hn => exact ⟨pool, hp, hn⟩
    | empty name p k pool _ _ _ => exact this
    | _ => trivial
  refine ⟨hi.ids_eq, hi.keys, fun w => ?_, named_set (extends_of_eq rfl rfl) hi.named hnamed⟩
  have hone := hi.one w
  have h1 := tally_set (Client.holds w) c' hc
  have h2 := tally_set (Client.checksIn w) c' hc
  have := hold w
  simp only [State.places, State.held, State.checkedIn, State.idle, State.closed,
    State.setClient] at *
  omega

theorem inv_of_reuse {i k : Nat} {name : GoString} {p : Nat} {pool : IdleBrowserPool}
    {id : GoString} {w : Nat} (hi : Inv ids s) (hc : s.clients[i]? = some (.popIdle name p))
    (hp : s.pools[p]? = some pool) (hk : pool.idleWd[k]? = some (id, w)) :
    Inv ids { s.setClient i (.holding name w) with
              pools := s.pools.set p { pool with idleWd := deleteKey pool.idleWd id } } := by
  have hkeys := hi.keys p pool hp
  obtain ⟨hid, b, hb, hbp⟩ := hkeys _ (List.mem_of_getElem? hk)
  simp only at hid hb
  subst hid
  have hin : 0 < (pool.idleWd.map Prod.snd).count w := by
    rw [List.count_pos_iff]
    exact List.mem_map_of_mem (f := Prod.snd) (List.mem_of_getElem? hk)
  refine ⟨hi.ids_eq, keys_set hi.keys (fun e he => hkeys e (mem_deleteKey.mp he).1), fun v => ?_,
    named_set ⟨pools_set hp rfl, fun _ _ h => h⟩ hi.named ?_⟩
  · have hone := hi.one v
    have hpos := hi.one w
    have h1 := tally_set (Client.holds v) (.holding name w) hc
    have h2 := tally_set (Client.checksIn v) (.holding name w) hc
    have h3 := tally_set (IdleBrowserPool.keeps v)
      { pool with idleWd := deleteKey pool.idleWd (ids.gen w) } hp
    have h4 := le_tally (IdleBrowserPool.keeps w) hp
    have hdel := count_deleteKey (fun e he => (hkeys e he).1) w v
    simp only [State.places, State.held, State.checkedIn, State.idle, State.closed,
      State.setClient, Client.holds, Client.checksIn, IdleBrowserPool.keeps, hdel] at *
    by_cases hv : v = w
    · subst hv
      simp only [if_true] at *
      omega
    · have : ¬ w = v := fun h => hv h.symm
      simp only [hv, this, if_false] at *
      omega
  · obtain ⟨pool₀, hp₀, hn₀⟩ := hi.named _ (List.mem_of_getElem? hc)
    rw [hp, Option.some.injEq] at hp₀
    subst hp₀
    exact ⟨b, hb, { pool with idleWd := deleteKey pool.idleWd (ids.gen w) },
      by rw [hbp]; exact getElem?_set_eq hp, hn₀⟩

theorem inv_of_fresh {i : Nat} {now : Int} {name : GoString} {p : Nat} (hi : Inv ids s)
    (hc : s.clients[i]? = some (.backend name p)) :
    Inv ids { s.setClient i (.holding name s.browsers.length) with
              browsers := s.browsers ++ [⟨ids.gen s.browsers.length, now, p⟩] } := by
  have hlast : (s.browsers ++ [⟨ids.gen s.browsers.length, now, p⟩])[s.browsers.length]? =
      some ⟨ids.gen s.browsers.length, now, p⟩ := List.getElem?_concat_length
  refine ⟨fun w b hb => ?_, fun q pool hq e he => ?_, fun v => ?_,
    named_set ⟨fun _ pool hq => ⟨pool, hq, rfl⟩, fun _ _ h => getElem?_append_some h⟩ hi.named ?_⟩
  · rcases getElem?_concat_some hb with hb | ⟨rfl, rfl⟩
    · exact hi.ids_eq w b hb
    · rfl
  · obtain ⟨hid, b, hb, hbq⟩ := hi.keys q pool hq e he
    exact ⟨hid, b, getElem?_append_some hb, hbq⟩
  · have hone := hi.one v
    have h1 := tally_set (Client.holds v) (.holding name s.browsers.length) hc
    have h2 := tally_set (Client.checksIn v) (.holding name s.browsers.length) hc
    simp only [State.places, State.held, State.checkedIn, State.idle, State.closed,
      State.setClient, Client.holds, Client.checksIn, List.length_append,
      List.length_singleton] at *
    split at h1 <;> omega
  · obtain ⟨pool, hp, hn⟩ := hi.named _ (List.mem_of_getElem? hc)
    exact ⟨_, hlast, pool, hp, hn⟩

theorem inv_of_drop {i : Nat} {a : Act} {c : Client} {w : Nat} (hi : Inv ids s)
    (hc : s.clients[i]? = some c) (hd : Drops i a c w) :
    Inv ids ((s.setClient i .returned).close w) := by
  refine ⟨hi.ids_eq, hi.keys, fun v => ?_, named_set (extends_of_eq rfl rfl) hi.named trivial⟩
  have hone := hi.one v
  have h1 := tally_set (Client.holds v) .returned hc
  have h2 := tally_set (Client.checksIn v) .returned hc
  simp only [State.places, State.held, State.checkedIn, State.idle, State.closed,
    State.setClient, State.close, tally_append, tally_cons, tally_nil, Closer.closes] at *
  cases hd <;> simp only [Client.holds, Client.checksIn] at h1 h2 <;> omega

theorem inv_of_push {i w : Nat} {b : PooledBrowser} {pool : IdleBrowserPool} (hi : Inv ids s)
    (hc : s.clients[i]? = some (.pushIdle w)) (hb : s.browsers[w]? = some b)
    (hp : s.pools[b.checkin]? = some pool) :
    Inv ids { s.setClient i .returned with
              timers := s.timers ++ [w],
              pools := s.pools.set b.checkin
                { pool with idleWd := insertKey pool.idleWd b.id w } } := by
  have hkeys := hi.keys _ pool hp
  have hid := hi.ids_eq w b hb
  refine ⟨hi.ids_eq, keys_set hi.keys ?_, fun v => ?_,
    named_set ⟨pools_set hp rfl, fun _ _ h => h⟩ hi.named trivial⟩
  · intro e he
    simp only [insertKey, List.mem_cons] at he
    rcases he with rfl | he
    · exact ⟨hid, b, hb, rfl⟩
    · exact hkeys e (mem_deleteKey.mp he).1
  · have hone := hi.one v
    have h1 := tally_set (Client.holds v) .returned hc
    have h2 := tally_set (Client.checksIn v) .returned hc
    have h3 := tally_set (IdleBrowserPool.keeps v)
      { pool with idleWd := insertKey pool.idleWd b.id w } hp
    have h4 := le_tally (IdleBrowserPool.keeps v) hp
    have h5 := le_tally (Client.checksIn v) hc
    have hdel := count_deleteKey (fun e he => (hkeys e he).1) w v
    simp only [State.places, State.held, State.checkedIn, State.idle, State.closed,
      State.setClient, Client.holds, Client.checksIn, IdleBrowserPool.keeps, insertKey, hid,
      List.map_cons, List.count_cons, hdel] at *
    by_cases hv : v = w
    · subst hv
      simp only [if_true, beq_self_eq_true] at *
      omega
    · have : ¬ w = v := fun h => hv h.symm
      simp only [hv, this, if_false, beq_iff_eq] at *
      omega

theorem inv_of_evict {t w : Nat} {b : PooledBrowser} {pool : IdleBrowserPool} (hi : Inv ids s)
    (hb : s.browsers[w]? = some b) (hp : s.pools[b.checkin]? = some pool)
    (hk : hasKey pool.idleWd b.id = true) :
    Inv ids { s.close w with
              timers := s.timers.eraseIdx t,
              pools := s.pools.set b.checkin
                { pool with idleWd := deleteKey pool.idleWd b.id } } := by
  have hkeys := hi.keys _ pool hp
  have hid := hi.ids_eq w b hb
  rw [hid] at hk
  have hin := hasKey_count (fun e he => (hkeys e he).1) hk
  refine ⟨hi.ids_eq, keys_set hi.keys (fun e he => hkeys e (mem_deleteKey.mp he).1), fun v => ?_,
    named_mono ⟨pools_set hp rfl, fun _ _ h => h⟩ rfl hi.named⟩
  have hone := hi.one v
  have h3 := tally_set (IdleBrowserPool.keeps v)
    { pool with idleWd := deleteKey pool.idleWd b.id } hp
  have h4 := le_tally (IdleBrowserPool.keeps v) hp
  have hdel := count_deleteKey (fun e he => (hkeys e he).1) w v
  simp only [State.places, State.held, State.checkedIn, State.idle, State.closed, State.close,
    IdleBrowserPool.keeps, hid, hdel, tally_append, tally_cons, tally_nil,
    Closer.closes] at *
  by_cases hv : v = w
  · subst hv
    simp only [if_true] at *
    omega
  · have : ¬ w = v := fun h => hv h.symm
    simp only [hv, this, if_false] at *
    omega

theorem inv_of_closer {k w : Nat} {ph ph' : ClosePhase} (hi : Inv ids s)
    (hk : s.closers[k]? = some ⟨w, ph⟩) :
    Inv ids { s with closers := s.closers.set k ⟨w, ph'⟩ } := by
  refine ⟨hi.ids_eq, hi.keys, fun v => ?_, hi.named⟩
  have hone := hi.one v
  have := tally_set (Closer.closes v) ⟨w, ph'⟩ hk
  simp only [State.places, State.held, State.checkedIn, State.idle, State.closed,
    Closer.closes] at *
  omega

theorem inv_of_poolShutdown {g p : Nat} {x : PoolShutdown} {pool : IdleBrowserPool}
    (hi : Inv ids s) (hp : s.pools[p]? = some pool) :
    Inv ids { s with
              pools := s.pools.set p { pool with idleWd := [], shutdown := true, locked := true },
              closers := s.closers ++ pool.idleWd.map fun e => ⟨e.2, .claimed⟩,
              poolShutdowns := s.poolShutdowns.set g x } := by
  refine ⟨hi.ids_eq, keys_set hi.keys (by simp), fun v => ?_,
    named_mono ⟨pools_set hp rfl, fun _ _ h => h⟩ rfl hi.named⟩
  have hone := hi.one v
  have h3 := tally_set (IdleBrowserPool.keeps v)
    { pool with idleWd := [], shutdown := true, locked := true } hp
  simp only [State.places, State.held, State.checkedIn, State.idle, State.closed,
    IdleBrowserPool.keeps, tally_append, tally_claim, List.map_nil, List.count_nil] at *
  omega

theorem inv_of_unlock {g p : Nat} {x : PoolShutdown} {pool : IdleBrowserPool} (hi : Inv ids s)
    (hp : s.pools[p]? = some pool) :
    Inv ids { s with
              pools := s.pools.set p { pool with locked := false },
              poolShutdowns := s.poolShutdowns.set g x } := by
  refine ⟨hi.ids_eq, keys_set hi.keys (hi.keys p pool hp), fun v => ?_,
    named_mono ⟨pools_set hp rfl, fun _ _ h => h⟩ rfl hi.named⟩
  have hone := hi.one v
  have h3 := tally_set (IdleBrowserPool.keeps v) { pool with locked := false } hp
  simp only [State.places, State.held, State.checkedIn, State.idle, State.closed,
    IdleBrowserPool.keeps] at *
  omega

theorem step_inv {a : Act} (hi : Inv ids s) (h : step cfg ids s a = some s') :
    Inv ids s' := by
  cases step_sound h with
  | allocate name =>
    refine ⟨hi.ids_eq, hi.keys, fun w => ?_, fun c hc => ?_⟩
    · simpa [State.places, State.held, State.checkedIn, State.idle, State.closed, Client.holds,
        Client.checksIn] using hi.one w
    · rw [List.mem_append, List.mem_singleton] at hc
      rcases hc with hc | rfl
      · exact hi.named c hc
      · trivial
  | quiet i _ c c' hc hq => exact inv_of_quiet hi hc hq
  | create i name hc _ _ =>
    refine ⟨hi.ids_eq, fun p pool hp e he => ?_, fun w => ?_,
      named_set ⟨fun _ pool hp => ⟨pool, getElem?_append_some hp, rfl⟩, fun _ _ h => h⟩ hi.named
        ⟨_, List.getElem?_concat_length, rfl⟩⟩
    · rcases getElem?_concat_some hp with hp | ⟨_, rfl⟩
      · exact hi.keys p pool hp e he
      · exact absurd he List.not_mem_nil
    · have hone := hi.one w
      have h1 := tally_set (Client.holds w) (.popIdle name s.pools.length) hc
      have h2 := tally_set (Client.checksIn w) (.popIdle name s.pools.length) hc
      simp only [State.places, State.held, State.checkedIn, State.idle, State.closed,
        State.setClient, Client.holds, Client.checksIn, tally_append, tally_cons, tally_nil,
        IdleBrowserPool.keeps, newIdleBrowserPool, List.map_nil, List.count_nil] at *
      omega
  | reuse i k name p pool id w hc hp _ hk => exact inv_of_reuse hi hc hp hk
  | fresh i now name p hc => exact inv_of_fresh hi hc
  | drop i _ c w hc hd => exact inv_of_drop hi hc hd
  | push i w b pool hc hb hp => exact inv_of_push hi hc hb hp
  | evict t w b pool _ hb hp hk => exact inv_of_evict hi hb hp hk
  | stale t => exact ⟨hi.ids_eq, hi.keys, hi.one, hi.named⟩
  | callClose k w hk => exact inv_of_closer hi hk
  | completeClose k w hk => exact inv_of_closer hi hk
  | shutdown _ => exact ⟨hi.ids_eq, hi.keys, hi.one, hi.named⟩
  | poolShutdown g p pool _ hp => exact inv_of_poolShutdown hi hp
  | poolShutdownDone g p lo hi' _ pool _ hp => exact inv_of_unlock hi hp
  | shutdownErr j lo hi' _ => exact ⟨hi.ids_eq, hi.keys, hi.one, hi.named⟩
  | shutdownOk j lo hi' _ _ => exact ⟨hi.ids_eq, hi.keys, hi.one, hi.named⟩

theorem reach_inv {C : State → Act → Prop} (h : (machine cfg ids).Reach C s) : Inv ids s :=
  h.invariant (init_inv ids) (fun _ _ _ hi _ hs => step_inv hi hs)

/-! ## Holding and closing -/

/-- The client whose `PooledBrowser.Close` is called. -/
theorem close_clients {i : Nat} {trash : Bool} (h : step cfg ids s (.close i trash) = some s') :
    ∃ name w client, s.clients[i]? = some (.holding name w) ∧
      s'.clients = s.clients.set i client ∧ (client = .returned ∨ client = .poolState w) := by
  generalize ha : Act.close i trash = a at h
  cases step_sound h with
  | quiet j _ c c' hc hq =>
    cases hq with
    | checkin name w =>
      obtain ⟨rfl, -⟩ := Act.close.inj ha
      exact ⟨name, w, _, hc, rfl, .inr rfl⟩
    | _ => simp at ha
  | drop j _ c w hc hd =>
    cases hd with
    | trash name w =>
      obtain ⟨rfl, -⟩ := Act.close.inj ha
      exact ⟨name, w, _, hc, rfl, .inl rfl⟩
    | _ => simp at ha
  | _ => simp at ha

/-- A browser that was given to the backend's `Close` stays so. -/
theorem step_closed {a : Act} (h : step cfg ids s a = some s') (w : Nat) :
    s.closed w ≤ s'.closed w := by
  have happend : ∀ l : List Closer, s.closed w ≤ tally (Closer.closes w) (s.closers ++ l) := by
    intro l
    rw [tally_append]
    exact Nat.le_add_right _ _
  have hset : ∀ {k v : Nat} {phase phase' : ClosePhase}, s.closers[k]? = some ⟨v, phase⟩ →
      s.closed w ≤ tally (Closer.closes w) (s.closers.set k ⟨v, phase'⟩) := by
    intro k v phase phase' hk
    have hsum := tally_set (Closer.closes w) ⟨v, phase'⟩ hk
    simp only [Closer.closes] at hsum
    rw [State.closed]
    omega
  cases step_sound h with
  | drop i _ c v _ _ => exact happend _
  | evict t v b pool _ _ _ _ => exact happend _
  | poolShutdown g p pool _ _ => exact happend _
  | callClose k v hk => exact hset hk
  | completeClose k v hk => exact hset hk
  | _ => exact Nat.le_refl _

/-- A client holds its browser until it closes it. -/
theorem step_holding {a : Act} (h : step cfg ids s a = some s') {c w : Nat} {name : GoString}
    (ha : ∀ trash, a ≠ .close c trash) (hc : s.clients[c]? = some (.holding name w)) :
    s'.clients[c]? = some (.holding name w) := by
  have hset : ∀ {i : Nat} {d d' : Client}, s.clients[i]? = some d →
      (i = c → d ≠ .holding name w) → (s.clients.set i d')[c]? = some (.holding name w) := by
    intro i d d' hd hne
    have hic : i ≠ c := by
      rintro rfl
      rw [hc, Option.some.injEq] at hd
      exact hne rfl hd.symm
    rw [List.getElem?_set_ne hic]
    exact hc
  cases step_sound h with
  | allocate name => exact getElem?_append_some hc
  | quiet i _ d d' hd hq =>
    apply hset hd
    intro hic
    subst hic
    cases hq with
    | checkin n v => exact absurd rfl (ha false)
    | _ => simp
  | create i n hd _ _ => exact hset hd (by simp)
  | reuse i k n p pool id v hd _ _ _ => exact hset hd (by simp)
  | fresh i now n p hd => exact hset hd (by simp)
  | drop i _ d v hd hdrop =>
    apply hset hd
    intro hic
    subst hic
    cases hdrop with
    | trash n v => exact absurd rfl (ha true)
    | _ => simp
  | push i v b pool hd _ _ => exact hset hd (by simp)
  | _ => exact hc

/-- A browser that its holder closes with `trash` is given to the backend's `Close`. -/
theorem close_closed {c w : Nat} {name : GoString} (hc : s.clients[c]? = some (.holding name w))
    (h : step cfg ids s (.close c true) = some s') : 0 < s'.closed w := by
  simp only [step, stepClose, hc, if_true] at h
  rw [← Option.some.inj h, State.close, State.setClient, State.closed, tally_append, tally_cons,
    Closer.closes, if_pos rfl]
  omega

/-! ## Ownership -/

theorem places_le_one (hi : Inv ids s) (w : Nat) : s.places w ≤ 1 := by
  have := hi.one w
  omega

/-- No two clients hold one browser. -/
theorem holding_unique (hi : Inv ids s) {i j : Nat} {n m : GoString} {w : Nat}
    (hci : s.clients[i]? = some (.holding n w)) (hcj : s.clients[j]? = some (.holding m w)) :
    i = j := by
  by_contra hij
  have h2 := add_le_tally (Client.holds w) hij hci hcj
  have := places_le_one hi w
  simp only [State.places, State.held, Client.holds, if_true] at this h2
  omega

/-- No client holds a browser that was given to the backend's `Close`. -/
theorem not_holding_of_closed (hi : Inv ids s) {w : Nat} (h : 0 < s.closed w) (i : Nat)
    (n : GoString) : s.clients[i]? ≠ some (.holding n w) := by
  intro hc
  have h2 := le_tally (Client.holds w) hc
  have := places_le_one hi w
  simp only [State.places, State.held, Client.holds, if_true] at this h2
  omega

/-- In every reachable state each backend browser is in exactly one place: with one
client, in one check-in, idle in one pool, or given to the backend's `Close`.  Two
clients never hold the same browser, no browser is given to `Close` twice or while
a client holds it, and all the calls that a browser is ever handed to have the
pool name of the first. -/
theorem exclusive_ownership (h : (machine cfg ids).Reachable s) :
    (∀ w < s.browsers.length, s.held w + s.checkedIn w + s.idle w + s.closed w = 1) ∧
    (∀ (i j : Nat) (n m : GoString) (w : Nat), s.clients[i]? = some (Client.holding n w) →
      s.clients[j]? = some (Client.holding m w) → i = j) ∧
    (∀ (k l : Nat) (c d : Closer), s.closers[k]? = some c → s.closers[l]? = some d →
      c.w = d.w → k = l) ∧
    (∀ (k : Nat) (c : Closer), s.closers[k]? = some c →
      ∀ (i : Nat) (n : GoString), s.clients[i]? ≠ some (Client.holding n c.w)) ∧
    ∀ (i : Nat) (n : GoString) (w : Nat), s.clients[i]? = some (Client.holding n w) →
      ∀ t, (machine cfg ids).Leads (fun _ _ => True) s t →
        ∀ (j : Nat) (m : GoString), t.clients[j]? = some (Client.holding m w) → m = n := by
  have hi := reach_inv h
  refine ⟨fun w hw => (hi.one w).1 hw, ?_, ?_, ?_, ?_⟩
  · exact fun i j n m w hci hcj => holding_unique hi hci hcj
  · intro k l c d hk hl hcd
    by_contra hkl
    have h2 := add_le_tally (Closer.closes d.w) hkl hk hl
    have := places_le_one hi d.w
    simp only [State.places, State.closed, Closer.closes, hcd, if_true] at this h2
    omega
  · intro k c hk i n hc
    have h1 := le_tally (Closer.closes c.w) hk
    simp only [Closer.closes, if_true] at h1
    exact not_holding_of_closed hi (w := c.w) (Nat.lt_of_lt_of_le Nat.one_pos h1) i n hc
  · intro i n w hc t ht j m hc'
    have hx := leads_extends ht
    obtain ⟨b, hb, pool, hp, hn⟩ := hi.named _ (List.mem_of_getElem? hc)
    obtain ⟨b', hb', pool', hp', hn'⟩ :=
      (reach_inv (h.trans ht)).named _ (List.mem_of_getElem? hc')
    rw [hx.browsers w b hb, Option.some.injEq] at hb'
    subst hb'
    obtain ⟨pool'', hp'', hn''⟩ := hx.pools _ pool hp
    rw [hp', Option.some.injEq] at hp''
    rw [← hn', hp'', hn'', hn]

/-- The browser allocated under the name `a` was given back and is idle. -/
def checkedInOnce : State :=
  { State.init with
    pools := [⟨bytes "a", [([], 0)], false, false⟩],
    browsers := [⟨[], 5, 0⟩],
    clients := [.returned],
    timers := [0] }

theorem exclusive_ownership_checkedInOnce :
    checkedInOnce.held 0 + checkedInOnce.checkedIn 0 + checkedInOnce.idle 0 +
      checkedInOnce.closed 0 = 1 := by
  have hreach : (machine ⟨1, 10⟩ (.unary 97)).Reachable checkedInOnce :=
    Machine.reachable_of_run
      [.allocate (bytes "a"), .isShutdown 0, .getPool 0, .createPool 0, .popIdle 0 0,
        .backendOk 0 5, .close 0 false, .poolState 0, .checkAge 0 7, .pushIdle 0] rfl
  exact (exclusive_ownership hreach).1 0 (by decide)

end Selebrow.Pool
