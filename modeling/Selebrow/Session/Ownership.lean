import Selebrow.Session.Step
import Selebrow.Transition.Entries
import Selebrow.Transition.Tally

/-!
# Ownership of the browsers

A browser that `Allocate` returned is held by the call that creates a session for
it, or belongs to a stored session, or somebody is bound to close it, or it was
closed.  The storage is keyed by ids that the webdriver chooses, and `DeleteSession`
deletes by id, so this rests on the ids: a webdriver has to answer with an id that
no stored session has and that no call is about to delete.
-/

namespace Selebrow.Session

open Transition

/-- Call `c` creates a session for browser `b`. -/
def Call.holds (b : Nat) : Call → Nat
  | .waitStarted _ br | .proxyCreate br => if br = b then 1 else 0
  | .add _ sess => if sess.br = b then 1 else 0
  | _ => 0

/-- Call `c` is bound to close browser `b`. -/
def Call.claims (b : Nat) : Call → Nat
  | .closeFailed br _ | .shutdownClose br => if br = b then 1 else 0
  | .deleted _ sess _ => if sess.br = b then 1 else 0
  | _ => 0

/-- The session of the entry has browser `b`. -/
def keeps (b : Nat) (e : GoString × Session) : Nat := if e.2.br = b then 1 else 0

namespace State

def held (s : State) (b : Nat) : Nat := tally (Call.holds b) s.calls

def stored (s : State) (b : Nat) : Nat :=
  tally (keeps b) (s.storage.entries .webdriver) + tally (keeps b) (s.storage.entries .playwright)

def claimed (s : State) (b : Nat) : Nat := tally (Call.claims b) s.calls

def closed (s : State) (b : Nat) : Nat := (s.closes.map Prod.fst).count b

def places (s : State) (b : Nat) : Nat := s.held b + s.stored b + s.claimed b + s.closed b

end State

/-- The webdriver sessions that the call may still delete. -/
def Call.handles : Call → List Session
  | .delete .webdriver sess rest => sess :: rest
  | .delete .playwright _ rest | .deleted _ _ rest | .cleanup rest => rest
  | _ => []

/-- The playwright sessions of the call have the ids that were made for them. -/
def Call.Minted (ids : FreshSupply GoString) : Call → Prop
  | .add .playwright sess | .created .playwright sess | .delete .playwright sess _ =>
    sess.id = ids.gen sess.br
  | _ => True

/-- The id that a webdriver answered with is not the id of a stored session, nor of
one that a call may still delete. -/
def FreshId (s : State) : Act → Prop
  | .add i =>
    ∀ sess : Session, s.calls[i]? = some (Call.add .webdriver sess) → s.storage.shutdown = false →
      (∀ found, (sess.id, found) ∉ s.storage.entries .webdriver) ∧
      ∀ c ∈ s.calls, ∀ h ∈ c.handles, h.id ≠ sess.id
  | _ => True

structure Inv (ids : FreshSupply GoString) (s : State) : Prop where
  one : ∀ b, (b < s.browsers → s.places b = 1) ∧ (s.browsers ≤ b → s.places b = 0)
  keyed : ∀ (protocol : BrowserProtocol), ∀ e ∈ s.storage.entries protocol, e.1 = e.2.id
  nodup : ∀ protocol : BrowserProtocol, ((s.storage.entries protocol).map Prod.fst).Nodup
  minted : ∀ e ∈ s.storage.entries .playwright, e.2.id = ids.gen e.2.br
  mintedCalls : ∀ c ∈ s.calls, c.Minted ids
  current : ∀ c ∈ s.calls, ∀ h ∈ c.handles, ∀ e ∈ s.storage.entries .webdriver,
    e.1 = h.id → e.2 = h

theorem init_inv (ids : FreshSupply GoString) : Inv ids State.init := by
  refine ⟨fun b => ⟨by simp [State.init], fun _ => rfl⟩, ?_, ?_, ?_, ?_, ?_⟩ <;> intros <;>
    simp_all [State.init, LocalSessionStorage.new, LocalSessionStorage.entries]

/-! ## The storage -/

theorem entries_setSessions (s : LocalSessionStorage) (protocol p : BrowserProtocol)
    (ps : List (GoString × Session)) :
    (s.setSessions protocol ps).entries p = if p = protocol then ps else s.entries p := by
  rw [LocalSessionStorage.setSessions, LocalSessionStorage.entries, LocalSessionStorage.entries]
  by_cases hp : p = protocol <;> simp [hp]

theorem tally_deleteKey {w : GoString × Session → Nat} {m : List (GoString × Session)}
    (hn : (m.map Prod.fst).Nodup) {k : GoString} {sess : Session} (h : (k, sess) ∈ m) :
    tally w (deleteKey m k) + w (k, sess) = tally w m := by
  induction m with
  | nil => simp at h
  | cons e m ih =>
    rw [List.map_cons, List.nodup_cons] at hn
    rw [deleteKey_cons, tally_cons]
    rcases List.mem_cons.mp h with rfl | h
    · have hnot : ∀ v, (k, v) ∉ m := fun v hv =>
        hn.1 (List.mem_map.mpr ⟨(k, v), hv, rfl⟩)
      rw [if_pos rfl, deleteKey_eq_self hnot, Nat.add_comm]
    · have hne : e.1 ≠ k := fun he => hn.1 (he ▸ List.mem_map_of_mem (f := Prod.fst) h)
      have := ih hn.2 h
      rw [if_neg hne, tally_cons]
      omega

/-- Replacing the entries of one protocol moves the count by their difference. -/
theorem stored_setSessions (s : State) (protocol : BrowserProtocol)
    (ps : List (GoString × Session)) (b : Nat) :
    State.stored { s with storage := s.storage.setSessions protocol ps } b +
        tally (keeps b) (s.storage.entries protocol) =
      s.stored b + tally (keeps b) ps := by
  simp only [State.stored, entries_setSessions]
  cases protocol <;> simp <;> omega

theorem stored_le {s : State} {protocol : BrowserProtocol} {e : GoString × Session}
    (h : e ∈ s.storage.entries protocol) : 0 < s.stored e.2.br := by
  obtain ⟨i, hi⟩ := List.mem_iff_getElem?.mp h
  have := le_tally (keeps e.2.br) hi
  simp only [keeps, if_true] at this
  rw [State.stored]
  cases protocol <;> omega

/-! ## Steps -/

variable {cfg : Config} {ids : FreshSupply GoString} {s : State}

theorem continueCleanup_holds (b : Nat) (rest : List Session) :
    (continueCleanup rest).holds b = 0 := by
  cases rest <;> rfl

theorem continueCleanup_claims (b : Nat) (rest : List Session) :
    (continueCleanup rest).claims b = 0 := by
  cases rest <;> rfl

theorem continueCleanup_handles (rest : List Session) : (continueCleanup rest).handles = rest := by
  cases rest <;> rfl

theorem continueCleanup_minted (rest : List Session) : (continueCleanup rest).Minted ids := by
  cases rest <;> trivial

/-- A call that moves on keeps what it holds or claims, and looks up no session. -/
theorem moves_spec {i : Nat} {a : Act} {c c' : Call} (h : Moves ids s i a c c') :
    (∀ b, c'.holds b + c'.claims b = c.holds b + c.claims b) ∧
      (∀ x ∈ c'.handles, x ∈ c.handles) ∧ (c.Minted ids → c'.Minted ids) := by
  cases h with
  | notFound protocol sess rest =>
    refine ⟨fun b => ?_, fun x hx => ?_, fun _ => continueCleanup_minted rest⟩
    · rw [continueCleanup_holds, continueCleanup_claims]
      rfl
    · rw [continueCleanup_handles] at hx
      cases protocol <;> simp [Call.handles, hx]
  | skipped sess rest =>
    refine ⟨fun b => ?_, fun x hx => ?_, fun _ => continueCleanup_minted rest⟩
    · rw [continueCleanup_holds, continueCleanup_claims]
      rfl
    · rw [continueCleanup_handles] at hx
      simp [Call.handles, hx]
  | disconnect sess => exact ⟨fun _ => rfl, by simp [Call.handles], id⟩
  | playwrightReady br => exact ⟨fun _ => rfl, by simp [Call.handles], fun _ => rfl⟩
  | _ => exact ⟨by simp [Call.holds, Call.claims], by simp [Call.handles], fun _ => trivial⟩

theorem inv_of_move {i : Nat} {a : Act} {c c' : Call} (hi : Inv ids s)
    (hc : s.calls[i]? = some c) (hm : Moves ids s i a c c') : Inv ids (s.setCall i c') := by
  obtain ⟨hsum, hsub, hmint⟩ := moves_spec hm
  have hmem := List.mem_of_getElem? hc
  refine ⟨fun b => ?_, hi.keyed, hi.nodup, hi.minted,
    forall_mem_set hi.mintedCalls (hmint (hi.mintedCalls c hmem)),
    forall_mem_set hi.current (fun x hx => hi.current c hmem x (hsub x hx))⟩
  have hone := hi.one b
  have h1 := tally_set (Call.holds b) c' hc
  have h2 := tally_set (Call.claims b) c' hc
  have h3 := hsum b
  simp only [State.places, State.held, State.stored, State.claimed, State.closed,
    State.setCall] at *
  omega

/-- The number of closes of a browser after one more. -/
theorem closed_close (s : State) (i : Nat) (c : Call) (br : Nat) (trash : Bool) (b : Nat) :
    ((s.setCall i c).close br trash).closed b = s.closed b + if br = b then 1 else 0 := by
  show ((s.closes ++ [(br, trash)]).map Prod.fst).count b =
    (s.closes.map Prod.fst).count b + if br = b then 1 else 0
  rw [List.map_append, List.count_append]
  by_cases hb : br = b <;> simp [hb]

theorem inv_of_close {i : Nat} {a : Act} {c c' : Call} {br : Nat} {trash : Bool} (hi : Inv ids s)
    (hc : s.calls[i]? = some c) (hd : Closes cfg i a c br trash c') :
    Inv ids ((s.setCall i c').close br trash) := by
  have hspec : (∀ b, c.holds b = 0 ∧ c'.holds b = 0 ∧ c'.claims b = 0 ∧
      c.claims b = if br = b then 1 else 0) ∧
      (∀ x ∈ c'.handles, x ∈ c.handles) ∧ c'.Minted ids := by
    cases hd with
    | deleted protocol sess rest ok =>
      refine ⟨fun b => ⟨rfl, continueCleanup_holds b rest, continueCleanup_claims b rest, rfl⟩,
        fun x hx => ?_, continueCleanup_minted rest⟩
      rw [continueCleanup_handles] at hx
      exact hx
    | _ => exact ⟨fun b => ⟨rfl, rfl, rfl, rfl⟩, fun _ h => h, trivial⟩
  obtain ⟨hsum, hsub, hmint⟩ := hspec
  have hmem := List.mem_of_getElem? hc
  refine ⟨fun b => ?_, hi.keyed, hi.nodup, hi.minted, forall_mem_set hi.mintedCalls hmint,
    forall_mem_set hi.current (fun x hx => hi.current c hmem x (hsub x hx))⟩
  have hone := hi.one b
  have h1 := tally_set (Call.holds b) c' hc
  have h2 := tally_set (Call.claims b) c' hc
  have h3 := closed_close s i c' br trash b
  obtain ⟨h4, h5, h6, h7⟩ := hsum b
  rw [State.places] at hone ⊢
  rw [h3]
  simp only [State.held, State.stored, State.claimed, State.setCall, State.close] at *
  omega

/-- A session of the storage that has the id of one that a call may delete is that
session. -/
theorem found_eq (hi : Inv ids s) {i : Nat} {protocol : BrowserProtocol} {sess found : Session}
    {rest : List Session} (hc : s.calls[i]? = some (.delete protocol sess rest))
    (hf : (sess.id, found) ∈ s.storage.entries protocol) : found = sess := by
  have hmem := List.mem_of_getElem? hc
  cases protocol with
  | webdriver => exact hi.current _ hmem sess (by simp [Call.handles]) _ hf rfl
  | playwright =>
    -- Both have ids that were made for their browsers, and the ids are equal.
    have hkey : sess.id = found.id := hi.keyed .playwright _ hf
    have hfound : found.id = ids.gen found.br := hi.minted _ hf
    have hsess : sess.id = ids.gen sess.br := hi.mintedCalls _ hmem
    have hbr : found.br = sess.br := ids.injective (by rw [← hfound, ← hsess, hkey])
    cases found
    cases sess
    simp_all

/-- The id of a session that is added is not in the storage. -/
theorem notMem_of_add (hi : Inv ids s) (ha : FreshId s (.add i)) {protocol : BrowserProtocol}
    {sess : Session} (hc : s.calls[i]? = some (.add protocol sess))
    (hs : s.storage.shutdown = false) (v : Session) :
    (sess.id, v) ∉ s.storage.entries protocol := by
  cases protocol with
  | webdriver => exact (ha sess hc hs).1 v
  | playwright =>
    intro hv
    have hkey : sess.id = v.id := hi.keyed .playwright _ hv
    have hv' : v.id = ids.gen v.br := hi.minted _ hv
    have hsess : sess.id = ids.gen sess.br := hi.mintedCalls _ (List.mem_of_getElem? hc)
    have hbr : v.br = sess.br := ids.injective (by rw [← hv', ← hsess, hkey])
    -- The browser would be stored and held by the call at once.
    have h1 := stored_le hv
    have h2 := le_tally (Call.holds sess.br) hc
    have hone := hi.one sess.br
    simp only [hbr, Call.holds, if_true] at h1 h2
    simp only [State.places, State.held] at hone
    omega

theorem inv_of_store {i : Nat} {protocol : BrowserProtocol} {sess : Session} (hi : Inv ids s)
    (ha : FreshId s (.add i)) (hc : s.calls[i]? = some (.add protocol sess))
    (hs : s.storage.shutdown = false) :
    Inv ids { s.setCall i (.created protocol sess) with
              storage := s.storage.setSessions protocol
                (insertKey (s.storage.entries protocol) sess.id sess) } := by
  have hnew := notMem_of_add hi ha hc hs
  have hins : insertKey (s.storage.entries protocol) sess.id sess =
      (sess.id, sess) :: s.storage.entries protocol := by
    rw [insertKey, deleteKey_eq_self hnew]
  have hmem : ∀ (p : BrowserProtocol) (e : GoString × Session),
      e ∈ (s.storage.setSessions protocol
        (insertKey (s.storage.entries protocol) sess.id sess)).entries p →
      (p = protocol ∧ e = (sess.id, sess)) ∨ e ∈ s.storage.entries p := by
    intro p e he
    rw [entries_setSessions, hins] at he
    split at he
    · rename_i hp
      rcases List.mem_cons.mp he with he | he
      · exact .inl ⟨hp, he⟩
      · exact .inr (hp ▸ he)
    · exact .inr he
  have hmint : (Call.created protocol sess).Minted ids := by
    have := hi.mintedCalls _ (List.mem_of_getElem? hc)
    cases protocol <;> exact this
  refine ⟨fun b => ?_, fun p e he => ?_, fun p => ?_, fun e he => ?_,
    forall_mem_set hi.mintedCalls hmint, ?_⟩
  · have hone := hi.one b
    have h1 := tally_set (Call.holds b) (.created protocol sess) hc
    have h2 := tally_set (Call.claims b) (.created protocol sess) hc
    have h3 := stored_setSessions s protocol
      (insertKey (s.storage.entries protocol) sess.id sess) b
    rw [hins, tally_cons] at h3
    simp only [State.places, State.held, State.stored, State.claimed, State.closed, State.setCall,
      Call.holds, Call.claims, keeps, hins] at *
    omega
  · rcases hmem p e he with ⟨_, rfl⟩ | he
    · rfl
    · exact hi.keyed p e he
  · simp only [entries_setSessions]
    split
    · exact nodup_insertKey _ _ (hi.nodup protocol)
    · exact hi.nodup p
  · rcases hmem .playwright e he with ⟨hp, rfl⟩ | he
    · subst hp
      exact hi.mintedCalls _ (List.mem_of_getElem? hc)
    · exact hi.minted e he
  · have hold : ∀ c ∈ s.calls, ∀ h ∈ c.handles,
        ∀ e ∈ (s.storage.setSessions protocol
          (insertKey (s.storage.entries protocol) sess.id sess)).entries .webdriver,
          e.1 = h.id → e.2 = h := by
      intro c hcall h hh e he heq
      rcases hmem .webdriver e he with ⟨hp, rfl⟩ | he
      · subst hp
        exact absurd heq.symm ((ha sess hc hs).2 c hcall h hh)
      · exact hi.current c hcall h hh e he heq
    exact forall_mem_set hold (by simp [Call.handles])

theorem inv_of_delete {i : Nat} {protocol : BrowserProtocol} {sess : Session}
    {rest : List Session} (hi : Inv ids s)
    (hc : s.calls[i]? = some (.delete protocol sess rest))
    (hf : (sess.id, sess) ∈ s.storage.entries protocol) :
    Inv ids { s.setCall i (.deleted protocol sess rest) with
              storage := s.storage.setSessions protocol
                (deleteKey (s.storage.entries protocol) sess.id) } := by
  have hmem : ∀ (p : BrowserProtocol) (e : GoString × Session),
      e ∈ (s.storage.setSessions protocol
        (deleteKey (s.storage.entries protocol) sess.id)).entries p → e ∈ s.storage.entries p := by
    intro p e he
    rw [entries_setSessions] at he
    split at he
    · rename_i hp
      exact hp ▸ (mem_deleteKey.mp he).1
    · exact he
  have hcall := List.mem_of_getElem? hc
  refine ⟨fun b => ?_, fun p e he => hi.keyed p e (hmem p e he), fun p => ?_,
    fun e he => hi.minted e (hmem .playwright e he), forall_mem_set hi.mintedCalls trivial,
    forall_mem_set (fun c hc h hh e he => hi.current c hc h hh e (hmem .webdriver e he)) ?_⟩
  · have hone := hi.one b
    have h1 := tally_set (Call.holds b) (.deleted protocol sess rest) hc
    have h2 := tally_set (Call.claims b) (.deleted protocol sess rest) hc
    have h3 := stored_setSessions s protocol
      (deleteKey (s.storage.entries protocol) sess.id) b
    have h4 := tally_deleteKey (w := keeps b) (hi.nodup protocol) hf
    simp only [State.places, State.held, State.stored, State.claimed, State.closed, State.setCall,
      Call.holds, Call.claims, keeps] at *
    omega
  · simp only [entries_setSessions]
    split
    · exact nodup_deleteKey _ (hi.nodup protocol)
    · exact hi.nodup p
  · intro h hh e he
    have hh : h ∈ (Call.delete protocol sess rest).handles := by
      cases protocol
      · exact List.mem_cons_of_mem _ hh
      · exact hh
    exact hi.current _ hcall h hh e (hmem .webdriver e he)

theorem tally_all (s : State) (b : Nat) :
    tally (fun sess => if sess.br = b then 1 else 0) s.storage.all = s.stored b := by
  rw [LocalSessionStorage.all, tally_append, list_eq, list_eq, tally_map, tally_map]
  rfl

theorem inv_of_shutdown (hi : Inv ids s) {lo hi' : Nat} :
    Inv ids { s with
      storage := s.storage.shutDown,
      calls := s.calls ++ (s.storage.all.map fun sess => Call.shutdownClose sess.br) ++
        [.shutdownWait lo hi'] } := by
  have hnone : ∀ p, s.storage.shutDown.entries p = [] := fun _ => rfl
  refine ⟨fun b => ?_, by simp [hnone], by simp [hnone], by simp [hnone],
    forall_mem_append (forall_mem_append hi.mintedCalls ?_) (by simp [Call.Minted]), by simp [hnone]⟩
  · have hone := hi.one b
    -- Each stored session becomes one goroutine.
    have h1 : tally (Call.claims b) (s.storage.all.map fun sess => Call.shutdownClose sess.br) =
        s.stored b := by
      rw [tally_map, ← tally_all]
      rfl
    have h2 : tally (Call.holds b) (s.storage.all.map fun sess => Call.shutdownClose sess.br) = 0 := by
      rw [tally_map]
      exact tally_eq_zero fun _ _ => rfl
    simp only [State.places, State.held, State.stored, State.claimed, State.closed, hnone,
      tally_append, tally_cons, tally_nil, Call.holds, Call.claims] at *
    omega
  · intro d hd
    obtain ⟨sess, _, rfl⟩ := List.mem_map.mp hd
    trivial

theorem step_inv {s' : State} {a : Act} (hi : Inv ids s) (ha : FreshId s a)
    (h : step cfg ids s a = some s') : Inv ids s' := by
  have happend : ∀ c : Call, (∀ b, c.holds b = 0) → (∀ b, c.claims b = 0) → c.Minted ids →
      (∀ x ∈ c.handles, ∀ e ∈ s.storage.entries .webdriver, e.1 = x.id → e.2 = x) →
      Inv ids { s with calls := s.calls ++ [c] } := by
    intro c hholds hclaims hmint hcur
    refine ⟨fun b => ?_, hi.keyed, hi.nodup, hi.minted,
      forall_mem_append hi.mintedCalls (by simpa using hmint),
      forall_mem_append hi.current (by simpa using hcur)⟩
    have hone := hi.one b
    simp only [State.places, State.held, State.stored, State.claimed, State.closed, tally_append,
      tally_cons, tally_nil, hholds, hclaims] at *
    omega
  cases step_sound h with
  | create protocol =>
    exact happend _ (fun _ => rfl) (fun _ => rfl) trivial (by simp [Call.handles])
  | move i _ c c' hc hm => exact inv_of_move hi hc hm
  | allocate i protocol hc =>
    refine ⟨fun b => ?_, hi.keyed, hi.nodup, hi.minted, forall_mem_set hi.mintedCalls trivial,
      forall_mem_set hi.current (by simp [Call.handles])⟩
    have hone := hi.one b
    have h1 := tally_set (Call.holds b) (.waitStarted protocol s.browsers) hc
    have h2 := tally_set (Call.claims b) (.waitStarted protocol s.browsers) hc
    simp only [State.places, State.held, State.stored, State.claimed, State.closed, State.setCall,
      Call.holds, Call.claims] at *
    split at h1 <;> omega
  | store i protocol sess hc hs => exact inv_of_store hi ha hc hs
  | close i _ c c' br trash hc hd => exact inv_of_close hi hc hd
  | nothing protocol id => exact hi
  | found protocol id sess hg =>
    have hid : id = sess.id := hi.keyed protocol _ hg
    subst hid
    refine happend _ (fun _ => rfl) (fun _ => rfl) ?_ ?_
    · cases protocol with
      | webdriver => trivial
      | playwright => exact hi.minted _ hg
    · intro x hx e he heq
      cases protocol with
      | webdriver =>
        obtain rfl : x = sess := by simpa [Call.handles] using hx
        exact value_unique (hi.nodup .webdriver) (heq ▸ he) hg
      | playwright => simp [Call.handles] at hx
  | delete i protocol sess rest hc hk =>
    obtain ⟨found, hf⟩ := hk
    exact inv_of_delete hi hc (found_eq hi hc hf ▸ hf)
  | list =>
    refine happend _ (fun b => continueCleanup_holds b _) (fun b => continueCleanup_claims b _)
      (continueCleanup_minted _) ?_
    intro x hx e he heq
    rw [continueCleanup_handles, list_eq] at hx
    obtain ⟨e', he', rfl⟩ := List.mem_map.mp hx
    rw [← hi.keyed .webdriver e' he'] at heq
    exact value_unique (hi.nodup .webdriver) (heq ▸ he) he'
  | shutdown => exact inv_of_shutdown hi
  | shutdownDone i lo hi' _ hc =>
    refine ⟨fun b => ?_, hi.keyed, hi.nodup, hi.minted, forall_mem_set hi.mintedCalls trivial,
      forall_mem_set hi.current (by simp [Call.handles])⟩
    have hone := hi.one b
    have h1 := tally_set (Call.holds b) .done hc
    have h2 := tally_set (Call.claims b) .done hc
    simp only [State.places, State.held, State.stored, State.claimed, State.closed, State.setCall,
      Call.holds, Call.claims, LocalSessionStorage.entries] at *
    omega

theorem reach_inv (h : (machine cfg ids).Reach FreshId s) : Inv ids s :=
  h.invariant (init_inv ids) (fun _ _ _ hi ha hs => step_inv hi ha hs)

/-! ## Ownership -/

structure Ownership (cfg : Config) (ids : FreshSupply GoString) (s : State) : Prop where
  /-- Held by one call, or of one stored session, or claimed for closing. -/
  one : ∀ b < s.browsers, s.held b + s.stored b + (s.claimed b + s.closed b) = 1
  once : ∀ b, s.closed b ≤ 1
  /-- `DeleteSession` removes no session but its own. -/
  own : ∀ (i : Nat) (protocol : BrowserProtocol) (sess : Session) (rest : List Session) (s' : State),
    s.calls[i]? = some (Call.delete protocol sess rest) → step cfg ids s (.delete i) = some s' →
      ∀ (p : BrowserProtocol), ∀ e ∈ s.storage.entries p, e ∉ s'.storage.entries p →
        p = protocol ∧ e.2 = sess
  /-- When no call is in flight the browsers that are not closed are as many as the
  stored sessions. -/
  quiescent : (∀ c ∈ s.calls, c.finished = true) →
    s.browsers = s.closes.length + s.storage.all.length

theorem finished_weights {c : Call} (h : c.finished = true) (b : Nat) :
    c.holds b = 0 ∧ c.claims b = 0 := by
  cases c <;> simp_all [Call.finished, Call.holds, Call.claims]

/-- Browsers are owned as they should be in every run whose webdrivers answer with
fresh ids. -/
theorem browser_ownership (h : (machine cfg ids).Reach FreshId s) : Ownership cfg ids s := by
  have hi := reach_inv h
  refine ⟨fun b hb => ?_, fun b => ?_, fun i protocol sess rest s' hc hs p e he hgone => ?_,
    fun hfin => ?_⟩
  · have := (hi.one b).1 hb
    rw [State.places] at this
    omega
  · have := hi.one b
    rw [State.places] at this
    omega
  · generalize ha : Act.delete i = a at hs
    cases step_sound hs with
    | delete j protocol' sess' rest' hc' hk =>
      obtain rfl := Act.delete.inj ha
      rw [hc, Option.some.injEq, Call.delete.injEq] at hc'
      obtain ⟨rfl, rfl, rfl⟩ := hc'
      rw [entries_setSessions] at hgone
      split at hgone
      · rename_i hp
        subst hp
        rw [mem_deleteKey, not_and, Classical.not_not] at hgone
        exact ⟨rfl, found_eq hi hc (by rw [← hgone he]; exact he)⟩
      · exact absurd he hgone
    | move j _ c c' _ _ => exact absurd he hgone
    | close j _ c c' br trash _ _ => exact absurd he hgone
    | _ => simp at ha
  · have hlen := length_of_count (l := s.storage.all.map Session.br ++ s.closes.map Prod.fst)
      (n := s.browsers) fun b => ?_
    · rw [List.length_append, List.length_map, List.length_map] at hlen
      omega
    · have hone := hi.one b
      have h1 : s.held b = 0 := tally_eq_zero fun c hc => (finished_weights (hfin c hc) b).1
      have h2 : s.claimed b = 0 := tally_eq_zero fun c hc => (finished_weights (hfin c hc) b).2
      have h3 := tally_all s b
      rw [tally_eq_count] at h3
      rw [List.count_append, h3]
      rw [State.places, h1, h2, State.closed] at hone
      omega

/-- A webdriver session was created and nothing else happened. -/
def oneStored : State :=
  { storage := LocalSessionStorage.new.setSessions .webdriver [(bytes "a", ⟨bytes "a", 0⟩)],
    browsers := 1,
    calls := [.created .webdriver ⟨bytes "a", 0⟩],
    closes := [] }

/-- A second session was created, and the first one deleted. -/
def firstDeleted : State :=
  { storage := (oneStored.storage.setSessions .webdriver
      [(bytes "b", ⟨bytes "b", 1⟩), (bytes "a", ⟨bytes "a", 0⟩)]).setSessions .webdriver
        [(bytes "b", ⟨bytes "b", 1⟩)],
    browsers := 2,
    calls := [.created .webdriver ⟨bytes "a", 0⟩, .created .webdriver ⟨bytes "b", 1⟩, .done],
    closes := [(0, false)] }

theorem browser_ownership_firstDeleted :
    Ownership ⟨true⟩ (.unary 97) firstDeleted ∧
      firstDeleted.browsers = firstDeleted.closes.length + firstDeleted.storage.all.length := by
  have hreach : (machine ⟨true⟩ (.unary 97)).Reach FreshId firstDeleted := by
    refine Machine.leads_of_run
      [.create .webdriver, .isShutdown 0, .allocate 0 true, .waitStarted 0 true,
        .proxyCreate 0 (some [(bytes "sessionId", .string (bytes "a"))]), .add 0,
        .create .webdriver, .isShutdown 1, .allocate 1 true, .waitStarted 1 true,
        .proxyCreate 1 (some [(bytes "sessionId", .string (bytes "b"))]), .add 1,
        .find .webdriver (bytes "a"), .delete 2, .closeDeleted 2 true] ?_ rfl
    iterate 5 refine ⟨trivial, ?_⟩
    refine ⟨fun sess hc _ => ?_, ?_⟩
    · cases hc
      constructor
      · intro found hf
        exact List.not_mem_nil (show (bytes "a", found) ∈ [] from hf)
      · show ∀ c ∈ [Call.add .webdriver ⟨bytes "a", 0⟩], ∀ h ∈ c.handles, h.id ≠ bytes "a"
        simp [Call.handles]
    iterate 5 refine ⟨trivial, ?_⟩
    refine ⟨fun sess hc _ => ?_, trivial, trivial, trivial, trivial⟩
    cases hc
    constructor
    · intro found hf
      have hmem : (bytes "b", found) ∈ [(bytes "a", (⟨bytes "a", 0⟩ : Session))] := hf
      rw [List.mem_singleton] at hmem
      have hid : bytes "b" = bytes "a" := congrArg Prod.fst hmem
      exact absurd hid (by decide)
    · show ∀ c ∈ [Call.created .webdriver ⟨bytes "a", 0⟩, .add .webdriver ⟨bytes "b", 1⟩],
        ∀ h ∈ c.handles, h.id ≠ bytes "b"
      simp [Call.handles]
  have howned := browser_ownership hreach
  exact ⟨howned, howned.quiescent (by decide)⟩

/-- Two webdrivers answered with the same id. -/
def overwritten : State :=
  { storage := oneStored.storage.setSessions .webdriver [(bytes "a", ⟨bytes "a", 1⟩)],
    browsers := 2,
    calls := [.created .webdriver ⟨bytes "a", 0⟩, .created .webdriver ⟨bytes "a", 1⟩],
    closes := [] }

/-- Two calls looked up session `a` of browser 0.  The first deleted it, browser 1 got a
session with the same id, and the second call deleted that. -/
def deletedByAnother : State :=
  { storage := ((oneStored.storage.setSessions .webdriver []).setSessions .webdriver
      [(bytes "a", ⟨bytes "a", 1⟩)]).setSessions .webdriver [],
    browsers := 2,
    calls := [.created .webdriver ⟨bytes "a", 0⟩, .done, .deleted .webdriver ⟨bytes "a", 0⟩ [],
      .created .webdriver ⟨bytes "a", 1⟩],
    closes := [(0, false)] }

/-- The browser of the session that was overwritten belongs to nobody: every call has
returned, two browsers run, and one session is stored.  The browser of a session that was
deleted in place of another belongs to nobody, and the other's is closed twice. -/
theorem browser_lost :
    (machine ⟨true⟩ (.unary 97)).Reachable overwritten ∧
    overwritten.held 0 + overwritten.stored 0 + (overwritten.claimed 0 + overwritten.closed 0) = 0 ∧
    (∀ c ∈ overwritten.calls, c.finished = true) ∧
    overwritten.browsers ≠ overwritten.closes.length + overwritten.storage.all.length ∧
    (machine ⟨true⟩ (.unary 97)).Reachable deletedByAnother ∧
    deletedByAnother.held 1 + deletedByAnother.stored 1 +
      (deletedByAnother.claimed 1 + deletedByAnother.closed 1) = 0 ∧
    deletedByAnother.claimed 0 + deletedByAnother.closed 0 = 2 ∧
    ¬ ∀ s, (machine ⟨true⟩ (.unary 97)).Reachable s → Ownership ⟨true⟩ (.unary 97) s := by
  have hreach : (machine ⟨true⟩ (.unary 97)).Reachable overwritten :=
    Machine.reachable_of_run
      [.create .webdriver, .isShutdown 0, .allocate 0 true, .waitStarted 0 true,
        .proxyCreate 0 (some [(bytes "sessionId", .string (bytes "a"))]), .add 0,
        .create .webdriver, .isShutdown 1, .allocate 1 true, .waitStarted 1 true,
        .proxyCreate 1 (some [(bytes "sessionId", .string (bytes "a"))]), .add 1] rfl
  have hdeleted : (machine ⟨true⟩ (.unary 97)).Reachable deletedByAnother :=
    Machine.reachable_of_run
      [.create .webdriver, .isShutdown 0, .allocate 0 true, .waitStarted 0 true,
        .proxyCreate 0 (some [(bytes "sessionId", .string (bytes "a"))]), .add 0,
        .find .webdriver (bytes "a"), .find .webdriver (bytes "a"), .delete 1, .closeDeleted 1 true,
        .create .webdriver, .isShutdown 3, .allocate 3 true, .waitStarted 3 true,
        .proxyCreate 3 (some [(bytes "sessionId", .string (bytes "a"))]), .add 3, .delete 2] rfl
  refine ⟨hreach, rfl, by decide, by decide, hdeleted, rfl, rfl, fun h => ?_⟩
  exact absurd ((h overwritten hreach).one 0 (by decide)) (by decide)

end Selebrow.Session
