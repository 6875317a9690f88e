import Selebrow.Session.Created
import Selebrow.Transition.Entries

/-!
# The calls of the machine are the calls of the code

In the machine of all the calls a `CreateSession` is a walk through sections, and what the
backends do is a choice of the scheduler.  Here is the other end of that choice: for every
manager, browser and clock the code takes such a walk, to the same storage, the same calls of
`Close` and the same result, also when other calls have changed the storage before `Add`.
-/

namespace Selebrow.Session.Create

open Selebrow.Controllers Selebrow.Transition

/-- The state of the machine behind call `i`, against what the code leaves. -/
structure Matches (protocol : BrowserProtocol) (i : Nat) (s : State)
    (storage : LocalSessionStorage) (result : Except Err Session) (closes : List Bool)
    (s' : State) : Prop where
  storage : s'.storage = storage
  closes : s'.closes = s.closes ++ closes.map fun trash => (s.browsers, trash)
  created : ∀ sess, result = .ok sess → s'.calls[i]? = some (.created protocol sess)
  failed : ∀ err, result = .error err →
    ∃ e : CreateError, s'.calls[i]? = some (.failed e) ∧ e.message <+: err.text

/-- The section is one of the `CreateSession` that is call `i`. -/
def creates (i : Nat) : Act → Bool
  | .isShutdown j | .allocate j _ | .waitStarted j _ | .proxyCreate j _ | .add j
  | .closeFailed j => j == i
  | _ => false

/-- Call `i` walks through its own sections to a state that matches, with this storage in
place behind the walk to the middle. -/
def Walks (cfg : Config) (ids : FreshSupply GoString) (protocol : BrowserProtocol) (i : Nat)
    (s : State) (storage' : LocalSessionStorage) (storage : LocalSessionStorage)
    (result : Except Err Session) (closes : List Bool) : Prop :=
  ∃ acts mid acts' s', (acts ++ acts').all (creates i) = true ∧
    (machine cfg ids).run s acts = some mid ∧ mid.storage = s.storage ∧
    (machine cfg ids).run { mid with storage := storage' } acts' = some s' ∧
    Matches protocol i s storage result closes s'

section

variable {cfg : Config} {ids : FreshSupply GoString} {protocol : BrowserProtocol} {i n : Nat}
  {s t : State} {storage' : LocalSessionStorage}

theorem run_cons {a : Act} {acts : List Act} {u : State} (h : step cfg ids s a = some t)
    (hrun : (machine cfg ids).run t acts = some u) : (machine cfg ids).run s (a :: acts) = some u := by
  unfold Machine.run
  rw [show (machine cfg ids).step s a = some t from h]
  exact hrun

theorem calls_setCall {c c' : Call} (h : s.calls[i]? = some c) :
    (s.setCall i c').calls[i]? = some c' := getElem?_set_eq h

theorem prefix_text (msg : GoString) (err : Err) : msg <+: (wrap err msg).text := by
  show msg <+: msg ++ bytes ": " ++ err.text
  rw [List.append_assoc]
  exact List.prefix_append _ _

theorem prefix_timeout (msg : GoString) (err : Err) : msg <+: (wrapTimeoutErr err msg).text :=
  prefix_text msg _

/-! ## The sections -/

theorem step_refused (hc : s.calls[i]? = some (.isShutdown protocol)) (hl : s.storage.locked = false)
    (h : s.storage.shutdown = true) :
    step cfg ids s (.isShutdown i) = some (s.setCall i (.failed .storageShutdown)) := by
  simp only [step, stepIsShutdown, hc, hl, h]
  rfl

theorem step_admitted (hc : s.calls[i]? = some (.isShutdown protocol)) (hl : s.storage.locked = false)
    (h : s.storage.shutdown = false) :
    step cfg ids s (.isShutdown i) = some (s.setCall i (.allocate protocol)) := by
  simp only [step, stepIsShutdown, hc, hl, h]
  rfl

theorem step_allocate (hc : s.calls[i]? = some (.allocate protocol)) :
    step cfg ids s (.allocate i true) =
      some { s.setCall i (.waitStarted protocol s.browsers) with browsers := s.browsers + 1 } := by
  simp only [step, stepAllocate, hc]
  rfl

theorem step_notAllocated (hc : s.calls[i]? = some (.allocate protocol)) :
    step cfg ids s (.allocate i false) = some (s.setCall i (.failed (.allocate protocol))) := by
  simp only [step, stepAllocate, hc]
  rfl

theorem step_notReady (hc : s.calls[i]? = some (.waitStarted protocol n)) :
    step cfg ids s (.waitStarted i false) = some (s.setCall i (.closeFailed n (.notReady protocol))) := by
  simp only [step, stepWaitStarted, hc]
  rfl

theorem step_proxyCreate (hc : s.calls[i]? = some (.proxyCreate n)) {resp : List (GoString × Json)}
    {id : GoString} (hid : extractSessionID resp = .ok id) :
    step cfg ids s (.proxyCreate i (some resp)) = some (s.setCall i (.add .webdriver ⟨id, n⟩)) := by
  simp only [step, stepProxyCreate, hc, hid]

theorem step_notParsed (hc : s.calls[i]? = some (.proxyCreate n)) {resp : List (GoString × Json)}
    {err : GoString} (hid : extractSessionID resp = .error err) :
    step cfg ids s (.proxyCreate i (some resp)) = some (s.setCall i (.closeFailed n (.parse err))) := by
  simp only [step, stepProxyCreate, hc, hid]

/-! ## The end of a walk -/

theorem creates_append {acts : List Act} (h : acts.all (creates i) = true) (acts' : List Act)
    (h' : acts'.all (creates i) = true) : (acts ++ acts').all (creates i) = true := by
  rw [List.all_append, h, h']
  rfl

/-- A walk to the `Close` of a browser that has come to nothing. -/
theorem walks_close {acts : List Act} {mid : State} (hown : acts.all (creates i) = true)
    (hrun : (machine cfg ids).run s acts = some mid)
    (hstorage : mid.storage = s.storage) (hcloses : mid.closes = s.closes) {e : CreateError}
    (hc : mid.calls[i]? = some (.closeFailed s.browsers e)) {err : Err} (herr : e.message <+: err.text) :
    Walks cfg ids protocol i s storage' storage' (.error err) [true] := by
  have hstep : step cfg ids { mid with storage := storage' } (.closeFailed i) =
      some (({ mid with storage := storage' }.setCall i (.failed e)).close s.browsers true) := by
    simp only [step, stepCloseFailed, hc]
  have hown' := creates_append hown [.closeFailed i] (by simp [creates])
  refine ⟨acts, mid, [.closeFailed i], _, hown', hrun, hstorage, run_cons hstep rfl, rfl, ?_, ?_, ?_⟩
  · show mid.closes ++ [(s.browsers, true)] = _
    rw [hcloses]
    rfl
  · intro sess h
    contradiction
  · intro err' h
    cases h
    exact ⟨e, getElem?_set_eq hc, herr⟩

/-- A walk to `Add`, which finds this storage. -/
theorem walks_add {acts : List Act} {mid : State} (hown : acts.all (creates i) = true)
    (hrun : (machine cfg ids).run s acts = some mid)
    (hstorage : mid.storage = s.storage) (hcloses : mid.closes = s.closes) {id : GoString}
    (hc : mid.calls[i]? = some (.add protocol ⟨id, s.browsers⟩)) (hl : storage'.locked = false) :
    (∀ err, storage'.add protocol ⟨id, s.browsers⟩ = .error err →
        Walks cfg ids protocol i s storage' storage'
          (.error (wrap (newError err) (CreateError.store err).message)) [true]) ∧
      ∀ storage, storage'.add protocol ⟨id, s.browsers⟩ = .ok storage →
        Walks cfg ids protocol i s storage' storage (.ok ⟨id, s.browsers⟩) [] := by
  constructor
  · intro err hadd
    have hstep : step cfg ids { mid with storage := storage' } (.add i) =
        some ({ mid with storage := storage' }.setCall i (.closeFailed s.browsers (.store err))) := by
      simp only [step, stepAdd, hc, hl, hadd]
      rfl
    have hc' : ({ mid with storage := storage' }.setCall i
        (.closeFailed s.browsers (.store err))).calls[i]? =
        some (.closeFailed s.browsers (.store err)) := getElem?_set_eq hc
    have hclose : step cfg ids
        ({ mid with storage := storage' }.setCall i (.closeFailed s.browsers (.store err)))
        (.closeFailed i) = some ((({ mid with storage := storage' }.setCall i
          (.closeFailed s.browsers (.store err))).setCall i (.failed (.store err))).close
          s.browsers true) := by
      simp only [step, stepCloseFailed, hc']
    have hown' := creates_append hown [.add i, .closeFailed i] (by simp [creates])
    refine ⟨acts, mid, [.add i, .closeFailed i], _, hown', hrun, hstorage,
      run_cons hstep (run_cons hclose rfl), rfl, ?_, ?_, ?_⟩
    · show mid.closes ++ [(s.browsers, true)] = _
      rw [hcloses]
      rfl
    · intro sess h
      contradiction
    · intro err' h
      cases h
      exact ⟨.store err, getElem?_set_eq hc', prefix_text _ _⟩
  · intro storage hadd
    have hstep : step cfg ids { mid with storage := storage' } (.add i) =
        some { ({ mid with storage := storage' } : State).setCall i
          (.created protocol ⟨id, s.browsers⟩) with storage := storage } := by
      simp only [step, stepAdd, hc, hl, hadd]
      rfl
    have hown' := creates_append hown [.add i] (by simp [creates])
    refine ⟨acts, mid, [.add i], _, hown', hrun, hstorage, run_cons hstep rfl, rfl, ?_, ?_, ?_⟩
    · show mid.closes = _
      rw [hcloses, List.map_nil, List.append_nil]
    · intro sess h
      cases h
      exact getElem?_set_eq hc
    · intro err h
      contradiction

/-- A walk that ends without a browser. -/
theorem walks_failed {acts : List Act} {e : CreateError} {c : Call} (hc : s.calls[i]? = some c)
    {mid : State} (hmid : mid = s.setCall i (.failed e))
    (hown : acts.all (creates i) = true) (hrun : (machine cfg ids).run s acts = some mid)
    {err : Err} (herr : e.message <+: err.text) :
    Walks cfg ids protocol i s storage' storage' (.error err) [] := by
  subst hmid
  have hown' := creates_append hown [] rfl
  refine ⟨acts, _, [], _, hown', hrun, rfl, rfl, rfl, ?_, ?_, ?_⟩
  · show s.closes = _
    rw [List.map_nil, List.append_nil]
  · intro sess h
    contradiction
  · intro err' h
    cases h
    exact ⟨e, getElem?_set_eq hc, herr⟩

theorem setCall_setCall (c c' : Call) : (s.setCall i c).setCall i c' = s.setCall i c' := by
  unfold State.setCall
  rw [List.set_set]

/-- The first two sections, up to the browser. -/
theorem run_begun (cfg : Config) (ids : FreshSupply GoString)
    (hc : s.calls[i]? = some (.isShutdown protocol))
    (hl : s.storage.locked = false) (h : s.storage.shutdown = false) :
    ∃ mid, (machine cfg ids).run s [.isShutdown i, .allocate i true] = some mid ∧
      mid.storage = s.storage ∧ mid.closes = s.closes ∧
      mid.calls[i]? = some (.waitStarted protocol s.browsers) := by
  have hc' : (s.setCall i (.allocate protocol)).calls[i]? = some (.allocate protocol) :=
      calls_setCall hc
  exact ⟨_, run_cons (step_admitted hc hl h) (run_cons (step_allocate hc') rfl), rfl, rfl,
    calls_setCall hc'⟩

theorem run_append {acts acts' : List Act} {u : State}
    (h : (machine cfg ids).run s acts = some t) (h' : (machine cfg ids).run t acts' = some u) :
    (machine cfg ids).run s (acts ++ acts') = some u := by
  induction acts generalizing s with
  | nil =>
    cases h
    exact h'
  | cons a acts ih =>
    unfold Machine.run at h
    cases hs : (machine cfg ids).step s a with
    | none =>
      rw [hs] at h
      contradiction
    | some s' =>
      rw [hs] at h
      exact run_cons hs (ih h)

/-- A further section behind a walk, which moves the call on and does nothing else. -/
theorem run_section {acts : List Act} {mid : State} (hrun : (machine cfg ids).run s acts = some mid)
    {c c' : Call} (hc : mid.calls[i]? = some c) {a : Act}
    (hstep : step cfg ids mid a = some (mid.setCall i c')) :
    (machine cfg ids).run s (acts ++ [a]) = some (mid.setCall i c') ∧
      (mid.setCall i c').calls[i]? = some c' :=
  ⟨run_append hrun (run_cons hstep rfl), calls_setCall hc⟩

/-! ## The calls -/

/-- Without a browser the two services do the same. -/
theorem walks_unallocated (hc : s.calls[i]? = some (.isShutdown protocol))
    (hl : s.storage.locked = false) :
    (s.storage.shutdown = true →
        Walks cfg ids protocol i s storage' storage' (.error (newError errStorageShutdown)) []) ∧
      (s.storage.shutdown = false → ∀ err,
        Walks cfg ids protocol i s storage' storage'
          (.error (wrapTimeoutErr err (CreateError.allocate protocol).message)) []) := by
  constructor
  · intro h
    have htext : CreateError.storageShutdown.message <+: (newError errStorageShutdown).text :=
      List.prefix_refl _
    have hrun : (machine cfg ids).run s [.isShutdown i] =
        some (s.setCall i (.failed .storageShutdown)) := run_cons (step_refused hc hl h) rfl
    exact walks_failed hc rfl (by simp [creates]) hrun htext
  · intro h err
    have hc' : (s.setCall i (.allocate protocol)).calls[i]? = some (.allocate protocol) :=
      calls_setCall hc
    have hrun : (machine cfg ids).run s [.isShutdown i, .allocate i false] =
        some ((s.setCall i (.allocate protocol)).setCall i (.failed (.allocate protocol))) :=
      run_cons (step_admitted hc hl h) (run_cons (step_notAllocated hc') rfl)
    exact walks_failed hc (setCall_setCall _ _) (by simp [creates]) hrun (prefix_timeout _ _)

theorem walks_notReady (hc : s.calls[i]? = some (.isShutdown protocol))
    (hl : s.storage.locked = false) (h : s.storage.shutdown = false) (err : Err) :
    Walks cfg ids protocol i s storage' storage'
      (.error (wrapTimeoutErr err (CreateError.notReady protocol).message)) [true] := by
  obtain ⟨mid, hrun, hstorage, hcloses, hwait⟩ := run_begun cfg ids hc hl h
  obtain ⟨hrun', hc'⟩ := run_section hrun hwait (step_notReady hwait)
  exact walks_close (by simp [creates]) hrun' hstorage hcloses hc' (prefix_timeout _ _)

end

/-- The ways in which `createBrowser` ends. -/
theorem createBrowser_cases (b : PWBackend) :
    (∃ err, createBrowser b =
        (.error (wrapTimeoutErr err (CreateError.allocate .playwright).message), [], [])) ∨
      (∃ err log, createBrowser b =
        (.error (wrapTimeoutErr err (CreateError.notReady .playwright).message), log, [true])) ∨
      ∃ br log, createBrowser b = (.ok br, log, []) := by
  rw [createBrowser]
  split
  · rename_i err _
    exact .inl ⟨err, rfl⟩
  · split
    · rename_i err log _
      exact .inr (.inl ⟨err, log, rfl⟩)
    · rename_i br _ _ _ log _
      exact .inr (.inr ⟨br, log, rfl⟩)

/-- For every manager, browser and clock, and whatever storage the call finds when it comes to
`Add`, each service's `CreateSession` is a walk of its call through the machine. -/
theorem createSession_refines (cfg : Config) (ids : FreshSupply GoString) (i : Nat) (s : State)
    (storage' : LocalSessionStorage) (hl : s.storage.locked = false)
    (hl' : storage'.locked = false) :
    (s.calls[i]? = some (.isShutdown .webdriver) → ∀ b caps,
      Walks cfg ids .webdriver i s storage'
        (createSession b s.storage storage' s.browsers caps).storage
        ((createSession b s.storage storage' s.browsers caps).result.map Created.sess)
        (createSession b s.storage storage' s.browsers caps).closes) ∧
      (s.calls[i]? = some (.isShutdown .playwright) → ∀ b,
        Walks cfg ids .playwright i s storage'
          (createPWSession b s.storage storage' s.browsers (ids.gen s.browsers)).storage
          (createPWSession b s.storage storage' s.browsers (ids.gen s.browsers)).result
          (createPWSession b s.storage storage' s.browsers (ids.gen s.browsers)).closes) := by
  constructor
  · intro hc b caps
    rw [createSession]
    split
    · rename_i h
      exact (walks_unallocated hc hl).1 h
    rename_i h
    have h : s.storage.shutdown = false := by simpa using h
    split
    · rename_i err _
      exact (walks_unallocated hc hl).2 h err
    split
    · rename_i err _ _
      exact walks_notReady hc hl h err
    obtain ⟨mid, hrun, hstorage, hcloses, hwait⟩ := run_begun cfg ids hc hl h
    have hready : step cfg ids mid (.waitStarted i true) = some (mid.setCall i (.proxyCreate s.browsers)) := by
      simp only [step, stepWaitStarted, hwait]
      rfl
    obtain ⟨hrun, hproxy⟩ := run_section hrun hwait hready
    split
    · have hnone : step cfg ids (mid.setCall i (.proxyCreate s.browsers)) (.proxyCreate i none) =
          some ((mid.setCall i (.proxyCreate s.browsers)).setCall i (.closeFailed s.browsers .proxyCreate)) := by
        simp only [step, stepProxyCreate, hproxy]
      obtain ⟨hrun, hfail⟩ := run_section hrun hproxy hnone
      exact walks_close (by simp [creates]) hrun hstorage hcloses hfail (prefix_timeout _ _)
    split
    · rename_i err hid
      obtain ⟨hrun, hfail⟩ := run_section hrun hproxy (step_notParsed hproxy hid)
      exact walks_close (by simp [creates]) hrun hstorage hcloses hfail (prefix_text _ _)
    rename_i id hid
    obtain ⟨hrun, hadd⟩ := run_section hrun hproxy (step_proxyCreate hproxy hid)
    have hend := walks_add (by simp [creates]) hrun hstorage hcloses hadd hl'
    split
    · rename_i err herr
      exact hend.1 err herr
    · rename_i storage hok
      exact hend.2 storage hok
  · intro hc b
    rw [createPWSession]
    split
    · rename_i h
      exact (walks_unallocated hc hl).1 h
    rename_i h
    have h : s.storage.shutdown = false := by simpa using h
    rcases createBrowser_cases b with ⟨err, hb⟩ | ⟨err, log, hb⟩ | ⟨br, log, hb⟩
    · rw [hb]
      exact (walks_unallocated hc hl).2 h err
    · rw [hb]
      exact walks_notReady hc hl h err
    · obtain ⟨mid, hrun, hstorage, hcloses, hwait⟩ := run_begun cfg ids hc hl h
      have hready : step cfg ids mid (.waitStarted i true) =
          some (mid.setCall i (.add .playwright ⟨ids.gen s.browsers, s.browsers⟩)) := by
        simp only [step, stepWaitStarted, hwait]
        rfl
      obtain ⟨hrun, hadd⟩ := run_section hrun hwait hready
      have hend := walks_add (by simp [creates]) hrun hstorage hcloses hadd hl'
      rw [hb]
      simp only
      split
      · rename_i err herr
        exact hend.1 err herr
      · rename_i storage hok
        exact hend.2 storage hok

/-- One call, before its first section. -/
def sampleState : State := { State.init with calls := [.isShutdown .webdriver] }

theorem createSession_refines_dead :
    Walks ⟨true⟩ (FreshSupply.unary 97) .webdriver 0 sampleState .new
      (createSession deadBackend .new .new 0 []).storage
      ((createSession deadBackend .new .new 0 []).result.map Created.sess)
      (createSession deadBackend .new .new 0 []).closes :=
  (createSession_refines ⟨true⟩ (FreshSupply.unary 97) 0 sampleState .new rfl rfl).1 rfl
    deadBackend []

end Selebrow.Session.Create
