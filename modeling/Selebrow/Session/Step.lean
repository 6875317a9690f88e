import Selebrow.Session.Service

/-!
# What a step of the session services can do

`Step` is the step function read as a relation.  `Moves` gathers the steps that move
one call on and touch neither the storage nor a browser, `Closes` the three places
where `Browser.Close` is called.
-/

namespace Selebrow.Session

open Transition

/-- Call `i` moves from one section to the next, and nothing else changes. -/
inductive Moves (ids : FreshSupply GoString) (s : State) (i : Nat) : Act → Call → Call → Prop
  | refused (protocol : BrowserProtocol) :
      Moves ids s i (.isShutdown i) (.isShutdown protocol) (.failed .storageShutdown)
  | admitted (protocol : BrowserProtocol) :
      Moves ids s i (.isShutdown i) (.isShutdown protocol) (.allocate protocol)
  | allocateErr (protocol : BrowserProtocol) :
      Moves ids s i (.allocate i false) (.allocate protocol) (.failed (.allocate protocol))
  | webdriverReady (br : Nat) :
      Moves ids s i (.waitStarted i true) (.waitStarted .webdriver br) (.proxyCreate br)
  | playwrightReady (br : Nat) :
      Moves ids s i (.waitStarted i true) (.waitStarted .playwright br)
        (.add .playwright ⟨ids.gen br, br⟩)
  | notReady (protocol : BrowserProtocol) (br : Nat) :
      Moves ids s i (.waitStarted i false) (.waitStarted protocol br)
        (.closeFailed br (.notReady protocol))
  | proxied (br : Nat) (resp : List (GoString × Json)) (id : GoString)
      (h : extractSessionID resp = .ok id) :
      Moves ids s i (.proxyCreate i (some resp)) (.proxyCreate br) (.add .webdriver ⟨id, br⟩)
  | notProxied (br : Nat) (resp : Option (List (GoString × Json))) (err : CreateError) :
      Moves ids s i (.proxyCreate i resp) (.proxyCreate br) (.closeFailed br err)
  | notStored (protocol : BrowserProtocol) (sess : Session) (err : CreateError) :
      Moves ids s i (.add i) (.add protocol sess) (.closeFailed sess.br err)
  | disconnect (sess : Session) :
      Moves ids s i (.disconnect i) (.created .playwright sess) (.delete .playwright sess [])
  | notFound (protocol : BrowserProtocol) (sess : Session) (rest : List Session) :
      Moves ids s i (.delete i) (.delete protocol sess rest) (continueCleanup rest)
  | skipped (sess : Session) (rest : List Session) :
      Moves ids s i (.cleanup i false) (.cleanup (sess :: rest)) (continueCleanup rest)
  | expired (sess : Session) (rest : List Session) :
      Moves ids s i (.cleanup i true) (.cleanup (sess :: rest)) (.delete .webdriver sess rest)

/-- Call `i` calls `Close` on a browser, with this `trash`. -/
inductive Closes (cfg : Config) (i : Nat) : Act → Call → Nat → Bool → Call → Prop
  | failed (br : Nat) (err : CreateError) :
      Closes cfg i (.closeFailed i) (.closeFailed br err) br true (.failed err)
  | deleted (protocol : BrowserProtocol) (sess : Session) (rest : List Session) (ok : Bool) :
      Closes cfg i (.closeDeleted i ok) (.deleted protocol sess rest) sess.br
        (trash cfg protocol ok) (continueCleanup rest)
  | shutdown (br : Nat) : Closes cfg i (.shutdownClose i) (.shutdownClose br) br true .done

inductive Step (cfg : Config) (ids : FreshSupply GoString) (s : State) : Act → State → Prop
  | create (protocol : BrowserProtocol) :
      Step cfg ids s (.create protocol) { s with calls := s.calls ++ [.isShutdown protocol] }
  | move (i : Nat) (a : Act) (c c' : Call) (hc : s.calls[i]? = some c)
      (hm : Moves ids s i a c c') : Step cfg ids s a (s.setCall i c')
  | allocate (i : Nat) (protocol : BrowserProtocol)
      (hc : s.calls[i]? = some (.allocate protocol)) :
      Step cfg ids s (.allocate i true)
        { s.setCall i (.waitStarted protocol s.browsers) with browsers := s.browsers + 1 }
  | store (i : Nat) (protocol : BrowserProtocol) (sess : Session)
      (hc : s.calls[i]? = some (.add protocol sess)) (hs : s.storage.shutdown = false) :
      Step cfg ids s (.add i)
        { s.setCall i (.created protocol sess) with
          storage := s.storage.setSessions protocol
            (insertKey (s.storage.entries protocol) sess.id sess) }
  | close (i : Nat) (a : Act) (c c' : Call) (br : Nat) (trash : Bool)
      (hc : s.calls[i]? = some c) (hd : Closes cfg i a c br trash c') :
      Step cfg ids s a ((s.setCall i c').close br trash)
  | nothing (protocol : BrowserProtocol) (id : GoString) : Step cfg ids s (.find protocol id) s
  | found (protocol : BrowserProtocol) (id : GoString) (sess : Session)
      (hg : (id, sess) ∈ s.storage.entries protocol) :
      Step cfg ids s (.find protocol id)
        { s with calls := s.calls ++ [.delete protocol sess []] }
  | delete (i : Nat) (protocol : BrowserProtocol) (sess : Session) (rest : List Session)
      (hc : s.calls[i]? = some (.delete protocol sess rest))
      (hk : ∃ found, (sess.id, found) ∈ s.storage.entries protocol) :
      Step cfg ids s (.delete i)
        { s.setCall i (.deleted protocol sess rest) with
          storage := s.storage.setSessions protocol
            (deleteKey (s.storage.entries protocol) sess.id) }
  | list :
      Step cfg ids s .listSessions
        { s with calls := s.calls ++ [continueCleanup (s.storage.list .webdriver)] }
  | shutdown :
      Step cfg ids s .shutdown
        { s with
          storage := s.storage.shutDown,
          calls := s.calls ++ (s.storage.all.map fun sess => Call.shutdownClose sess.br) ++
            [.shutdownWait s.calls.length (s.calls.length + s.storage.all.length)] }
  | shutdownDone (i lo hi : Nat) (ctxDone : Bool)
      (hc : s.calls[i]? = some (.shutdownWait lo hi)) :
      Step cfg ids s (.shutdownWait i ctxDone)
        { s.setCall i .done with storage := { s.storage with locked := false } }

/-! ## The storage -/

theorem list_eq (s : LocalSessionStorage) (protocol : BrowserProtocol) :
    s.list protocol = (s.entries protocol).map Prod.snd := by
  rw [LocalSessionStorage.list, LocalSessionStorage.entries]
  cases s.sessions protocol <;> rfl

theorem get_mem {s : LocalSessionStorage} {protocol : BrowserProtocol} {id : GoString}
    {sess : Session} (h : s.get protocol id = some sess) : (id, sess) ∈ s.entries protocol := by
  rw [LocalSessionStorage.get] at h
  cases hp : s.sessions protocol with
  | none => simp [hp] at h
  | some ps =>
    simp only [hp, Option.map_eq_some_iff] at h
    obtain ⟨e, he, rfl⟩ := h
    have hid : e.1 = id := by simpa using List.find?_some he
    rw [LocalSessionStorage.entries, hp, ← hid]
    exact List.mem_of_find?_eq_some he

theorem delete_true {s t : LocalSessionStorage} {protocol : BrowserProtocol} {id : GoString}
    (h : s.delete protocol id = (t, true)) :
    t = s.setSessions protocol (deleteKey (s.entries protocol) id) ∧
      ∃ sess, (id, sess) ∈ s.entries protocol := by
  rw [LocalSessionStorage.delete] at h
  cases hp : s.sessions protocol with
  | none => simp [hp] at h
  | some ps =>
    have hent : s.entries protocol = ps := by rw [LocalSessionStorage.entries, hp]; rfl
    rw [hp] at h
    simp only at h
    split at h
    · rename_i hk
      rw [hent]
      exact ⟨(Prod.mk.inj h).1.symm, hasKey_iff.mp hk⟩
    · simp at h

theorem add_ok {s t : LocalSessionStorage} {protocol : BrowserProtocol} {sess : Session}
    (h : s.add protocol sess = .ok t) :
    s.shutdown = false ∧
      t = s.setSessions protocol (insertKey (s.entries protocol) sess.id sess) := by
  rw [LocalSessionStorage.add] at h
  split at h
  · simp at h
  · rename_i hs
    exact ⟨by simpa using hs, (Except.ok.inj h).symm⟩

/-! ## Soundness -/

variable {cfg : Config} {ids : FreshSupply GoString} {s s' : State}

theorem stepWaitStarted_sound {i : Nat} {ok : Bool} (h : stepWaitStarted ids s i ok = some s') :
    Step cfg ids s (.waitStarted i ok) s' := by
  unfold stepWaitStarted at h
  split at h
  · rename_i protocol br hc
    cases ok with
    | true =>
      cases protocol with
      | webdriver => exact Option.some.inj h ▸ .move i _ _ _ hc (.webdriverReady br)
      | playwright => exact Option.some.inj h ▸ .move i _ _ _ hc (.playwrightReady br)
    | false => exact Option.some.inj h ▸ .move i _ _ _ hc (.notReady protocol br)
  · simp at h

theorem stepProxyCreate_sound {i : Nat} {resp : Option (List (GoString × Json))}
    (h : stepProxyCreate s i resp = some s') : Step cfg ids s (.proxyCreate i resp) s' := by
  unfold stepProxyCreate at h
  split at h
  · rename_i br hc
    cases resp with
    | none => exact Option.some.inj h ▸ .move i _ _ _ hc (.notProxied br _ _)
    | some resp =>
      simp only at h
      split at h
      · exact Option.some.inj h ▸ .move i _ _ _ hc (.notProxied br _ _)
      · rename_i id hid
        exact Option.some.inj h ▸ .move i _ _ _ hc (.proxied br resp id hid)
  · simp at h

theorem stepAdd_sound {i : Nat} (h : stepAdd s i = some s') : Step cfg ids s (.add i) s' := by
  unfold stepAdd at h
  split at h
  · rename_i protocol sess hc
    split at h
    · simp at h
    split at h
    · exact Option.some.inj h ▸ .move i _ _ _ hc (.notStored protocol sess _)
    · rename_i storage hadd
      obtain ⟨hs, rfl⟩ := add_ok hadd
      exact Option.some.inj h ▸ .store i protocol sess hc hs
  · simp at h

theorem stepFind_sound {protocol : BrowserProtocol} {id : GoString}
    (h : stepFind s protocol id = some s') : Step cfg ids s (.find protocol id) s' := by
  unfold stepFind at h
  split at h
  · simp at h
  split at h
  · exact Option.some.inj h ▸ .nothing protocol id
  · rename_i sess hg
    exact Option.some.inj h ▸ .found protocol id sess (get_mem hg)

theorem stepDelete_sound {i : Nat} (h : stepDelete s i = some s') :
    Step cfg ids s (.delete i) s' := by
  unfold stepDelete at h
  split at h
  · rename_i protocol sess rest hc
    split at h
    · simp at h
    split at h
    · exact Option.some.inj h ▸ .move i _ _ _ hc (.notFound protocol sess rest)
    · rename_i storage hdel
      obtain ⟨rfl, hk⟩ := delete_true hdel
      exact Option.some.inj h ▸ .delete i protocol sess rest hc hk
  · simp at h

theorem stepShutdownWait_sound {i : Nat} {ctxDone : Bool}
    (h : stepShutdownWait s i ctxDone = some s') :
    Step cfg ids s (.shutdownWait i ctxDone) s' := by
  unfold stepShutdownWait at h
  split at h
  · rename_i lo hi hc
    split at h
    · exact Option.some.inj h ▸ .shutdownDone i lo hi ctxDone hc
    · simp at h
  · simp at h

theorem step_sound {a : Act} (h : step cfg ids s a = some s') : Step cfg ids s a s' := by
  cases a with
  | create protocol => exact Option.some.inj h ▸ .create protocol
  | isShutdown i =>
    simp only [step, stepIsShutdown] at h
    split at h
    · rename_i protocol hc
      split at h
      · simp at h
      split at h
      · exact Option.some.inj h ▸ .move i _ _ _ hc (.refused protocol)
      · exact Option.some.inj h ▸ .move i _ _ _ hc (.admitted protocol)
    · simp at h
  | allocate i ok =>
    simp only [step, stepAllocate] at h
    split at h
    · rename_i protocol hc
      cases ok with
      | true => exact Option.some.inj h ▸ .allocate i protocol hc
      | false => exact Option.some.inj h ▸ .move i _ _ _ hc (.allocateErr protocol)
    · simp at h
  | waitStarted i ok => exact stepWaitStarted_sound h
  | proxyCreate i resp => exact stepProxyCreate_sound h
  | add i => exact stepAdd_sound h
  | closeFailed i =>
    simp only [step, stepCloseFailed] at h
    split at h
    · rename_i br err hc
      exact Option.some.inj h ▸ .close i _ _ _ br true hc (.failed br err)
    · simp at h
  | find protocol id => exact stepFind_sound h
  | disconnect i =>
    simp only [step, stepDisconnect] at h
    split at h
    · rename_i sess hc
      exact Option.some.inj h ▸ .move i _ _ _ hc (.disconnect sess)
    · simp at h
  | delete i => exact stepDelete_sound h
  | closeDeleted i ok =>
    simp only [step, stepCloseDeleted] at h
    split at h
    · rename_i protocol sess rest hc
      exact Option.some.inj h ▸ .close i _ _ _ sess.br _ hc (.deleted protocol sess rest ok)
    · simp at h
  | listSessions =>
    simp only [step, stepListSessions] at h
    split at h
    · simp at h
    · exact Option.some.inj h ▸ .list
  | cleanup i expired =>
    simp only [step, stepCleanup] at h
    split at h
    · rename_i sess rest hc
      cases expired with
      | true => exact Option.some.inj h ▸ .move i _ _ _ hc (.expired sess rest)
      | false => exact Option.some.inj h ▸ .move i _ _ _ hc (.skipped sess rest)
    · simp at h
  | shutdown =>
    simp only [step, stepShutdown, List.length_map] at h
    split at h
    · simp at h
    · exact Option.some.inj h ▸ .shutdown
  | shutdownClose i =>
    simp only [step, stepShutdownClose] at h
    split at h
    · rename_i br hc
      exact Option.some.inj h ▸ .close i _ _ _ br true hc (.shutdown br)
    · simp at h
  | shutdownWait i ctxDone => exact stepShutdownWait_sound h

end Selebrow.Session
