import Selebrow.Kubernetes.History
import Selebrow.Transition.Machine

/-!
# Allocating a pod

`KubernetesBrowserManager.Allocate` in cluster mode, as a machine.  The actions are the
answers of the converter, of the API and of the pod watcher, the delay of the backoff that
has passed, the end of the request's context, and `Close` of the browser once it is
returned.

The converter's answer depends on values that other calls may have changed, so it is an
action as well.  The backoff and the predicates on API errors are those of the API
machinery: parameters.
-/

namespace Selebrow.Kubernetes.Manager

open Catalog

/-- The predicates of the API machinery on the errors of the API. -/
structure ErrorKinds (Err : Type) where
  isConflict : Err → Bool
  isTooManyRequests : Err → Bool
  isInternalError : Err → Bool
  isServerTimeout : Err → Bool
  isTimeout : Err → Bool

/-- `wait.Backoff` -/
structure Backoffs (Backoff : Type) where
  steps : Backoff → Int
  /-- `Step`: the delay, and the backoff after the call -/
  step : Backoff → Int × Backoff

/-- `Step` uses up a step while there are any. -/
def Backoffs.Decreases {Backoff : Type} (lib : Backoffs Backoff) : Prop :=
  ∀ b, 0 < lib.steps b → lib.steps (lib.step b).2 ≤ lib.steps b - 1

structure KubernetesBrowser (URL : Type) where
  forwardedHost : GoString
  u : URL
  host : GoString
  ports : List (ContainerPort × Int)
  /-- the pod that `close` deletes -/
  pod : GoString

structure KubernetesBrowserManager (Backoff Err URL : Type) where
  cat : BrowserCatalog
  backoff : Backoff
  backoffs : Backoffs Backoff
  kinds : ErrorKinds Err
  /-- `url.Parse` -/
  parseURL : GoString → Except GoString URL

inductive AllocateError (Err : Type)
  | unsupported (browser flavor : GoString)
  | toPod (err : GoString)
  | create (err : Err)
  | ctx (err : CtxErr)
  | watch (err : GoString)
  | url (err : GoString)

def isRetryableError {Err : Type} (kinds : ErrorKinds Err) (err : Err) : Bool :=
  kinds.isConflict err || kinds.isTooManyRequests err || kinds.isInternalError err ||
    kinds.isServerTimeout err || kinds.isTimeout err

section Browser

variable {Backoff Err URL : Type}

def createBrowser (m : KubernetesBrowserManager Backoff Err URL) (podName ip : GoString)
    (verCfg : BrowserImageConfig) (vncEnabled : Bool) :
    Except (AllocateError Err) (KubernetesBrowser URL) :=
  let host := ip ++ bytes ":" ++ bytes (toString ((verCfg.ports.lookup browserPort).getD 0))
  match m.parseURL (bytes "http://" ++ host ++ verCfg.path) with
  | .error err => .error (.url err)
  | .ok u => .ok ⟨ip, u, host, verCfg.getPorts vncEnabled, podName⟩

end Browser

/-! ## The machine -/

inductive Phase (Pod Backoff Err URL : Type)
  | called
  | converting (verCfg : BrowserImageConfig)
  | creating (verCfg : BrowserImageConfig) (pod : Pod) (b : Backoff)
  | waiting (verCfg : BrowserImageConfig) (pod : Pod) (b : Backoff) (delay : Int)
  | watching (verCfg : BrowserImageConfig) (podName : GoString)
  | deleting (podName : GoString) (err : AllocateError Err)
  | returned (result : Except (AllocateError Err) (KubernetesBrowser URL))
  | panicked (p : Panic)

structure Allocation (Pod Backoff Err URL : Type) where
  phase : Phase Pod Backoff Err URL
  /-- How often `CreatePod` was called. -/
  calls : Nat
  /-- What it has answered: the name of the pod, if one was created. -/
  answers : List (Except Err GoString)
  /-- The calls of `DeletePod` by `Allocate`, with their answers. -/
  deletions : List (GoString × Except Err Unit)
  /-- The calls of `DeletePod` by `Close`. -/
  closings : List (GoString × Except Err Unit)

inductive Event (Pod Err : Type)
  | lookup
  | toPod (r : Except GoString Pod)
  | create (r : Except Err GoString)
  | delayOver
  | ctxDone (err : CtxErr)
  | watch (r : Except GoString GoString)
  | delete (r : Except Err Unit)
  | close (r : Except Err Unit)

section Machine

variable {Pod Backoff Err URL : Type}

namespace Allocation

variable (s : Allocation Pod Backoff Err URL)

def goTo (phase : Phase Pod Backoff Err URL) : Allocation Pod Backoff Err URL :=
  { s with phase := phase }

def fail (err : AllocateError Err) : Allocation Pod Backoff Err URL := s.goTo (.returned (.error err))

/-- The head of the loop in `createPod`. -/
def attempt (verCfg : BrowserImageConfig) (pod : Pod) (b : Backoff) :
    Allocation Pod Backoff Err URL :=
  { s with phase := .creating verCfg pod b, calls := s.calls + 1 }

def answer (r : Except Err GoString) : Allocation Pod Backoff Err URL :=
  { s with answers := s.answers ++ [r] }

def created : List GoString :=
  s.answers.filterMap fun
    | .ok podName => some podName
    | .error _ => none

/-- A pod is gone when a `DeletePod` for it has succeeded. -/
def gone (podName : GoString) : Prop := (podName, .ok ()) ∈ s.deletions ++ s.closings

def Live (podName : GoString) : Prop := podName ∈ s.created ∧ ¬s.gone podName

end Allocation

/-- `Allocate` up to the converter. -/
def lookup (m : KubernetesBrowserManager Backoff Err URL) (protocol : GoString)
    (caps : Capabilities) (s : Allocation Pod Backoff Err URL) : Allocation Pod Backoff Err URL :=
  match m.cat.lookupBrowserImage protocol caps.name caps.flavor with
  | .error p => s.goTo (.panicked p)
  | .ok none => s.fail (.unsupported caps.name caps.flavor)
  | .ok (some verCfg) => s.goTo (.converting verCfg)

/-- The body of the loop in `createPod` behind the call, up to the next one. -/
def createAnswered (m : KubernetesBrowserManager Backoff Err URL) (verCfg : BrowserImageConfig)
    (pod : Pod) (b : Backoff) (r : Except Err GoString) (s : Allocation Pod Backoff Err URL) :
    Allocation Pod Backoff Err URL :=
  match r with
  | .ok podName => (s.answer r).goTo (.watching verCfg podName)
  | .error err =>
    if isRetryableError m.kinds err = false ∨ m.backoffs.steps b < 1 then
      (s.answer r).fail (.create err)
    else
      (s.answer r).goTo
        (.waiting verCfg pod (m.backoffs.step b).2 (m.backoffs.step b).1)

/-- `Allocate` from the answer of the watcher on. -/
def watched (m : KubernetesBrowserManager Backoff Err URL) (caps : Capabilities)
    (verCfg : BrowserImageConfig) (podName : GoString) (r : Except GoString GoString)
    (s : Allocation Pod Backoff Err URL) : Allocation Pod Backoff Err URL :=
  match r with
  | .error err => s.goTo (.deleting podName (.watch err))
  | .ok ip =>
    match createBrowser m podName ip verCfg caps.vncEnabled with
    | .error err => s.goTo (.deleting podName err)
    | .ok b => s.goTo (.returned (.ok b))

def step (m : KubernetesBrowserManager Backoff Err URL) (protocol : GoString) (caps : Capabilities)
    (s : Allocation Pod Backoff Err URL) (e : Event Pod Err) :
    Option (Allocation Pod Backoff Err URL) :=
  match s.phase, e with
  | .called, .lookup => some (lookup m protocol caps s)
  | .converting verCfg, .toPod (.ok pod) => some (s.attempt verCfg pod m.backoff)
  | .converting _, .toPod (.error err) => some (s.fail (.toPod err))
  | .creating verCfg pod b, .create r => some (createAnswered m verCfg pod b r s)
  | .waiting verCfg pod b _, .delayOver => some (s.attempt verCfg pod b)
  | .waiting _ _ _ _, .ctxDone err => some (s.fail (.ctx err))
  | .watching verCfg podName, .watch r => some (watched m caps verCfg podName r s)
  | .deleting podName err, .delete r =>
    some ({ s with deletions := s.deletions ++ [(podName, r)] }.fail err)
  | .returned (.ok b), .close r => some { s with closings := s.closings ++ [(b.pod, r)] }
  | _, _ => none

def allocate (m : KubernetesBrowserManager Backoff Err URL) (protocol : GoString)
    (caps : Capabilities) : Transition.Machine (Allocation Pod Backoff Err URL) (Event Pod Err) where
  init := ⟨.called, 0, [], [], []⟩
  step := step m protocol caps

end Machine

/-! ## What a run leaves behind -/

section Invariant

variable {Pod Backoff Err URL : Type} {m : KubernetesBrowserManager Backoff Err URL}
  {protocol : GoString} {caps : Capabilities} {s s' : Allocation Pod Backoff Err URL}
  {verCfg : BrowserImageConfig} {podName : GoString}

/-- A run makes at most one call more than the backoff has steps. -/
def budget (m : KubernetesBrowserManager Backoff Err URL) : Nat :=
  (m.backoffs.steps m.backoff).toNat + 1

/-- The answer that a further call may follow. -/
def Retryable (m : KubernetesBrowserManager Backoff Err URL) (r : Except Err GoString) : Prop :=
  ∃ err, r = .error err ∧ isRetryableError m.kinds err = true

/-- Every call but the last was answered, and by an error that allows another. -/
def Retried (m : KubernetesBrowserManager Backoff Err URL) (s : Allocation Pod Backoff Err URL) :
    Prop :=
  ∀ i, i + 1 < s.calls → ∃ r, s.answers[i]? = some r ∧ Retryable m r

/-- So far every call was answered by an error that allows another, and nothing was deleted. -/
structure Trying (m : KubernetesBrowserManager Backoff Err URL)
    (s : Allocation Pod Backoff Err URL) : Prop where
  retryable : ∀ r ∈ s.answers, Retryable m r
  deletions : s.deletions = []
  closings : s.closings = []

/-- In the loop the calls made and the steps left stay within the budget.  Behind it at most
one pod exists, and what was deleted depends on the outcome. -/
def Inv (m : KubernetesBrowserManager Backoff Err URL) (s : Allocation Pod Backoff Err URL) : Prop :=
  match s.phase with
  | .called | .converting _ | .panicked _ => s.calls = 0 ∧ s.answers = [] ∧ Trying m s
  | .creating _ _ b =>
    s.calls = s.answers.length + 1 ∧ s.calls + (m.backoffs.steps b).toNat ≤ budget m ∧ Trying m s
  | .waiting _ _ b _ =>
    s.calls = s.answers.length ∧ s.calls + (m.backoffs.steps b).toNat < budget m ∧ Trying m s
  | .watching _ podName | .deleting podName _ =>
    (s.calls ≤ budget m ∧ Retried m s) ∧ s.created = [podName] ∧ s.deletions = [] ∧ s.closings = []
  | .returned (.error _) =>
    (s.calls ≤ budget m ∧ Retried m s) ∧ s.deletions.map Prod.fst = s.created ∧
      s.created.length ≤ 1 ∧ s.closings = []
  | .returned (.ok b) =>
    (s.calls ≤ budget m ∧ Retried m s) ∧ s.created = [b.pod] ∧ s.deletions = [] ∧
      ∀ d ∈ s.closings, d.1 = b.pod

theorem created_answer (r : Except Err GoString) :
    (s.answer r).created = s.created ++ match r with
      | .ok podName => [podName]
      | .error _ => [] := by
  rw [Allocation.created, Allocation.answer, List.filterMap_append]
  cases r with
  | ok podName => rfl
  | error err => rfl

theorem Trying.created_nil (h : Trying m s) : s.created = [] := by
  rw [Allocation.created, List.filterMap_eq_nil_iff]
  intro r hr
  obtain ⟨err, rfl, _⟩ := h.retryable r hr
  rfl

theorem Trying.goTo (h : Trying m s) (phase : Phase Pod Backoff Err URL) :
    Trying m (s.goTo phase) :=
  ⟨h.retryable, h.deletions, h.closings⟩

theorem Trying.attempt (h : Trying m s) (verCfg : BrowserImageConfig) (pod : Pod) (b : Backoff) :
    Trying m (s.attempt verCfg pod b) :=
  ⟨h.retryable, h.deletions, h.closings⟩

/-- While every answer allows another call, the calls so far were all allowed. -/
theorem Trying.retried (h : Trying m s) (hcalls : s.calls ≤ s.answers.length + 1) :
    Retried m s := by
  intro i hi
  have hlt : i < s.answers.length := by omega
  apply Exists.intro s.answers[i]
  constructor
  · exact List.getElem?_eq_getElem hlt
  · exact h.retryable _ (List.getElem_mem hlt)

theorem Retried.answer (h : Retried m s) (r : Except Err GoString) : Retried m (s.answer r) := by
  intro i hi
  obtain ⟨r', hr', hretry⟩ := h i hi
  apply Exists.intro r'
  constructor
  · have hlt : i < s.answers.length := by
      rw [List.getElem?_eq_some_iff] at hr'
      exact hr'.1
    show (s.answers ++ [r])[i]? = some r'
    rw [List.getElem?_append_left hlt]
    exact hr'
  · exact hretry

/-- A failure before any pod exists. -/
theorem Trying.inv_fail (h : Trying m s) {err : AllocateError Err}
    (hcalls : s.calls ≤ s.answers.length + 1) (hbudget : s.calls ≤ budget m) :
    Inv m (s.fail err) := by
  show (s.calls ≤ budget m ∧ Retried m s) ∧ s.deletions.map Prod.fst = s.created ∧
    s.created.length ≤ 1 ∧ s.closings = []
  rw [h.created_nil, h.deletions]
  exact ⟨⟨hbudget, h.retried hcalls⟩, rfl, Nat.zero_le 1, h.closings⟩

theorem inv_lookup (hcalls : s.calls = 0) (hanswers : s.answers = []) (h : Trying m s) :
    Inv m (lookup m protocol caps s) := by
  rw [lookup]
  split
  · exact ⟨hcalls, hanswers, h.goTo _⟩
  · apply h.inv_fail
    · rw [hcalls]
      exact Nat.zero_le _
    · rw [hcalls]
      exact Nat.zero_le _
  · exact ⟨hcalls, hanswers, h.goTo _⟩

theorem inv_createAnswered {pod : Pod} {b : Backoff} (hlib : m.backoffs.Decreases)
    (r : Except Err GoString) (hcalls : s.calls = s.answers.length + 1)
    (hbudget : s.calls + (m.backoffs.steps b).toNat ≤ budget m) (h : Trying m s) :
    Inv m (createAnswered m verCfg pod b r s) := by
  have hretried : Retried m (s.answer r) := (h.retried (Nat.le_of_eq hcalls)).answer r
  have hle : s.calls ≤ budget m := by omega
  have hcreated := created_answer (s := s) r
  rw [h.created_nil] at hcreated
  unfold createAnswered
  split
  · exact ⟨⟨hle, hretried⟩, hcreated, h.deletions, h.closings⟩
  · rename_i err
    split
    · show ((s.answer (.error err)).calls ≤ budget m ∧ Retried m (s.answer (.error err))) ∧
        s.deletions.map Prod.fst = (s.answer (.error err)).created ∧
        (s.answer (.error err)).created.length ≤ 1 ∧ s.closings = []
      rw [hcreated, h.deletions]
      exact ⟨⟨hle, hretried⟩, rfl, Nat.zero_le 1, h.closings⟩
    · rename_i hgo
      rw [not_or, Bool.not_eq_false] at hgo
      have hdec := hlib b (by omega)
      show s.calls = (s.answers ++ [Except.error err]).length ∧
        s.calls + (m.backoffs.steps (m.backoffs.step b).2).toNat < budget m ∧
        Trying m ((s.answer (.error err)).goTo _)
      constructor
      · rw [List.length_append]
        exact hcalls
      · constructor
        · omega
        · constructor
          · intro r hr
            rcases List.mem_append.mp hr with hr | hr
            · exact h.retryable r hr
            · rw [List.mem_singleton] at hr
              exact ⟨err, hr, hgo.1⟩
          · exact h.deletions
          · exact h.closings

theorem pod_createBrowser {ip : GoString} {vncEnabled : Bool} {b : KubernetesBrowser URL}
    (h : createBrowser m podName ip verCfg vncEnabled = .ok b) : b.pod = podName := by
  simp only [createBrowser] at h
  split at h
  · cases h
  · cases h
    rfl

theorem inv_watched (r : Except GoString GoString)
    (h : (s.calls ≤ budget m ∧ Retried m s) ∧ s.created = [podName] ∧ s.deletions = [] ∧
      s.closings = []) : Inv m (watched m caps verCfg podName r s) := by
  unfold watched
  split
  · exact h
  · split
    · exact h
    · rename_i b hb
      show (s.calls ≤ budget m ∧ Retried m s) ∧ s.created = [b.pod] ∧ s.deletions = [] ∧
        ∀ d ∈ s.closings, d.1 = b.pod
      rw [pod_createBrowser hb, h.2.2.2]
      exact ⟨h.1, h.2.1, h.2.2.1, fun d hd => absurd hd List.not_mem_nil⟩

theorem inv_close {b : KubernetesBrowser URL} (r : Except Err Unit)
    (hp : s.phase = .returned (.ok b))
    (h : (s.calls ≤ budget m ∧ Retried m s) ∧ s.created = [b.pod] ∧ s.deletions = [] ∧
      ∀ d ∈ s.closings, d.1 = b.pod) :
    Inv m { s with closings := s.closings ++ [(b.pod, r)] } := by
  simp only [Inv, hp]
  refine ⟨h.1, h.2.1, h.2.2.1, ?_⟩
  intro d hd
  rcases List.mem_append.mp hd with hd | hd
  · exact h.2.2.2 d hd
  · rw [List.mem_singleton] at hd
    rw [hd]

theorem inv_step {e : Event Pod Err} (hlib : m.backoffs.Decreases) (h : Inv m s)
    (hstep : step m protocol caps s e = some s') : Inv m s' := by
  unfold step at hstep
  unfold Inv at h
  split at hstep
  case h_10 => contradiction
  all_goals
    rename_i hp
    rw [hp] at h
    cases hstep
  · exact inv_lookup h.1 h.2.1 h.2.2
  · show s.calls + 1 = s.answers.length + 1 ∧
      s.calls + 1 + (m.backoffs.steps m.backoff).toNat ≤ budget m ∧ Trying m (s.attempt _ _ _)
    rw [h.1, h.2.1]
    exact ⟨rfl, Nat.le_of_eq (Nat.add_comm 1 _), h.2.2.attempt _ _ _⟩
  · apply h.2.2.inv_fail
    · rw [h.1]
      exact Nat.zero_le _
    · rw [h.1]
      exact Nat.zero_le _
  · exact inv_createAnswered hlib _ h.1 h.2.1 h.2.2
  · rename_i verCfg pod b delay
    show s.calls + 1 = s.answers.length + 1 ∧
      s.calls + 1 + (m.backoffs.steps b).toNat ≤ budget m ∧ Trying m (s.attempt _ _ _)
    constructor
    · rw [h.1]
    · constructor
      · omega
      · exact h.2.2.attempt _ _ _
  · apply h.2.2.inv_fail
    · omega
    · omega
  · exact inv_watched _ h
  · rename_i podName err r
    show (s.calls ≤ budget m ∧ Retried m s) ∧
      (s.deletions ++ [(podName, r)]).map Prod.fst = s.created ∧ s.created.length ≤ 1 ∧
      s.closings = []
    rw [h.2.1, h.2.2.1]
    exact ⟨h.1, rfl, Nat.le_refl 1, h.2.2.2⟩
  · exact inv_close _ hp h

/-- `CreatePod` is called within the budget and again only when an error allows it.  On an
error `DeletePod` was called once for the pod that was created, if there is one, so none is
left when the API accepts that.  On success there is one pod, and it lives until a `Close` of
the browser has deleted it. -/
structure AllOrNothing (m : KubernetesBrowserManager Backoff Err URL)
    (s : Allocation Pod Backoff Err URL) : Prop where
  calls_le : s.calls ≤ (m.backoffs.steps m.backoff).toNat + 1
  retried : Retried m s
  failed : ∀ err, s.phase = .returned (.error err) →
    s.deletions.map Prod.fst = s.created ∧
      (∀ podName ∈ s.created, (s.deletions.map Prod.fst).count podName = 1) ∧
      ((∀ d ∈ s.deletions, d.2 = .ok ()) → ∀ podName, ¬s.Live podName)
  succeeded : ∀ b, s.phase = .returned (.ok b) →
    s.created = [b.pod] ∧ s.deletions = [] ∧
      ∀ podName, s.Live podName ↔ podName = b.pod ∧ (b.pod, .ok ()) ∉ s.closings
  panicked : ∀ p, s.phase = .panicked p → s.created = [] ∧ s.deletions = []

theorem Inv.budgeted (h : Inv m s) : s.calls ≤ budget m ∧ Retried m s := by
  have htrying : Trying m s → s.calls ≤ s.answers.length + 1 → s.calls ≤ budget m →
      s.calls ≤ budget m ∧ Retried m s := by
    intro ht hcalls hle
    exact ⟨hle, ht.retried hcalls⟩
  unfold Inv at h
  split at h
  · exact htrying h.2.2 (by omega) (by omega)
  · exact htrying h.2.2 (by omega) (by omega)
  · exact htrying h.2.2 (by omega) (by omega)
  · exact htrying h.2.2 (by omega) (by omega)
  · exact htrying h.2.2 (by omega) (by omega)
  · exact h.1
  · exact h.1
  · exact h.1
  · exact h.1

/-- Every pod of a failed allocation is gone when all deletions succeeded. -/
theorem not_live_of_deleted (hdeleted : s.deletions.map Prod.fst = s.created)
    (hok : ∀ d ∈ s.deletions, d.2 = .ok ()) (podName : GoString) : ¬s.Live podName := by
  intro hlive
  have hmem := hlive.1
  rw [← hdeleted] at hmem
  obtain ⟨d, hd, rfl⟩ := List.mem_map.mp hmem
  apply hlive.2
  show (d.1, .ok ()) ∈ s.deletions ++ s.closings
  rw [← hok d hd]
  exact List.mem_append_left _ hd

theorem live_iff {b : KubernetesBrowser URL} (hcreated : s.created = [b.pod])
    (hdeletions : s.deletions = []) (podName : GoString) :
    s.Live podName ↔ podName = b.pod ∧ (b.pod, .ok ()) ∉ s.closings := by
  rw [Allocation.Live, Allocation.gone, hcreated, hdeletions, List.mem_singleton, List.nil_append]
  constructor
  · intro h
    exact ⟨h.1, h.1 ▸ h.2⟩
  · intro h
    exact ⟨h.1, h.1 ▸ h.2⟩

theorem Inv.allOrNothing (h : Inv m s) : AllOrNothing m s := by
  have hbudgeted := h.budgeted
  unfold Inv at h
  constructor
  · exact hbudgeted.1
  · exact hbudgeted.2
  · intro err herr
    rw [herr] at h
    obtain ⟨_, hdeleted, hlen, _⟩ := h
    refine ⟨hdeleted, ?_, not_live_of_deleted hdeleted⟩
    intro podName hmem
    rw [hdeleted]
    have hpos : 0 < s.created.count podName := List.count_pos_iff.mpr hmem
    have hle : s.created.count podName ≤ s.created.length := List.count_le_length
    omega
  · intro b hb
    rw [hb] at h
    exact ⟨h.2.1, h.2.2.1, live_iff h.2.1 h.2.2.1⟩
  · intro p hp
    rw [hp] at h
    exact ⟨h.2.2.created_nil, h.2.2.deletions⟩

theorem allocate_all_or_nothing (hlib : m.backoffs.Decreases)
    (h : (allocate m protocol caps).Reachable s) : AllOrNothing m s := by
  have hinv : Inv m s := by
    apply Transition.Machine.Reach.invariant ?_ ?_ h
    · refine ⟨rfl, rfl, ?_, rfl, rfl⟩
      intro r hr
      exact absurd hr List.not_mem_nil
    · intro t e t' ht _ hstep
      exact inv_step hlib ht hstep
  exact hinv.allOrNothing

end Invariant

/-! ## A pod that does not get ready -/

/-- The reasons that the API gives for the errors that allow another call. -/
def reasons : ErrorKinds GoString where
  isConflict err := err = bytes "Conflict"
  isTooManyRequests err := err = bytes "TooManyRequests"
  isInternalError err := err = bytes "InternalError"
  isServerTimeout err := err = bytes "ServerTimeout"
  isTimeout err := err = bytes "Timeout"

/-- A backoff with a constant delay. -/
def constantBackoff : Backoffs Int where
  steps := id
  step b := (50, if 0 < b then b - 1 else b)

def sampleManager : KubernetesBrowserManager Int GoString GoString where
  cat := GoMap.empty.insert (bytes "webdriver")
    (GoMap.empty.insert (bytes "chrome")
      ⟨GoMap.empty.insert defaultFlavor (some chromeEntry)⟩)
  backoff := 1
  backoffs := constantBackoff
  kinds := reasons
  parseURL := .ok

/-- The first call of `CreatePod` is answered by a conflict; the pod of the second one does
not get ready. -/
def notReadyRun : List (Event Unit GoString) :=
  [.lookup, .toPod (.ok ()), .create (.error (bytes "Conflict")), .delayOver,
    .create (.ok (bytes "browser-1")), .watch (.error (bytes "pod not ready")), .delete (.ok ())]

theorem allocate_all_or_nothing_notReady :
    AllOrNothing sampleManager
      (⟨.returned (.error (.watch (bytes "pod not ready"))), 2,
        [.error (bytes "Conflict"), .ok (bytes "browser-1")], [(bytes "browser-1", .ok ())], []⟩ :
        Allocation Unit Int GoString GoString) := by
  have hlib : sampleManager.backoffs.Decreases := by
    intro b hb
    have hpos : (0 : Int) < b := hb
    exact Int.le_of_eq (if_pos hpos)
  have hreach : (allocate sampleManager (bytes "webdriver")
      (Converter.requestWith Converter.noLabels)).Reachable _ :=
    Transition.Machine.reachable_of_run notReadyRun rfl
  exact allocate_all_or_nothing hlib hreach

end Selebrow.Kubernetes.Manager
