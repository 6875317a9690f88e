import Selebrow.Event.Delivery
import Selebrow.Transition.Progress
import Selebrow.Transition.Tally

/-!
# No subscriber holds the broker up

A send to a full channel is dropped, so `Publish` and `ShutDown`, once they have their lock,
end after a number of steps of their own that is fixed by the lists, whether subscribers
receive, leave or do nothing at all.
-/

namespace Selebrow.Event

open Transition

section

variable {π : Type}

def Act.ofPublish (i : Nat) : Act π → Bool
  | .send j | .publishReturns j => j == i
  | _ => false

def Act.ofShutDown : Act π → Bool
  | .nextType _ | .close | .deleteType | .shutDownReturns => true
  | _ => false

def PublishReturned (i : Nat) (s : State π) : Prop :=
  ∃ p, s.publishes[i]? = some p ∧ p.returned = true

/-- The sends that a call of `Publish` has still to make. -/
def State.sendsLeft (s : State π) (i : Nat) : Nat :=
  match s.publishes[i]? with
  | some p => p.chs.length
  | none => 0

/-- The loops over these lists, with a step to each and one from it. -/
def loopsLeft (l : List (GoString × List Nat)) : Nat := tally (fun e => e.2.length + 2) l

/-- What a `ShutDown` has still to do. -/
def State.closesLeft (s : State π) : Nat :=
  match s.shutDown with
  | some ⟨_, none⟩ => loopsLeft s.subs.entries
  | some ⟨_, some (et, chs)⟩ => chs.length + 1 + loopsLeft (deleteKey s.subs.entries et)
  | none => 0

variable {s s' : State π} {a : Act π}

/-! ## Publish -/

/-- The steps of the others leave a call of `Publish` where it is. -/
theorem publishes_other (hs : step s a = some s') {i : Nat} (ha : a.ofPublish i = false)
    {p : Publish π} (hp : s.publishes[i]? = some p) : s'.publishes[i]? = some p := by
  have hset {j : Nat} (hj : (j == i) = false) (q : Publish π) :
      (s.publishes.set j q)[i]? = some p := by
    rw [List.getElem?_set_ne (beq_eq_false_iff_ne.mp hj)]
    exact hp
  cases step_sound hs with
  | publish event hw => exact getElem?_append_some hp
  | send j event ch chs registered sub chan hj hsub hchan => exact hset ha _
  | publishReturns j event registered hj => exact hset ha _
  | _ => exact hp

theorem publish_own (hinv : Inv s') (hs : step s a = some s') {i : Nat}
    (ha : a.ofPublish i = true) (hx' : ¬ PublishReturned i s') :
    s'.sendsLeft i + 1 = s.sendsLeft i := by
  cases a with
  | send j =>
    have hji : j = i := beq_iff_eq.mp ha
    subst hji
    simp only [step] at hs
    split at hs
    · contradiction
    unfold stepSend at hs
    split at hs
    · rename_i event ch chs registered hp
      split at hs
      · rename_i sub hsub
        split at hs
        · rename_i chan hchan
          cases hs
          have hset := getElem?_set_eq (d := ⟨event, chs, false, registered⟩) hp
          rw [State.sendsLeft, State.sendsLeft, hp]
          show (match (s.publishes.set j ⟨event, chs, false, registered⟩)[j]? with
            | some p => p.chs.length
            | none => 0) + 1 = (ch :: chs).length
          rw [hset]
          rfl
        · -- A send on a closed channel is not reachable.
          cases hs
          have halive := hinv.alive
          contradiction
      · contradiction
    · contradiction
  | publishReturns j =>
    have hji : j = i := beq_iff_eq.mp ha
    subst hji
    simp only [step] at hs
    split at hs
    · contradiction
    unfold stepPublishReturns at hs
    split at hs
    · rename_i event registered hp
      cases hs
      exact absurd ⟨_, getElem?_set_eq hp, rfl⟩ hx'
    · contradiction
  | _ => contradiction

/-- The next channel of the loop is there, so the `select` is never stuck. -/
theorem publish_enabled (hinv : Inv s) {i : Nat} {p : Publish π} (hp : s.publishes[i]? = some p)
    (hbusy : p.returned = false) : ∃ a : Act π, a.ofPublish i = true ∧ (step s a).isSome = true := by
  obtain ⟨event, chs, returned, registered⟩ := p
  cases hbusy
  cases chs with
  | nil =>
    refine ⟨.publishReturns i, beq_self_eq_true i, ?_⟩
    simp only [step, hinv.alive, stepPublishReturns, hp]
    rfl
  | cons ch chs =>
    refine ⟨.send i, beq_self_eq_true i, ?_⟩
    obtain ⟨sub, hsub, _, hopen, _⟩ := (hinv.pending i _ hp).ahead ch List.mem_cons_self
    simp only [step, hinv.alive, stepSend, hp, hsub]
    cases sub.chan.trySend i event with
    | none => rfl
    | some chan => rfl

/-! ## ShutDown -/

/-- The steps of the others leave a running `ShutDown` and the lists alone. -/
theorem shutDown_other (hs : step s a = some s') (ha : a.ofShutDown = false)
    (hd : s.shutDown ≠ none) : s'.shutDown = s.shutDown ∧ s'.subs = s.subs := by
  cases step_sound hs with
  | subscribe ts hr hw => exact absurd hw hd
  | shutDown hr hw => exact absurd hw hd
  | nextType et closed chs hc hchs => contradiction
  | skip closed et ch chs hc hch => contradiction
  | close closed et ch chs sub chan hc hch hsub hchan => contradiction
  | closeClosed closed et ch chs sub hc hch hsub hchan => contradiction
  | deleteType closed et hc => contradiction
  | shutDownReturns closed hc hempty => contradiction
  | _ => exact ⟨rfl, rfl⟩

theorem loopsLeft_lookup {subs : GoMap GoString (List Nat)} {et : GoString} {chs : List Nat}
    (h : subs.lookup et = some chs) :
    loopsLeft subs.entries = chs.length + 2 + loopsLeft (deleteKey subs.entries et) := by
  rw [loopsLeft, tally_perm _ (GoMap.perm_of_lookup subs.nodup h), tally_cons]
  rfl

theorem shutDown_own (hinv : Inv s') (hs : step s a = some s') (ha : a.ofShutDown = true)
    (hx' : s'.shutDown ≠ none) : s'.closesLeft + 1 = s.closesLeft := by
  cases a with
  | nextType et =>
    simp only [step] at hs
    split at hs
    · contradiction
    unfold stepNextType at hs
    split at hs
    · rename_i closed hd
      split at hs
      · rename_i chs hchs
        cases hs
        have := loopsLeft_lookup hchs
        rw [State.closesLeft, State.closesLeft, hd]
        show chs.length + 1 + loopsLeft (deleteKey s.subs.entries et) + 1 = loopsLeft s.subs.entries
        omega
      · contradiction
    · contradiction
  | close =>
    simp only [step] at hs
    split at hs
    · contradiction
    unfold stepClose at hs
    split at hs
    · rename_i closed et ch chs hd
      have hleft : s.closesLeft = chs.length + 1 + 1 + loopsLeft (deleteKey s.subs.entries et) := by
        rw [State.closesLeft, hd]
        rfl
      have hgoal : chs.length + 1 + loopsLeft (deleteKey s.subs.entries et) + 1 = s.closesLeft := by
        omega
      split at hs
      · cases hs
        exact hgoal
      · split at hs
        · split at hs
          · cases hs
            exact hgoal
          · cases hs
            have halive := hinv.alive
            contradiction
        · contradiction
    · contradiction
  | deleteType =>
    simp only [step] at hs
    split at hs
    · contradiction
    unfold stepDeleteType at hs
    split at hs
    · rename_i closed et hd
      cases hs
      rw [State.closesLeft, State.closesLeft, hd]
      show loopsLeft (deleteKey s.subs.entries et) + 1 = 0 + 1 + _
      omega
    · contradiction
  | shutDownReturns =>
    simp only [step] at hs
    split at hs
    · contradiction
    unfold stepShutDownReturns at hs
    split at hs
    · split at hs
      · cases hs
        exact absurd rfl hx'
      · contradiction
    · contradiction
  | _ => contradiction

theorem shutDown_enabled (hinv : Inv s) (hd : s.shutDown ≠ none) :
    ∃ a : Act π, a.ofShutDown = true ∧ (step s a).isSome = true := by
  obtain ⟨⟨closed, current⟩, hsd⟩ := Option.ne_none_iff_exists'.mp hd
  cases current with
  | none =>
    cases hentries : s.subs.entries with
    | nil =>
      refine ⟨.shutDownReturns, rfl, ?_⟩
      simp only [step, hinv.alive, stepShutDownReturns, hsd, hentries]
      rfl
    | cons e rest =>
      refine ⟨.nextType e.1, rfl, ?_⟩
      have hlookup : s.subs.lookup e.1 = some e.2 := by
        rw [← GoMap.mem_iff_lookup, hentries]
        exact List.mem_cons_self
      simp only [step, hinv.alive, stepNextType, hsd, hlookup]
      rfl
  | some cur =>
    obtain ⟨et, chs⟩ := cur
    cases chs with
    | nil =>
      refine ⟨.deleteType, rfl, ?_⟩
      simp only [step, hinv.alive, stepDeleteType, hsd]
      rfl
    | cons ch chs =>
      refine ⟨.close, rfl, ?_⟩
      have hmem := (hinv.listed.current _ et _ hsd rfl).1 List.mem_cons_self
      obtain ⟨st, hst, _⟩ := hinv.listed.listed et ch hmem
      obtain ⟨sub, hsub, _⟩ := Option.map_eq_some_iff.mp (List.getElem?_map.symm.trans hst)
      simp only [step, hinv.alive, stepClose, hsd, hsub]
      by_cases hch : ch ∈ closed
      · rw [if_pos hch]
        rfl
      · rw [if_neg hch]
        cases sub.chan.close with
        | none => rfl
        | some chan => rfl

/-! ## The calls return -/

theorem length_publishes_le (hs : step s a = some s') :
    s.publishes.length ≤ s'.publishes.length := by
  cases step_sound hs with
  | publish event hw =>
    show _ ≤ (s.publishes ++ _).length
    rw [List.length_append]
    exact Nat.le_add_right _ _
  | send p event ch chs registered sub chan hp hsub hchan =>
    show _ ≤ (s.publishes.set _ _).length
    exact Nat.le_of_eq List.length_set.symm
  | publishReturns p event registered hp =>
    show _ ≤ (s.publishes.set _ _).length
    exact Nat.le_of_eq List.length_set.symm
  | _ => exact Nat.le_refl _

/-- A call of `Publish` that has begun. -/
structure Begun (i : Nat) (s : State π) : Prop where
  inv : Inv s
  begun : i < s.publishes.length

/-- In every reachable state, a call of `Publish` returns after at most one send of its own
for each channel it still has to see, and a running `ShutDown` after at most the steps of its
loops over the lists, whatever subscribers and other calls do in between: a step of its own
can be taken until then. -/
theorem calls_return {bufferSize : Nat} (h : (machine bufferSize).Reachable s) :
    (∀ i p, s.publishes[i]? = some p →
      (machine bufferSize).Inevitable (fun _ _ => True) (Act.ofPublish i) (PublishReturned i)
        p.chs.length s) ∧
      (s.shutDown.isSome = true →
        (machine bufferSize).Inevitable (fun _ _ => True) Act.ofShutDown
          (fun t => t.shutDown = none) s.closesLeft s) := by
  have hinv := reach_inv h
  constructor
  · intro i p hp
    have hstart : Begun i s := ⟨hinv, lt_of_getElem? hp⟩
    have hsends : s.sendsLeft i = p.chs.length := by
      rw [State.sendsLeft, hp]
    have hn : s.sendsLeft i ≤ p.chs.length := Nat.le_of_eq hsends
    apply Machine.Inevitable.of_measure (fun t => t.sendsLeft i) ?_ ?_ ?_ hstart hn
    · intro t a t' ht _ hs _ _
      exact ⟨step_inv ht.inv hs, Nat.lt_of_lt_of_le ht.begun (length_publishes_le hs)⟩
    · intro t a t' ht _ hs _ hx'
      cases ha : a.ofPublish i with
      | true => exact Nat.le_of_eq (publish_own (step_inv ht.inv hs) hs ha hx')
      | false =>
        have hq := List.getElem?_eq_getElem ht.begun
        have hq' := publishes_other hs ha hq
        show t'.sendsLeft i + 0 ≤ t.sendsLeft i
        rw [State.sendsLeft, State.sendsLeft, hq, hq']
        exact Nat.le_refl _
    · intro t ht hx
      have hq := List.getElem?_eq_getElem ht.begun
      apply publish_enabled ht.inv hq
      rw [Bool.eq_false_iff]
      intro hr
      exact hx ⟨_, hq, hr⟩
  · intro _
    apply Machine.Inevitable.of_measure State.closesLeft ?_ ?_ ?_ hinv (Nat.le_refl _)
    · intro t a t' ht _ hs _ _
      exact step_inv ht hs
    · intro t a t' ht _ hs hx hx'
      cases ha : a.ofShutDown with
      | true => exact Nat.le_of_eq (shutDown_own (step_inv ht hs) hs ha hx')
      | false =>
        obtain ⟨hd, hsubs⟩ := shutDown_other hs ha hx
        show t'.closesLeft + 0 ≤ t.closesLeft
        rw [State.closesLeft, State.closesLeft, hd, hsubs]
        exact Nat.le_refl _
    · intro t ht hx
      exact shutDown_enabled ht hx

end

/-- The second event finds its channel full. -/
def fullRun : List (Act Nat) :=
  [.subscribe ⟨[bytes "a"], List.nodup_singleton _⟩, .publish ⟨bytes "a", 1⟩, .send 0,
    .publishReturns 0, .publish ⟨bytes "a", 2⟩]

def fullState : State Nat :=
  ((machine 1).run (newEventBrokerImpl 1) fullRun).getD (newEventBrokerImpl 1)

theorem calls_return_full :
    (machine 1).Inevitable (fun _ _ => True) (Act.ofPublish 1) (PublishReturned 1) 1 fullState := by
  have hreach : (machine 1).Reachable fullState := Machine.reachable_of_run fullRun rfl
  have hp : fullState.publishes[1]? = some ⟨⟨bytes "a", 2⟩, [0], false, [0]⟩ := rfl
  exact (calls_return hreach).1 1 _ hp

end Selebrow.Event
