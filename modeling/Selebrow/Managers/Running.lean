import Selebrow.Managers.Step

/-!
# The running browsers and the quota

Every browser that runs is held by a call that has its slot, or its slot was given back.
The quota bounds the first kind only, so the limit is the limit of the running browsers
as long as the backend allocates a new one only while the slots that are taken and the
browsers of the second kind fit into the limit together.
-/

namespace Selebrow.Managers

open Transition

/-- The slot was given back and the wrapped `Close` was not called yet. -/
def isClosing : Limited.Call → Bool
  | .closing _ => true
  | _ => false

/-- How many browsers run whose slot was given back. -/
def State.parked (s : State) : Nat := s.limited.calls.countP isClosing + s.pool.parked

/-- The backend allocates a browser only while there is room for it. -/
def Room (limit : Int) (s : State) : Act → Prop
  | .pool (.backendOk _ _) => s.limited.quota.qa.allocated + s.parked ≤ limit
  | _ => True

/-! ## The calls and their owners -/

/-- Where the limited call stands while its call of the pools is at `client`. -/
def Linked : Pool.Client → Limited.Call → Prop
  | .isShutdown _, c | .getPool _, c | .createPool _, c | .popIdle _ _, c | .backend _ _, c =>
    c = .allocate
  | .holding _ _, c => c = .allocate ∨ c = .returned ∨ isClosing c = true
  | _, c => c ≠ .reserve

theorem Linked.ne_reserve {client : Pool.Client} {c : Limited.Call} (h : Linked client c) :
    c ≠ .reserve := by
  rintro rfl
  cases client <;> simp_all [Linked, isClosing]

structure Inv (s : State) : Prop where
  length : s.owner.length = s.pool.clients.length
  nodup : s.owner.Nodup
  linked : ∀ (c i : Nat) (client : Pool.Client), s.owner[c]? = some i →
    s.pool.clients[c]? = some client →
      ∃ call, s.limited.calls[i]? = some call ∧ Linked client call

variable {cfg : Pool.PoolConfig} {ids : FreshSupply GoString} {s s' : State}

/-- The sections of the limited manager alone keep its calls where the pools expect them. -/
theorem outer_linked {l l' : Limited.State} {a : Limited.Act} (ha : outer a = true)
    (h : Limited.step l a = some l') {i : Nat} {call : Limited.Call} {client : Pool.Client}
    (hi : l.calls[i]? = some call) (hl : Linked client call) :
    ∃ call', l'.calls[i]? = some call' ∧ Linked client call' := by
  have hset : ∀ {j : Nat} {c c' : Limited.Call}, l.calls[j]? = some c →
      (Linked client c → Linked client c') →
      ∃ call', (l.calls.set j c')[i]? = some call' ∧ Linked client call' := by
    intro j c c' hj hcc
    obtain ⟨call', hcall', hkeep⟩ := exists_getElem?_set
      (R := fun c c' => Linked client c → Linked client c') (fun _ => id) hj hcc hi
    exact ⟨call', hcall', hkeep hl⟩
  cases Limited.step_sound h with
  | allocate quota _ => exact ⟨call, getElem?_append_some hi, hl⟩
  | quota _ b quota _ _ => exact ⟨call, hi, hl⟩
  | move j _ c c' _ hm => cases hm <;> simp [outer] at ha
  | release j quota hj _ =>
    apply hset hj
    intro h
    cases client <;> simp_all [Linked, isClosing]
  | close j trash quota hj _ =>
    apply hset hj
    intro h
    cases client <;> simp_all [Linked, isClosing]

/-- The sections of the pools alone keep their calls where the limited manager expects
them. -/
theorem inner_linked {p p' : Pool.State} {a : Pool.Act} (ha : inner a = true)
    (h : Pool.step cfg ids p a = some p') :
    p'.clients.length = p.clients.length ∧
    ∀ (c : Nat) (client' : Pool.Client), p'.clients[c]? = some client' →
      ∃ client, p.clients[c]? = some client ∧
        ∀ call, Linked client call → Linked client' call := by
  have hset : ∀ {i : Nat} {d d' : Pool.Client}, p.clients[i]? = some d →
      (∀ call, Linked d call → Linked d' call) →
      (p.clients.set i d').length = p.clients.length ∧
      ∀ (c : Nat) (client' : Pool.Client), (p.clients.set i d')[c]? = some client' →
        ∃ client, p.clients[c]? = some client ∧
          ∀ call, Linked client call → Linked client' call := by
    intro i d d' hd hdd
    refine ⟨List.length_set, fun c client' hc => ?_⟩
    rcases getElem?_set_some hc with ⟨rfl, rfl⟩ | ⟨_, hc⟩
    · exact ⟨d, hd, hdd⟩
    · exact ⟨client', hc, fun _ => id⟩
  have hsame : p.clients.length = p.clients.length ∧
      ∀ (c : Nat) (client' : Pool.Client), p.clients[c]? = some client' →
        ∃ client, p.clients[c]? = some client ∧
          ∀ call, Linked client call → Linked client' call :=
    ⟨rfl, fun c client' hc => ⟨client', hc, fun _ => id⟩⟩
  cases Pool.step_sound h with
  | allocate name => simp [inner] at ha
  | quiet i _ d d' hd hq =>
    apply hset hd
    intro call hl
    cases hq with
    | checkin name w => simp [inner] at ha
    | refused | poolRefused | backendErr =>
      show call ≠ .reserve
      rw [show call = .allocate from hl]
      simp
    | _ => exact hl
  | create i name hd _ _ => exact hset hd fun _ => id
  | reuse i k name q pool id w hd _ _ _ => exact hset hd fun _ => .inl
  | fresh i now name q hd => exact hset hd fun _ => .inl
  | drop i _ d w hd hdrop =>
    apply hset hd
    intro call hl
    cases hdrop with
    | trash name w => simp [inner] at ha
    | _ => exact hl
  | push i w b pool hd _ _ => exact hset hd fun _ => id
  | _ => exact hsame

/-- The calls of the other owners are left alone when call `i` moves on. -/
theorem linked_of_set (hi : Inv s) {i : Nat} {call : Limited.Call} {c j : Nat}
    {client : Pool.Client} (hc : s.owner[c]? = some j)
    (hclient : s.pool.clients[c]? = some client) (hij : i ≠ j) :
    ∃ call', (s.limited.calls.set i call)[j]? = some call' ∧ Linked client call' := by
  rw [List.getElem?_set_ne hij]
  exact hi.linked c j client hc hclient

theorem owner_inj (hi : Inv s) {c d i : Nat} (hc : s.owner[c]? = some i)
    (hd : s.owner[d]? = some i) : c = d :=
  (List.getElem?_inj (List.getElem?_eq_some_iff.mp hc).1 hi.nodup).mp (hc.trans hd.symm)

/-- A call that is still in `Reserve` has made no call of the pools. -/
theorem not_owner (hi : Inv s) {i : Nat} (h : s.limited.calls[i]? = some .reserve) :
    i ∉ s.owner := by
  intro hmem
  obtain ⟨c, hc⟩ := List.mem_iff_getElem?.mp hmem
  have hlt := (List.getElem?_eq_some_iff.mp hc).1
  rw [hi.length] at hlt
  obtain ⟨call, hcall, hl⟩ := hi.linked c i _ hc (List.getElem?_eq_getElem hlt)
  rw [h, Option.some.injEq] at hcall
  exact hl.ne_reserve hcall.symm

theorem inv_of_start {i : Nat} {name : GoString} {limited : Limited.State} {pool : Pool.State}
    (hi : Inv s) (h : Limited.step s.limited (.reserved i) = some limited)
    (hcall : limited.calls[i]? = some .allocate)
    (hp : Pool.step cfg ids s.pool (.allocate name) = some pool) :
    Inv { limited := limited, pool := pool, owner := s.owner ++ [i] } := by
  obtain ⟨hres, c₀, hset⟩ := Limited.reserved_calls h
  have hnot := not_owner hi hres
  obtain rfl := Option.some.inj hp
  have hlen := hi.length
  refine ⟨?_, ?_, fun c j client hc hclient => ?_⟩
  · show (s.owner ++ [i]).length = (s.pool.clients ++ [Pool.Client.isShutdown name]).length
    rw [List.length_append, List.length_append, hlen]
    rfl
  · show (s.owner ++ [i]).Nodup
    rw [List.nodup_append_comm]
    exact List.nodup_cons.mpr ⟨hnot, hi.nodup⟩
  · show ∃ call, limited.calls[j]? = some call ∧ Linked client call
    rcases getElem?_concat_some hc with hc | ⟨rfl, rfl⟩
    · rcases getElem?_concat_some hclient with hclient | ⟨rfl, _⟩
      · have hij : i ≠ j := by
          rintro rfl
          exact hnot (List.mem_of_getElem? hc)
        rw [hset]
        exact linked_of_set hi hc hclient hij
      · exact absurd (lt_of_getElem? hc) (by omega)
    · rcases getElem?_concat_some hclient with hclient | ⟨_, rfl⟩
      · exact absurd (lt_of_getElem? hclient) (by omega)
      · exact ⟨.allocate, hcall, rfl⟩

theorem step_inv {a : Act} (hi : Inv s) (h : step cfg ids s a = some s') : Inv s' := by
  cases step_sound h with
  | limited a limited ha hl =>
    refine ⟨hi.length, hi.nodup, fun c i client hc hclient => ?_⟩
    obtain ⟨call, hcall, hlink⟩ := hi.linked c i client hc hclient
    exact outer_linked ha hl hcall hlink
  | pool a pool ha hp =>
    obtain ⟨hlen, hback⟩ := inner_linked ha hp
    refine ⟨hi.length.trans hlen.symm, hi.nodup, fun c i client' hc hclient' => ?_⟩
    obtain ⟨client, hclient, hmono⟩ := hback c client' hclient'
    obtain ⟨call, hcall, hl⟩ := hi.linked c i client hc hclient
    exact ⟨call, hcall, hmono call hl⟩
  | start i name limited pool hl hcall hp => exact inv_of_start hi hl hcall hp
  | refused i name limited hl =>
    obtain ⟨hres, call, hset⟩ := Limited.reserved_calls hl
    refine ⟨hi.length, hi.nodup, fun c j client hc hclient => ?_⟩
    show ∃ call, limited.calls[j]? = some call ∧ Linked client call
    have hij : i ≠ j := by
      rintro rfl
      exact not_owner hi hres (List.mem_of_getElem? hc)
    rw [hset]
    exact linked_of_set hi hc hclient hij
  | allocated c i client res limited ho hc hr hl =>
    obtain ⟨hall, call, hset, hne, hbrowser⟩ := Limited.inner_calls hl
    refine ⟨hi.length, hi.nodup, fun d j client' hd hclient' => ?_⟩
    show ∃ call, limited.calls[j]? = some call ∧ Linked client' call
    rw [hset]
    by_cases hij : i = j
    · subst hij
      obtain rfl := owner_inj hi ho hd
      rw [show s.pool.clients[c]? = some client' from hclient', Option.some.injEq] at hc
      subst hc
      refine ⟨call, getElem?_set_eq hall, ?_⟩
      cases client' with
      | holding name w => exact .inr (.inl (hbrowser (Option.some.inj hr).symm))
      | failed err => exact hne
      | _ => simp [outcome] at hr
    · exact linked_of_set hi hd hclient' hij
  | innerClose c i trash limited pool ho hcall hl hp =>
    have hset := Limited.innerClose_calls hl
    obtain ⟨name, w, client, hclient, hpool, hout⟩ := Pool.close_clients hp
    refine ⟨?_, hi.nodup, fun d j client' hd hclient' => ?_⟩
    · show s.owner.length = pool.clients.length
      rw [hpool, List.length_set]
      exact hi.length
    · show ∃ call, limited.calls[j]? = some call ∧ Linked client' call
      rw [hset]
      by_cases hij : i = j
      · subst hij
        obtain rfl := owner_inj hi ho hd
        replace hclient' : pool.clients[c]? = some client' := hclient'
        rw [hpool, getElem?_set_eq hclient, Option.some.injEq] at hclient'
        subst hclient'
        refine ⟨.closed, getElem?_set_eq hcall, ?_⟩
        rcases hout with rfl | rfl <;> simp [Linked]
      · have hcd : c ≠ d := by
          rintro rfl
          rw [ho, Option.some.injEq] at hd
          exact hij hd
        replace hclient' : pool.clients[d]? = some client' := hclient'
        rw [hpool, List.getElem?_set_ne hcd] at hclient'
        exact linked_of_set hi hd hclient' hij

theorem reach_inv {limit qLimit : Int} {C : State → Act → Prop}
    (h : (machine limit qLimit cfg ids).Reach C s) : Inv s :=
  h.invariant ⟨rfl, List.nodup_nil, by simp [machine]⟩ (fun _ _ _ hi _ hs => step_inv hi hs)

/-! ## The bound -/

/-- A call that has a unit has its own slot in the quota. -/
theorem units_le (h : Limited.SlotInv s.limited) :
    s.limited.calls.countP Limited.Call.hasUnit ≤
      s.limited.quota.calls.countP Quota.Entry.holds := by
  apply countP_le_of_injection (f := List.range s.limited.calls.length)
  · rw [List.length_range]
  · exact List.nodup_range
  · intro i call j hi hu hj
    rw [List.getElem?_range (List.getElem?_eq_some_iff.mp hi).1, Option.some.injEq] at hj
    subst hj
    exact h.unit i call hi hu

/-- A client of the pools that holds a browser has a limited call that has its slot, or
one that is about to close the browser. -/
theorem holding_le (hi : Inv s) :
    s.pool.holding ≤
      s.limited.calls.countP Limited.Call.hasUnit + s.limited.calls.countP isClosing := by
  have hle : s.pool.holding ≤ s.limited.calls.countP fun c => c.hasUnit || isClosing c := by
    apply countP_le_of_injection (f := s.owner)
    · exact hi.length.symm
    · exact hi.nodup
    · intro c client i hc hheld ho
      obtain ⟨call, hcall, hl⟩ := hi.linked c i client ho hc
      refine ⟨call, hcall, ?_⟩
      cases client with
      | holding name w =>
        rcases hl with rfl | rfl | hl
        · rfl
        · rfl
        · rw [hl, Bool.or_true]
      | _ => simp [Pool.Client.held] at hheld
  exact Nat.le_trans hle (countP_or_le _ _ _)

/-- A browser that runs has a slot, or its slot was given back. -/
theorem running_le_allocated {limit qLimit : Int} {C : State → Act → Prop}
    (h : (machine limit qLimit cfg ids).Reach C s) :
    (s.pool.running : Int) ≤ s.limited.quota.qa.allocated + s.parked := by
  have hrun := Pool.running_le (Pool.reach_inv (reach_pool h))
  have hhold := holding_le (reach_inv h)
  have hunit := units_le (Limited.reach_slotInv (reach_limited h))
  have hquota := (Quota.reach_inv (Limited.reach_quota (reach_limited h))).allocated
  rw [hquota, State.parked]
  omega

/-- Only the backend's `Allocate` makes more browsers run, and it parks none. -/
theorem step_running {a : Act} (h : step cfg ids s a = some s') :
    s'.pool.running ≤ s.pool.running ∨
      (∃ i now, a = .pool (.backendOk i now)) ∧ s'.limited = s.limited ∧ s'.parked = s.parked := by
  cases step_sound h with
  | pool b pool _ hp =>
    cases b with
    | backendOk i now =>
      refine .inr ⟨⟨i, now, rfl⟩, rfl, ?_⟩
      show s.limited.calls.countP isClosing + pool.parked = _
      rw [Pool.backendOk_parked hp]
      rfl
    | _ => exact .inl (Pool.step_running hp (by simp))
  | start i name limited pool _ _ hp => exact .inl (Pool.step_running hp (by simp))
  | innerClose c i trash limited pool _ _ _ hp => exact .inl (Pool.step_running hp (by simp))
  | _ => exact .inl (Nat.le_refl _)

/-- The quota limit bounds the browsers that run, in every run in which the backend
allocates a browser only while there is room for it beside the slots that are taken and
the browsers that run without one. -/
theorem quota_bounds_running {limit qLimit : Int} (hlimit : 1 ≤ limit)
    (h : (machine limit qLimit cfg ids).Reach (Room limit) s) :
    (s.pool.running : Int) ≤ limit := by
  induction h with
  | refl =>
    show (0 : Int) ≤ limit
    omega
  | tail hr hc hs ih =>
    rcases step_running hs with hle | ⟨⟨i, now, rfl⟩, hlim, hpark⟩
    · omega
    · -- The new browser was counted before: its call has its slot.
      have hrun := running_le_allocated (Machine.Leads.tail hr hc hs)
      rw [hlim, hpark] at hrun
      exact Int.le_trans hrun hc

/-- A browser of pool `a` was given back and is idle; then one of pool `b` was
allocated. -/
def idleAndHeld (limit : Int) : State :=
  { limited :=
      { quota :=
          { qa := { limit := limit, allocated := 1, queue := [], qLimit := 1 },
            calls := [⟨.fastPath, true⟩, ⟨.fastPath, false⟩] },
        calls := [.closed, .allocate] },
    pool :=
      { Pool.State.init with
        pools := [⟨bytes "a", [([], 0)], false, false⟩, ⟨bytes "b", [], false, false⟩],
        browsers := [⟨[], 5, 0⟩, ⟨[97], 8, 1⟩],
        clients := [.returned, .holding (bytes "b") 1],
        timers := [0] },
    owner := [0, 1] }

/-- The run to `idleAndHeld`. -/
def idleThenHeld : List Act :=
  [.limited .allocate, .reserved 0 (bytes "a"), .pool (.isShutdown 0), .pool (.getPool 0),
    .pool (.createPool 0), .pool (.popIdle 0 0), .pool (.backendOk 0 5), .allocated 0,
    .limited (.close 0 false), .innerClose 0, .pool (.poolState 0), .pool (.checkAge 0 7),
    .pool (.pushIdle 0),
    .limited .allocate, .reserved 1 (bytes "b"), .pool (.isShutdown 1), .pool (.getPool 1),
    .pool (.createPool 1), .pool (.popIdle 1 0), .pool (.backendOk 1 8)]

theorem quota_bounds_running_idleAndHeld : ((idleAndHeld 2).pool.running : Int) ≤ 2 := by
  have hreach : (machine 2 1 ⟨1, 10⟩ (.unary 97)).Reach (Room 2) (idleAndHeld 2) := by
    refine Machine.leads_of_run idleThenHeld ?_ rfl
    refine ⟨trivial, trivial, trivial, trivial, trivial, trivial, ?_, trivial, trivial, trivial,
      trivial, trivial, trivial, trivial, trivial, trivial, trivial, trivial, trivial, ?_, trivial⟩
    · show (1 : Int) + ((0 : Nat) : Int) ≤ 2
      decide
    · show (1 : Int) + ((1 : Nat) : Int) ≤ 2
      decide
  exact quota_bounds_running (by decide) hreach

/-- The slot of call 0 was given back before the backend's `Close`, which has not
returned, and call 1 has it. -/
def closingAndHeld : State :=
  { limited :=
      { quota :=
          { qa := { limit := 1, allocated := 1, queue := [], qLimit := 1 },
            calls := [⟨.fastPath, true⟩, ⟨.fastPath, false⟩] },
        calls := [.closed, .allocate] },
    pool :=
      { Pool.State.init with
        pools := [⟨bytes "a", [], false, false⟩],
        browsers := [⟨[], 5, 0⟩, ⟨[97], 8, 0⟩],
        clients := [.returned, .holding (bytes "a") 1],
        closers := [⟨0, .called⟩] },
    owner := [0, 1] }

/-- With a limit of one, two browsers run: one that the pool keeps and one that was
allocated with the slot of the first, or one whose `Close` has not completed. -/
theorem running_over_quota :
    (machine 1 1 ⟨1, 10⟩ (.unary 97)).Reachable (idleAndHeld 1) ∧
    (idleAndHeld 1).pool.running = 2 ∧
    (machine 1 1 ⟨1, 10⟩ (.unary 97)).Reachable closingAndHeld ∧
    closingAndHeld.pool.running = 2 ∧
    ¬ ∀ s, (machine 1 1 ⟨1, 10⟩ (.unary 97)).Reachable s → (s.pool.running : Int) ≤ 1 := by
  have hidle : (machine 1 1 ⟨1, 10⟩ (.unary 97)).Reachable (idleAndHeld 1) :=
    Machine.reachable_of_run idleThenHeld rfl
  have hclosing : (machine 1 1 ⟨1, 10⟩ (.unary 97)).Reachable closingAndHeld :=
    Machine.reachable_of_run
      [.limited .allocate, .reserved 0 (bytes "a"), .pool (.isShutdown 0), .pool (.getPool 0),
        .pool (.createPool 0), .pool (.popIdle 0 0), .pool (.backendOk 0 5), .allocated 0,
        .limited (.close 0 true), .innerClose 0, .pool (.callClose 0),
        .limited .allocate, .reserved 1 (bytes "a"), .pool (.isShutdown 1), .pool (.getPool 1),
        .pool (.popIdle 1 0), .pool (.backendOk 1 8)] rfl
  refine ⟨hidle, by decide, hclosing, by decide, fun h => ?_⟩
  exact absurd (h (idleAndHeld 1) hidle) (by decide)

end Selebrow.Managers
