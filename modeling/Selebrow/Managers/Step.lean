import Selebrow.Limited.Manager
import Selebrow.Pool.Running

/-!
# The quota over the pools

At start-up a `LimitedBrowserManager` is put over the `BrowserPoolManager`.  The machine
runs the two together.  A limited call that has its slot makes one call of the pools, and
the `Close` of its browser gives the slot back and then closes the pooled browser.
`owner` gives for each call of the pools the limited call that made it.

The quota counts slots, and a browser whose slot was given back may run on: its `Close`
comes after the release, and the pools keep it idle.
-/

namespace Selebrow.Managers

open Transition

structure State where
  limited : Limited.State
  pool : Pool.State
  owner : List Nat

inductive Act
  | limited (a : Limited.Act)
  | pool (a : Pool.Act)
  /-- `Reserve` returned to call `i`, whose capabilities have the given pool name. -/
  | reserved (i : Nat) (name : GoString)
  /-- Call `c` of the pools returned. -/
  | allocated (c : Nat)
  /-- `b.br.Close(ctx, trash)`, for the browser that call `c` of the pools returned. -/
  | innerClose (c : Nat)

/-- The sections that the limited manager runs without the pools. -/
def outer : Limited.Act → Bool
  | .reserved _ | .inner _ _ | .innerClose _ => false
  | _ => true

/-- The sections that the pools run without the limited manager. -/
def inner : Pool.Act → Bool
  | .allocate _ | .close _ _ => false
  | _ => true

def stepLimited (s : State) (a : Limited.Act) : Option State :=
  if outer a then (Limited.step s.limited a).map fun limited => { s with limited := limited }
  else none

def stepPool (cfg : Pool.PoolConfig) (ids : FreshSupply GoString) (s : State) (a : Pool.Act) :
    Option State :=
  if inner a then (Pool.step cfg ids s.pool a).map fun pool => { s with pool := pool }
  else none

def stepReserved (cfg : Pool.PoolConfig) (ids : FreshSupply GoString) (s : State) (i : Nat)
    (name : GoString) : Option State :=
  match Limited.step s.limited (.reserved i) with
  | some limited =>
    match limited.calls[i]? with
    | some .allocate =>
      (Pool.step cfg ids s.pool (.allocate name)).map fun pool =>
        { limited := limited, pool := pool, owner := s.owner ++ [i] }
    | _ => some { s with limited := limited }
  | none => none

/-- What the call of the pools returned. -/
def outcome : Pool.Client → Option Limited.Outcome
  | .holding _ _ => some .browser
  | .failed _ => some .error
  | _ => none

def stepAllocated (s : State) (c : Nat) : Option State :=
  match s.owner[c]?, s.pool.clients[c]? with
  | some i, some client =>
    match outcome client with
    | some res =>
      (Limited.step s.limited (.inner i res)).map fun limited => { s with limited := limited }
    | none => none
  | _, _ => none

def stepInnerClose (cfg : Pool.PoolConfig) (ids : FreshSupply GoString) (s : State) (c : Nat) :
    Option State :=
  match s.owner[c]? with
  | some i =>
    match s.limited.calls[i]? with
    | some (.closing trash) =>
      match Limited.step s.limited (.innerClose i), Pool.step cfg ids s.pool (.close c trash) with
      | some limited, some pool => some { s with limited := limited, pool := pool }
      | _, _ => none
    | _ => none
  | none => none

def step (cfg : Pool.PoolConfig) (ids : FreshSupply GoString) (s : State) : Act → Option State
  | .limited a => stepLimited s a
  | .pool a => stepPool cfg ids s a
  | .reserved i name => stepReserved cfg ids s i name
  | .allocated c => stepAllocated s c
  | .innerClose c => stepInnerClose cfg ids s c

def machine (limit qLimit : Int) (cfg : Pool.PoolConfig) (ids : FreshSupply GoString) :
    Machine State Act :=
  { init :=
      { limited := (Limited.machine limit qLimit).init, pool := .init, owner := [] },
    step := step cfg ids }

/-! ## What a step can do -/

inductive Step (cfg : Pool.PoolConfig) (ids : FreshSupply GoString) (s : State) :
    Act → State → Prop
  | limited (a : Limited.Act) (limited : Limited.State) (ha : outer a = true)
      (h : Limited.step s.limited a = some limited) :
      Step cfg ids s (.limited a) { s with limited := limited }
  | pool (a : Pool.Act) (pool : Pool.State) (ha : inner a = true)
      (h : Pool.step cfg ids s.pool a = some pool) :
      Step cfg ids s (.pool a) { s with pool := pool }
  | start (i : Nat) (name : GoString) (limited : Limited.State) (pool : Pool.State)
      (h : Limited.step s.limited (.reserved i) = some limited)
      (hi : limited.calls[i]? = some .allocate)
      (hp : Pool.step cfg ids s.pool (.allocate name) = some pool) :
      Step cfg ids s (.reserved i name)
        { limited := limited, pool := pool, owner := s.owner ++ [i] }
  | refused (i : Nat) (name : GoString) (limited : Limited.State)
      (h : Limited.step s.limited (.reserved i) = some limited) :
      Step cfg ids s (.reserved i name) { s with limited := limited }
  | allocated (c i : Nat) (client : Pool.Client) (res : Limited.Outcome)
      (limited : Limited.State) (ho : s.owner[c]? = some i)
      (hc : s.pool.clients[c]? = some client) (hr : outcome client = some res)
      (h : Limited.step s.limited (.inner i res) = some limited) :
      Step cfg ids s (.allocated c) { s with limited := limited }
  | innerClose (c i : Nat) (trash : Bool) (limited : Limited.State) (pool : Pool.State)
      (ho : s.owner[c]? = some i) (hi : s.limited.calls[i]? = some (.closing trash))
      (h : Limited.step s.limited (.innerClose i) = some limited)
      (hp : Pool.step cfg ids s.pool (.close c trash) = some pool) :
      Step cfg ids s (.innerClose c) { s with limited := limited, pool := pool }

variable {cfg : Pool.PoolConfig} {ids : FreshSupply GoString} {s s' : State}

theorem stepReserved_sound {i : Nat} {name : GoString}
    (h : stepReserved cfg ids s i name = some s') : Step cfg ids s (.reserved i name) s' := by
  unfold stepReserved at h
  split at h
  · rename_i limited hl
    split at h
    · rename_i hi
      rw [Option.map_eq_some_iff] at h
      obtain ⟨pool, hp, rfl⟩ := h
      exact .start i name limited pool hl hi hp
    · exact Option.some.inj h ▸ .refused i name limited hl
  · simp at h

theorem stepAllocated_sound {c : Nat} (h : stepAllocated s c = some s') :
    Step cfg ids s (.allocated c) s' := by
  unfold stepAllocated at h
  split at h
  · rename_i i client ho hc
    split at h
    · rename_i res hr
      rw [Option.map_eq_some_iff] at h
      obtain ⟨limited, hl, rfl⟩ := h
      exact .allocated c i client res limited ho hc hr hl
    · simp at h
  · simp at h

theorem stepInnerClose_sound {c : Nat} (h : stepInnerClose cfg ids s c = some s') :
    Step cfg ids s (.innerClose c) s' := by
  unfold stepInnerClose at h
  split at h
  · rename_i i ho
    split at h
    · rename_i trash hi
      split at h
      · rename_i limited pool hl hp
        exact Option.some.inj h ▸ .innerClose c i trash limited pool ho hi hl hp
      · simp at h
    · simp at h
  · simp at h

theorem step_sound {a : Act} (h : step cfg ids s a = some s') : Step cfg ids s a s' := by
  cases a with
  | limited a =>
    simp only [step, stepLimited] at h
    split at h
    · rename_i ha
      rw [Option.map_eq_some_iff] at h
      obtain ⟨limited, hl, rfl⟩ := h
      exact .limited a limited ha hl
    · simp at h
  | pool a =>
    simp only [step, stepPool] at h
    split at h
    · rename_i ha
      rw [Option.map_eq_some_iff] at h
      obtain ⟨pool, hp, rfl⟩ := h
      exact .pool a pool ha hp
    · simp at h
  | reserved i name => exact stepReserved_sound h
  | allocated c => exact stepAllocated_sound h
  | innerClose c => exact stepInnerClose_sound h

/-- The runs of the composition are runs of the limited manager. -/
theorem reach_limited {limit qLimit : Int} {C : State → Act → Prop}
    (h : (machine limit qLimit cfg ids).Reach C s) :
    (Limited.machine limit qLimit).Reachable s.limited := by
  refine Machine.Reach.map State.limited rfl (fun t a t' _ _ ht => ?_) h
  cases step_sound ht with
  | limited a limited _ h => exact .inr ⟨a, trivial, h⟩
  | pool a pool _ _ => exact .inl rfl
  | start i name limited pool h _ _ => exact .inr ⟨.reserved i, trivial, h⟩
  | refused i name limited h => exact .inr ⟨.reserved i, trivial, h⟩
  | allocated c i client res limited _ _ _ h => exact .inr ⟨.inner i res, trivial, h⟩
  | innerClose c i trash limited pool _ _ h _ => exact .inr ⟨.innerClose i, trivial, h⟩

/-- The runs of the composition are runs of the pools. -/
theorem reach_pool {limit qLimit : Int} {C : State → Act → Prop}
    (h : (machine limit qLimit cfg ids).Reach C s) :
    (Pool.machine cfg ids).Reachable s.pool := by
  refine Machine.Reach.map State.pool rfl (fun t a t' _ _ ht => ?_) h
  cases step_sound ht with
  | pool a pool _ h => exact .inr ⟨a, trivial, h⟩
  | start i name limited pool _ _ hp => exact .inr ⟨.allocate name, trivial, hp⟩
  | innerClose c i trash limited pool _ _ _ hp => exact .inr ⟨.close c trash, trivial, hp⟩
  | _ => exact .inl rfl

end Selebrow.Managers
