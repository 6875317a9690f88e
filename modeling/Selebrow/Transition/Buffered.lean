import Mathlib.Data.List.Basic

/-!
# Bounded channels

A channel with room for `capacity` values.  A sender that does not wait hands its value
to a receiver that waits, else puts it into the buffer, else drops it; a send on a closed
channel and a close of a closed one have no result.  Every try is written down together
with what the buffer held at that moment.
-/

namespace Selebrow.Transition

/-- One try to send, by the sender with this number. -/
structure Attempt (α : Type) where
  sender : Nat
  value : α
  held : Nat
  taken : Bool
deriving DecidableEq, Repr

structure Buffered (α : Type) where
  capacity : Nat
  buffer : List α
  /-- The receivers that wait. -/
  waiting : Nat
  closed : Bool
  /-- What the receivers were given, and every try to send, the first one first. -/
  received : List α
  attempts : List (Attempt α)
deriving DecidableEq, Repr

namespace Buffered

variable {α : Type}

def make (capacity : Nat) : Buffered α :=
  { capacity := capacity, buffer := [], waiting := 0, closed := false, received := [],
    attempts := [] }

def tried (c : Buffered α) (sender : Nat) (v : α) (taken : Bool) : Buffered α :=
  { c with attempts := c.attempts ++ [⟨sender, v, c.buffer.length, taken⟩] }

def trySend (c : Buffered α) (sender : Nat) (v : α) : Option (Buffered α) :=
  if c.closed then none
  else if 0 < c.waiting then
    some { c.tried sender v true with received := c.received ++ [v], waiting := c.waiting - 1 }
  else if c.buffer.length < c.capacity then
    some { c.tried sender v true with buffer := c.buffer ++ [v] }
  else some (c.tried sender v false)

/-- A receiver takes a value, is told that there will be none, or waits. -/
def receive (c : Buffered α) : Buffered α :=
  match c.buffer with
  | v :: rest => { c with buffer := rest, received := c.received ++ [v] }
  | [] => if c.closed then c else { c with waiting := c.waiting + 1 }

/-- A receiver stops waiting. -/
def leave (c : Buffered α) : Buffered α := { c with waiting := c.waiting - 1 }

/-- The receivers that wait are told. -/
def close (c : Buffered α) : Option (Buffered α) :=
  if c.closed then none else some { c with closed := true, waiting := 0 }

def taken (c : Buffered α) : List α := (c.attempts.filter Attempt.taken).map Attempt.value

/-- Nothing that was taken is lost, and only a full channel drops. -/
structure Whole (c : Buffered α) : Prop where
  kept : c.received ++ c.buffer = c.taken
  room : c.buffer.length ≤ c.capacity
  idle : 0 < c.waiting → c.buffer = []
  full : ∀ a ∈ c.attempts, a.taken = false → a.held = c.capacity

/-- What a channel does between two sends and without being closed. -/
structure Quiet (c c' : Buffered α) : Prop where
  capacity : c'.capacity = c.capacity
  closed : c'.closed = c.closed
  attempts : c'.attempts = c.attempts

variable {c c' : Buffered α} {sender : Nat} {v : α}

theorem whole_make (capacity : Nat) : (make capacity : Buffered α).Whole := by
  constructor
  · rfl
  · exact Nat.zero_le _
  · intro _
    rfl
  · intro a ha
    exact absurd ha List.not_mem_nil

theorem taken_sublist (c : Buffered α) : c.taken.Sublist (c.attempts.map Attempt.value) :=
  List.filter_sublist.map _

theorem taken_tried (c : Buffered α) (sender : Nat) (v : α) (b : Bool) :
    (c.tried sender v b).taken = c.taken ++ if b then [v] else [] := by
  rw [taken, tried, List.filter_append, List.map_append, taken]
  cases b <;> rfl

/-- A send leaves one more try behind, whatever becomes of the value. -/
theorem attempts_trySend (h : c.trySend sender v = some c') :
    c.closed = false ∧ c'.closed = false ∧
      ∃ b, c'.attempts = c.attempts ++ [⟨sender, v, c.buffer.length, b⟩] := by
  rw [trySend] at h
  split at h
  · contradiction
  · rename_i hopen
    rw [Bool.not_eq_true] at hopen
    refine ⟨hopen, ?_⟩
    split at h
    · cases h
      exact ⟨hopen, true, rfl⟩
    · split at h <;> cases h
      · exact ⟨hopen, true, rfl⟩
      · exact ⟨hopen, false, rfl⟩

theorem trySend_of_open (hopen : c.closed = false) (sender : Nat) (v : α) :
    ∃ c', c.trySend sender v = some c' := by
  rw [trySend, hopen]
  simp only [Bool.false_eq_true, if_false]
  split
  · exact ⟨_, rfl⟩
  · split <;> exact ⟨_, rfl⟩

theorem Whole.full_tried (hw : c.Whole) {b : Bool} (hb : b = false → c.buffer.length = c.capacity) :
    ∀ a ∈ (c.tried sender v b).attempts, a.taken = false → a.held = c.capacity := by
  intro a ha hdropped
  rcases List.mem_append.mp ha with ha | ha
  · exact hw.full a ha hdropped
  · rw [List.mem_singleton] at ha
    rw [ha]
    exact hb (by rw [ha] at hdropped; exact hdropped)

theorem Whole.trySend (hw : c.Whole) (h : c.trySend sender v = some c') : c'.Whole := by
  rw [Buffered.trySend] at h
  split at h
  · contradiction
  split at h
  · -- a receiver waits, so the buffer is empty and the value comes after all the others
    rename_i hwait
    cases h
    have hempty := hw.idle hwait
    constructor
    · show (c.received ++ [v]) ++ c.buffer = (c.tried sender v true).taken
      rw [taken_tried, ← hw.kept, hempty, List.append_nil, List.append_nil]
      rfl
    · exact hw.room
    · intro _
      exact hempty
    · exact hw.full_tried (by simp)
  · rename_i hwait
    split at h
    · rename_i hroom
      cases h
      constructor
      · show c.received ++ (c.buffer ++ [v]) = (c.tried sender v true).taken
        rw [taken_tried, ← hw.kept, List.append_assoc]
        rfl
      · show (c.buffer ++ [v]).length ≤ c.capacity
        rw [List.length_append, List.length_singleton]
        omega
      · intro hpos
        exact absurd hpos hwait
      · exact hw.full_tried (by simp)
    · rename_i hfull
      cases h
      constructor
      · show c.received ++ c.buffer = (c.tried sender v false).taken
        rw [taken_tried, ← hw.kept]
        exact (List.append_nil _).symm
      · exact hw.room
      · exact hw.idle
      · have := hw.room
        exact hw.full_tried (by omega)

theorem quiet_receive (c : Buffered α) : Quiet c c.receive := by
  rw [receive]
  split
  · exact ⟨rfl, rfl, rfl⟩
  · split <;> exact ⟨rfl, rfl, rfl⟩

theorem Whole.receive (hw : c.Whole) : c.receive.Whole := by
  rw [Buffered.receive]
  split
  · rename_i v rest hbuf
    have hroom := hw.room
    rw [hbuf, List.length_cons] at hroom
    constructor
    · show (c.received ++ [v]) ++ rest = c.taken
      rw [← hw.kept, hbuf, List.append_assoc]
      rfl
    · show rest.length ≤ c.capacity
      omega
    · intro hwait
      have := hw.idle hwait
      rw [hbuf] at this
      contradiction
    · exact hw.full
  · rename_i hbuf
    split
    · exact hw
    · exact ⟨hw.kept, hw.room, fun _ => hbuf, hw.full⟩

theorem quiet_leave (c : Buffered α) : Quiet c c.leave := ⟨rfl, rfl, rfl⟩

theorem Whole.leave (hw : c.Whole) : c.leave.Whole := by
  refine ⟨hw.kept, hw.room, ?_, hw.full⟩
  intro hwait
  apply hw.idle
  have : 0 < c.waiting - 1 := hwait
  omega

theorem close_of_open (hopen : c.closed = false) :
    c.close = some { c with closed := true, waiting := 0 } := by
  rw [close, hopen]
  rfl

theorem Whole.close (hw : c.Whole) : ({ c with closed := true, waiting := 0 } : Buffered α).Whole :=
  ⟨hw.kept, hw.room, fun h => absurd h (by simp), hw.full⟩

end Buffered

end Selebrow.Transition
