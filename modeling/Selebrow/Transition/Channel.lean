import Mathlib.Data.List.Basic

/-!
# One direction of a byte stream

What a sender has sent, what its receiver has been given, and what is on the way between
the two.  A channel is whole when these three fit together and, should the receiver have
left, as long as what it was given is the beginning of what was sent.
-/

namespace Selebrow.Transition

structure Channel (α : Type) where
  sent : List α
  received : List α
  inTransit : List α
  /-- The receiver has left. -/
  gone : Bool

namespace Channel

variable {α : Type} {c c' : Channel α}

def Whole (c : Channel α) : Prop :=
  c.received <+: c.sent ∧ (c.gone = false → c.sent = c.received ++ c.inTransit)

/-- What a carrier may do: take what is sent, hand on what it has taken, and drop
everything when there is nobody to receive it. -/
inductive Carries (c : Channel α) : Channel α → Prop
  | rests : Carries c c
  | takes (d : List α) : Carries c { c with sent := c.sent ++ d, inTransit := c.inTransit ++ d }
  | delivers (d rest : List α) (hd : c.inTransit = d ++ rest) (hg : c.gone = false) :
      Carries c { c with received := c.received ++ d, inTransit := rest }
  | leaves : Carries c { c with gone := true }
  | discards (sent rest : List α) (hs : c.sent <+: sent) (hg : c.gone = true) :
      Carries c { c with sent := sent, inTransit := rest }

/-- What a carrier may not do: the channel has a receiver, and less or something else is
on the way than was, or what is sent is not taken. -/
inductive Loses (c : Channel α) : Channel α → Prop
  | drops (rest : List α) (hne : rest ≠ c.inTransit) (hg : c.gone = false) :
      Loses c { c with inTransit := rest }
  | misses (d : List α) (hne : d ≠ []) (hg : c.gone = false) :
      Loses c { c with sent := c.sent ++ d }

theorem Carries.whole (h : Carries c c') (hw : c.Whole) : c'.Whole := by
  obtain ⟨hpre, hall⟩ := hw
  cases h with
  | rests => exact ⟨hpre, hall⟩
  | takes d =>
    constructor
    · exact hpre.trans (List.prefix_append c.sent d)
    · intro hg
      show c.sent ++ d = c.received ++ (c.inTransit ++ d)
      rw [hall hg, List.append_assoc]
  | delivers d rest hd hg =>
    have hsent : c.sent = (c.received ++ d) ++ rest := by
      rw [hall hg, hd, List.append_assoc]
    constructor
    · exact ⟨rest, hsent.symm⟩
    · intro _
      exact hsent
  | leaves =>
    constructor
    · exact hpre
    · intro hg
      exact absurd hg (by simp)
  | discards sent rest hs hg =>
    constructor
    · exact hpre.trans hs
    · intro hg'
      exact absurd (hg.symm.trans hg') (by simp)

theorem Loses.not_whole (h : Loses c c') (hw : c.Whole) : ¬ c'.Whole := by
  intro hw'
  cases h with
  | drops rest hne hg =>
    have h' : c.sent = c.received ++ rest := hw'.2 hg
    rw [hw.2 hg] at h'
    exact hne (List.append_cancel_left h').symm
  | misses d hne hg =>
    have h' : c.sent ++ d = c.received ++ c.inTransit := hw'.2 hg
    rw [← hw.2 hg] at h'
    exact hne (List.append_right_eq_self.mp h')

end Channel

end Selebrow.Transition
