import Mathlib.Data.List.Basic
import Selebrow.Go

/-!
# Polling until a deadline

A loop asks, judges the answer, and asks again at the next tick of a clock unless its context
is done by then.  What it is told depends on all that went before, so the partner is a
function of the log.  A context with a deadline is done at some point, and the loop ends with
it: that is a field of `Deadline`, and `poll` is total because of it.
-/

namespace Selebrow.Transition

/-- What the loop makes of an answer: the end, an error of its own, or another try. -/
inductive Verdict (ε : Type)
  | ready
  | failed (err : ε)
  | retry (err : ε)

/-- Which case the `select` between the tries takes, by the log at that moment. -/
structure Deadline (η : Type) where
  done : List η → Option CtxErr
  bound : Nat
  passes : ∀ log, bound ≤ log.length → (done log).isSome = true

section

variable {η ε : Type} (d : Deadline η) (ask : List η → η) (judge : η → Verdict ε)
  (giveUp : CtxErr → ε → ε)

def poll (log : List η) : Except ε Unit × List η :=
  match judge (ask log) with
  | .ready => (.ok (), log ++ [ask log])
  | .failed err => (.error err, log ++ [ask log])
  | .retry err =>
    match _hopen : d.done (log ++ [ask log]) with
    | some cause => (.error (giveUp cause err), log ++ [ask log])
    | none => poll (log ++ [ask log])
termination_by d.bound - log.length
decreasing_by
  have hlt : ¬ d.bound ≤ (log ++ [ask log]).length := by
    intro hle
    have := d.passes _ hle
    rw [_hopen] at this
    contradiction
  rw [List.length_append, List.length_singleton] at hlt ⊢
  omega

/-- How the loop ends on its last answer. -/
inductive Ends (log : List η) (last : η) : Except ε Unit → Prop
  | ready (h : judge last = .ready) : Ends log last (.ok ())
  | failed (err : ε) (h : judge last = .failed err) : Ends log last (.error err)
  | gaveUp (err : ε) (cause : CtxErr) (h : judge last = .retry err)
      (hdone : d.done (log ++ [last]) = some cause) : Ends log last (.error (giveUp cause err))

/-- The run of a loop from this log: each answer but the last was one to try again after,
with the context not done, and the last one decides. -/
structure Polled (log tried : List η) (last : η) (result : Except ε Unit × List η) : Prop where
  log_eq : result.2 = log ++ tried ++ [last]
  retried : ∀ x ∈ tried, (∃ l, x = ask l) ∧ ∃ err, judge x = .retry err
  asked : ∃ l, last = ask l
  bound : tried ≠ [] → log.length + tried.length < d.bound
  ends : Ends d judge giveUp (log ++ tried) last result.1

theorem polled_first {log : List η} {result : Except ε Unit × List η}
    (hlog : result.2 = log ++ [ask log]) (hend : Ends d judge giveUp log (ask log) result.1) :
    Polled d ask judge giveUp log [] (ask log) result := by
  refine ⟨?_, by simp, ⟨log, rfl⟩, fun h => absurd rfl h, ?_⟩
  · rw [List.append_nil]
    exact hlog
  · rw [List.append_nil]
    exact hend

theorem poll_polled (log : List η) :
    ∃ tried last, Polled d ask judge giveUp log tried last (poll d ask judge giveUp log) := by
  fun_induction poll d ask judge giveUp log with
  | case1 log h => exact ⟨[], ask log, polled_first d ask judge giveUp rfl (.ready h)⟩
  | case2 log err h => exact ⟨[], ask log, polled_first d ask judge giveUp rfl (.failed err h)⟩
  | case3 log err h cause hdone =>
    exact ⟨[], ask log, polled_first d ask judge giveUp rfl (.gaveUp err cause h hdone)⟩
  | case4 log err h hopen ih =>
    have hlt : log.length + 1 < d.bound := by
      by_contra hle
      have := d.passes (log ++ [ask log]) (by simpa using hle)
      rw [hopen] at this
      contradiction
    obtain ⟨tried, last, hp⟩ := ih
    refine ⟨ask log :: tried, last, ?_, ?_, hp.asked, ?_, ?_⟩
    · rw [hp.log_eq]
      simp
    · intro x hx
      rcases List.mem_cons.mp hx with rfl | hx
      · exact ⟨⟨log, rfl⟩, err, h⟩
      · exact hp.retried x hx
    · intro _
      rw [List.length_cons]
      by_cases hnil : tried = []
      · rw [hnil, List.length_nil]
        exact hlt
      · have := hp.bound hnil
        rw [List.length_append, List.length_singleton] at this
        omega
    · have hend := hp.ends
      rw [List.append_assoc, List.singleton_append] at hend
      exact hend

end

end Selebrow.Transition
