import Mathlib.Data.List.Basic

/-!
# Lists whose entries are replaced or appended

A machine keeps its threads and records in lists and names them by position.  A step
replaces the entry at one position or appends one, and the lemmas say where an entry of
the new list comes from and where an entry of the old list goes.
-/

namespace Selebrow.Transition

variable {γ : Type} {l m : List γ} {i j : Nat} {c d : γ}

theorem lt_of_getElem? (h : l[i]? = some c) : i < l.length :=
  (List.getElem?_eq_some_iff.mp h).1

theorem getElem?_append_some (h : l[i]? = some c) : (l ++ m)[i]? = some c := by
  rw [List.getElem?_append_left (lt_of_getElem? h)]
  exact h

/-- An entry after an append was there, or is the new one. -/
theorem getElem?_concat_some (h : (l ++ [d])[j]? = some c) :
    l[j]? = some c ∨ (j = l.length ∧ c = d) := by
  rw [List.getElem?_append] at h
  split at h
  · exact .inl h
  · have hlt := lt_of_getElem? h
    have hmem := List.mem_of_getElem? h
    rw [List.length_singleton] at hlt
    rw [List.mem_singleton] at hmem
    exact .inr ⟨by omega, hmem⟩

theorem getElem?_set_eq (h : l[i]? = some c) : (l.set i d)[i]? = some d :=
  List.getElem?_set_self (lt_of_getElem? h)

theorem set_eq_self (h : l[i]? = some c) : l.set i c = l := by
  apply List.ext_getElem?
  intro j
  by_cases hij : i = j
  · subst hij
    rw [getElem?_set_eq h, h]
  · rw [List.getElem?_set_ne hij]

/-- An entry after a replacement is the new one, or was there at another position. -/
theorem getElem?_set_some (h : (l.set i d)[j]? = some c) :
    (i = j ∧ c = d) ∨ (i ≠ j ∧ l[j]? = some c) := by
  by_cases hij : i = j
  · subst hij
    have hlt := lt_of_getElem? h
    rw [List.length_set] at hlt
    rw [List.getElem?_set_self hlt, Option.some.injEq] at h
    exact .inl ⟨rfl, h.symm⟩
  · rw [List.getElem?_set_ne hij] at h
    exact .inr ⟨hij, h⟩

/-- Each entry goes over to one that is related to it when one entry is replaced by a
related one. -/
theorem exists_getElem?_set {R : γ → γ → Prop} (hrefl : ∀ c, R c c) (hi : l[i]? = some d)
    {d' : γ} (hd : R d d') (hj : l[j]? = some c) : ∃ c', (l.set i d')[j]? = some c' ∧ R c c' := by
  by_cases hij : i = j
  · subst hij
    rw [hi, Option.some.injEq] at hj
    subst hj
    exact ⟨d', getElem?_set_eq hi, hd⟩
  · refine ⟨c, ?_, hrefl c⟩
    rw [List.getElem?_set_ne hij]
    exact hj

/-- A replacement takes only the entry that is replaced. -/
theorem mem_set_of_ne (hi : l[i]? = some d) (hc : c ∈ l) (hne : c ≠ d) (d' : γ) :
    c ∈ l.set i d' := by
  obtain ⟨j, hj⟩ := List.mem_iff_getElem?.mp hc
  have hij : i ≠ j := by
    intro heq
    subst heq
    rw [hi] at hj
    exact hne (Option.some.inj hj).symm
  apply List.mem_iff_getElem?.mpr
  apply Exists.intro j
  rw [List.getElem?_set_ne hij]
  exact hj

/-- What holds of the entries and of the new one holds after a replacement. -/
theorem forall_mem_set {P : γ → Prop} (h : ∀ x ∈ l, P x) (hd : P d) : ∀ x ∈ l.set i d, P x := by
  intro x hx
  rcases List.mem_or_eq_of_mem_set hx with hx | rfl
  · exact h x hx
  · exact hd

theorem forall_mem_append {P : γ → Prop} (h : ∀ x ∈ l, P x) (hm : ∀ x ∈ m, P x) :
    ∀ x ∈ l ++ m, P x := by
  intro x hx
  rcases List.mem_append.mp hx with hx | hx
  · exact h x hx
  · exact hm x hx

end Selebrow.Transition
