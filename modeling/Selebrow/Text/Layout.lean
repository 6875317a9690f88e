import Mathlib.Data.List.Basic

/-!
# Reading a concatenation back

Texts that are written one after the other can be told apart when something says
where each one ends.  Here that is the layout, the list of their lengths, or a
separator that does not occur after its last place.
-/

namespace Selebrow.Text

variable {α : Type}

/-- The lengths of the pieces. -/
def layout (l : List (List α)) : List Nat := l.map List.length

/-- Pieces of the same lengths make joins of the same length. -/
theorem length_intercalate_of_layout (sep : List α) {l m : List (List α)}
    (h : layout l = layout m) :
    (List.intercalate sep l).length = (List.intercalate sep m).length := by
  induction l generalizing m with
  | nil =>
    cases m with
    | nil => rfl
    | cons y m => simp [layout] at h
  | cons x l ih =>
    cases m with
    | nil => simp [layout] at h
    | cons y m =>
      simp only [layout, List.map_cons, List.cons.injEq] at h
      have := ih h.2
      cases l with
      | nil =>
        cases m with
        | nil => simpa [List.intercalate] using h.1
        | cons z m => simp at h
      | cons w l =>
        cases m with
        | nil => simp at h
        | cons z m =>
          rw [List.intercalate_cons_cons, List.intercalate_cons_cons]
          simp only [List.length_append, this, h.1]

/-- Joins of pieces of the same lengths are equal only if the pieces are. -/
theorem intercalate_inj (sep : List α) {l m : List (List α)}
    (h : List.intercalate sep l = List.intercalate sep m) (hl : layout l = layout m) : l = m := by
  induction l generalizing m with
  | nil =>
    cases m with
    | nil => rfl
    | cons y m => simp [layout] at hl
  | cons x l ih =>
    cases m with
    | nil => simp [layout] at hl
    | cons y m =>
      simp only [layout, List.map_cons, List.cons.injEq] at hl
      cases l with
      | nil =>
        cases m with
        | nil => simpa [List.intercalate] using h
        | cons z m => simp at hl
      | cons w l =>
        cases m with
        | nil => simp at hl
        | cons z m =>
          rw [List.intercalate_cons_cons, List.intercalate_cons_cons, List.append_assoc,
            List.append_assoc] at h
          obtain ⟨hxy, hrest⟩ := List.append_inj h hl.1
          have hjoin := (List.append_inj hrest rfl).2
          rw [hxy, ih hjoin hl.2]

/-- The same with more text after the joins. -/
theorem intercalate_append_inj (sep : List α) {l m : List (List α)} {t u : List α}
    (h : List.intercalate sep l ++ t = List.intercalate sep m ++ u) (hl : layout l = layout m) :
    l = m ∧ t = u := by
  obtain ⟨hjoin, hrest⟩ := List.append_inj h (length_intercalate_of_layout sep hl)
  exact ⟨intercalate_inj sep hjoin hl, hrest⟩

/-- What follows the last separator can be told from what precedes it. -/
theorem append_cons_inj {sep : α} {s s' t t' : List α} (ht : sep ∉ t) (ht' : sep ∉ t')
    (h : s ++ sep :: t = s' ++ sep :: t') : s = s' ∧ t = t' := by
  rcases List.append_eq_append_iff.mp h with ⟨w, hs, hw⟩ | ⟨w, hs, hw⟩
  · cases w with
    | nil => exact ⟨by simpa using hs.symm, by simpa using hw⟩
    | cons x w =>
      rw [List.cons_append, List.cons.injEq] at hw
      exact absurd (hw.2 ▸ by simp) ht
  · cases w with
    | nil => exact ⟨by simpa using hs, by simpa using hw.symm⟩
    | cons x w =>
      rw [List.cons_append, List.cons.injEq] at hw
      exact absurd (hw.2 ▸ by simp) ht'

end Selebrow.Text
