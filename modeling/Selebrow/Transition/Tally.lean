import Mathlib.Data.List.Count
import Mathlib.Data.List.Nodup
import Mathlib.Data.List.Perm.Subperm

/-!
# Weights along a list

`tally w l` is the total of a weight over a list of threads, pools or records.
A step of a machine changes one entry or appends one, so the lemmas say what
that does to the total, in the additive form `omega` can use.
-/

namespace Selebrow.Transition

variable {γ δ : Type}

def tally (w : γ → Nat) : List γ → Nat
  | [] => 0
  | c :: rest => w c + tally w rest

@[simp] theorem tally_nil (w : γ → Nat) : tally w [] = 0 := rfl

@[simp] theorem tally_cons (w : γ → Nat) (c : γ) (l : List γ) :
    tally w (c :: l) = w c + tally w l := rfl

@[simp] theorem tally_append (w : γ → Nat) (l m : List γ) :
    tally w (l ++ m) = tally w l + tally w m := by
  induction l with
  | nil => simp
  | cons c rest ih => simp only [List.cons_append, tally_cons, ih, Nat.add_assoc]

theorem tally_perm (w : γ → Nat) {l m : List γ} (h : l.Perm m) : tally w l = tally w m := by
  induction h with
  | nil => rfl
  | cons c _ ih => rw [tally_cons, tally_cons, ih]
  | swap c d l =>
    simp only [tally_cons]
    omega
  | trans _ _ ih ih' => exact ih.trans ih'

/-- Replacing one entry moves the total by the difference of the two weights. -/
theorem tally_set (w : γ → Nat) {l : List γ} {i : Nat} {c : γ} (c' : γ)
    (h : l[i]? = some c) : tally w (l.set i c') + w c = tally w l + w c' := by
  induction l generalizing i with
  | nil => simp at h
  | cons d rest ih =>
    cases i with
    | zero =>
      simp only [List.getElem?_cons_zero, Option.some.injEq] at h
      simp only [List.set_cons_zero, tally_cons, h]
      omega
    | succ i =>
      simp only [List.getElem?_cons_succ] at h
      have := ih h
      simp only [List.set_cons_succ, tally_cons]
      omega

theorem le_tally (w : γ → Nat) {l : List γ} {i : Nat} {c : γ} (h : l[i]? = some c) :
    w c ≤ tally w l := by
  induction l generalizing i with
  | nil => simp at h
  | cons d rest ih =>
    cases i with
    | zero =>
      simp only [List.getElem?_cons_zero, Option.some.injEq] at h
      simp only [tally_cons, h]
      omega
    | succ i =>
      simp only [List.getElem?_cons_succ] at h
      have := ih h
      simp only [tally_cons]
      omega

/-- Two different entries both count. -/
theorem add_le_tally (w : γ → Nat) {l : List γ} {i j : Nat} {c d : γ} (hij : i ≠ j)
    (hi : l[i]? = some c) (hj : l[j]? = some d) : w c + w d ≤ tally w l := by
  induction l generalizing i j with
  | nil => simp at hi
  | cons e rest ih =>
    cases i with
    | zero =>
      cases j with
      | zero => exact absurd rfl hij
      | succ j =>
        simp only [List.getElem?_cons_zero, Option.some.injEq] at hi
        have := le_tally w (l := rest) (i := j) (c := d) (by simpa using hj)
        simp only [tally_cons, hi]
        omega
    | succ i =>
      cases j with
      | zero =>
        simp only [List.getElem?_cons_zero, Option.some.injEq] at hj
        have := le_tally w (l := rest) (i := i) (c := c) (by simpa using hi)
        simp only [tally_cons, hj]
        omega
      | succ j =>
        have := ih (i := i) (j := j) (by omega) (by simpa using hi) (by simpa using hj)
        simp only [tally_cons]
        omega

theorem exists_of_tally_pos {w : γ → Nat} {l : List γ} (h : 0 < tally w l) :
    ∃ (i : Nat) (c : γ), l[i]? = some c ∧ 0 < w c := by
  induction l with
  | nil => simp at h
  | cons d rest ih =>
    by_cases hd : 0 < w d
    · exact ⟨0, d, rfl, hd⟩
    · simp only [tally_cons] at h
      obtain ⟨i, c, hi, hc⟩ := ih (by omega)
      exact ⟨i + 1, c, by simpa using hi, hc⟩

theorem tally_map (w : δ → Nat) (f : γ → δ) (l : List γ) :
    tally w (l.map f) = tally (fun c => w (f c)) l := by
  induction l with
  | nil => rfl
  | cons c rest ih => rw [List.map_cons, tally_cons, tally_cons, ih]

theorem length_flatMap_eq_tally (f : γ → List δ) (l : List γ) :
    (l.flatMap f).length = tally (fun c => (f c).length) l := by
  induction l with
  | nil => rfl
  | cons c rest ih => rw [List.flatMap_cons, List.length_append, ih, tally_cons]

theorem tally_eq_zero {w : γ → Nat} {l : List γ} (h : ∀ c ∈ l, w c = 0) : tally w l = 0 := by
  induction l with
  | nil => rfl
  | cons c rest ih =>
    rw [tally_cons, h c List.mem_cons_self, ih fun d hd => h d (List.mem_cons_of_mem c hd)]

theorem tally_congr {v w : γ → Nat} {l : List γ} (h : ∀ c ∈ l, v c = w c) :
    tally v l = tally w l := by
  induction l with
  | nil => rfl
  | cons c rest ih =>
    rw [tally_cons, tally_cons, h c List.mem_cons_self,
      ih fun d hd => h d (List.mem_cons_of_mem c hd)]

theorem tally_le {v w : γ → Nat} {l : List γ} (h : ∀ c ∈ l, v c ≤ w c) : tally v l ≤ tally w l := by
  induction l with
  | nil => exact Nat.le_refl 0
  | cons c rest ih =>
    have := h c List.mem_cons_self
    have := ih fun d hd => h d (List.mem_cons_of_mem c hd)
    rw [tally_cons, tally_cons]
    omega

theorem tally_add (v w : γ → Nat) (l : List γ) :
    tally (fun c => v c + w c) l = tally v l + tally w l := by
  induction l with
  | nil => rfl
  | cons c rest ih =>
    rw [tally_cons, tally_cons, tally_cons, ih]
    omega

theorem tally_filter_le (w : γ → Nat) (p : γ → Bool) (l : List γ) :
    tally w (l.filter p) ≤ tally w l := by
  induction l with
  | nil => exact Nat.le_refl 0
  | cons c rest ih =>
    rw [List.filter_cons, tally_cons]
    split
    · rw [tally_cons]
      omega
    · omega

theorem tally_eq_count (f : γ → Nat) (b : Nat) (l : List γ) :
    tally (fun c => if f c = b then 1 else 0) l = (l.map f).count b := by
  induction l with
  | nil => rfl
  | cons c rest ih =>
    rw [tally_cons, ih, List.map_cons, List.count_cons, Nat.add_comm]
    simp only [beq_iff_eq]

/-- Counting is the tally of a zero-one weight. -/
theorem countP_eq_tally (p : γ → Bool) (l : List γ) :
    l.countP p = tally (fun c => (p c).toNat) l := by
  induction l with
  | nil => rfl
  | cons c rest ih =>
    rw [List.countP_cons, tally_cons, ih]
    cases p c <;> simp [Nat.add_comm]

theorem countP_set_add (p : γ → Bool) {l : List γ} {i : Nat} {c : γ} (c' : γ)
    (h : l[i]? = some c) :
    (l.set i c').countP p + (p c).toNat = l.countP p + (p c').toNat := by
  rw [countP_eq_tally, countP_eq_tally]
  exact tally_set _ c' h

theorem countP_zip_fst {γ δ : Type} (p : γ → Bool) {l : List γ} {m : List δ}
    (h : l.length = m.length) : (l.zip m).countP (fun x => p x.1) = l.countP p := by
  show (l.zip m).countP (p ∘ Prod.fst) = l.countP p
  rw [← List.countP_map, List.map_fst_zip (by omega)]

theorem countP_zip_snd {γ δ : Type} (q : δ → Bool) {l : List γ} {m : List δ}
    (h : l.length = m.length) : (l.zip m).countP (fun x => q x.2) = m.countP q := by
  show (l.zip m).countP (q ∘ Prod.snd) = m.countP q
  rw [← List.countP_map, List.map_snd_zip (by omega)]

theorem countP_or_le (p q : γ → Bool) (l : List γ) :
    l.countP (fun c => p c || q c) ≤ l.countP p + l.countP q := by
  induction l with
  | nil => exact Nat.le_refl 0
  | cons c rest ih =>
    rw [List.countP_cons, List.countP_cons, List.countP_cons]
    cases p c <;> cases q c <;> simp only [Bool.or_true, Bool.or_false, if_true] <;> omega

/-- A list that has every number below `n` once and nothing else is `n` long. -/
theorem length_of_count {l : List Nat} {n : Nat}
    (h : ∀ b, (b < n → l.count b = 1) ∧ (n ≤ b → l.count b = 0)) : l.length = n := by
  have hperm : l.Perm (List.range n) := by
    rw [List.perm_iff_count]
    intro b
    rw [List.count_range]
    split
    · rename_i hb
      exact (h b).1 hb
    · exact (h b).2 (by omega)
  rw [hperm.length_eq, List.length_range]

/-- The positions of the entries that meet `p`. -/
def positions (p : γ → Bool) (l : List γ) : List Nat :=
  (l.zipIdx.filter fun x => p x.1).map Prod.snd

theorem length_positions (p : γ → Bool) (l : List γ) : (positions p l).length = l.countP p := by
  rw [positions, List.length_map, ← List.countP_eq_length_filter]
  show l.zipIdx.countP (p ∘ Prod.fst) = l.countP p
  rw [← List.countP_map, List.zipIdx_map_fst]

theorem mem_positions {p : γ → Bool} {l : List γ} {i : Nat} :
    i ∈ positions p l ↔ ∃ c, l[i]? = some c ∧ p c = true := by
  simp [positions, List.mem_zipIdx_iff_getElem?]

/-- When `f` sends the entries of `l` that meet `p` to different entries of `m` that
meet `q`, no more entries meet `p` than meet `q`. -/
theorem countP_le_of_injection {p : γ → Bool} {q : δ → Bool} {l : List γ} {m : List δ}
    {f : List Nat} (hlen : l.length = f.length) (hf : f.Nodup)
    (h : ∀ (c : Nat) (x : γ) (i : Nat), l[c]? = some x → p x = true → f[c]? = some i →
      ∃ y, m[i]? = some y ∧ q y = true) : l.countP p ≤ m.countP q := by
  have hcount : (((l.zip f).filter fun x => p x.1).map Prod.snd).length = l.countP p := by
    rw [List.length_map, ← List.countP_eq_length_filter]
    show (l.zip f).countP (p ∘ Prod.fst) = l.countP p
    rw [← List.countP_map, List.map_fst_zip (by omega)]
  have hnodup : (((l.zip f).filter fun x => p x.1).map Prod.snd).Nodup := by
    apply List.Nodup.sublist (List.Sublist.map _ (List.filter_sublist))
    rw [List.map_snd_zip (by omega)]
    exact hf
  have hsub : ((l.zip f).filter fun x => p x.1).map Prod.snd ⊆ positions q m := by
    intro i hi
    obtain ⟨⟨x, j⟩, hx, rfl⟩ := List.mem_map.mp hi
    rw [List.mem_filter] at hx
    obtain ⟨c, hc⟩ := List.mem_iff_getElem?.mp hx.1
    rw [List.getElem?_zip_eq_some] at hc
    exact mem_positions.mpr (h c x j hc.1 hx.2 hc.2)
  rw [← hcount, ← length_positions]
  exact (List.subperm_of_subset hnodup hsub).length_le


end Selebrow.Transition
