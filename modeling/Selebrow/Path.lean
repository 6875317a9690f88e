import Mathlib.Data.List.Basic
import Selebrow.Go

/-!
# Slash-separated paths

`path.Clean` and `path.Join`.  A path is read segment by segment with a stack: a name is
pushed, a `..` takes the last name off.  What a path does to any stack below it is told
by its walk: how many names it takes off, and which ones it pushes then.  The names of a
stack and of a walk are in reverse order, the last one first.
-/

namespace Selebrow.Path

def slash : UInt8 := 47
def dot : GoString := bytes "."
def dotDot : GoString := bytes ".."

def pop (rooted : Bool) : List GoString → List GoString
  | [] => if rooted then [] else [dotDot]
  | top :: rest => if top = dotDot then dotDot :: top :: rest else rest

def push (rooted : Bool) (stack : List GoString) (seg : GoString) : List GoString :=
  if seg = [] ∨ seg = dot then stack
  else if seg = dotDot then pop rooted stack
  else seg :: stack

/-- `path.Clean` -/
def clean (p : GoString) : GoString :=
  let rooted : Bool := p.head? = some slash
  let segs := ((p.splitOn slash).foldl (push rooted) []).reverse
  if rooted then slash :: [slash].intercalate segs
  else if segs = [] then dot
  else [slash].intercalate segs

/-- `path.Join` -/
def join (elems : List GoString) : GoString :=
  match elems.dropWhile (· = []) with
  | [] => []
  | e :: rest => clean ([slash].intercalate (e :: rest))

/-- A segment that names something. -/
structure IsName (s : GoString) : Prop where
  ne_nil : s ≠ []
  ne_dot : s ≠ dot
  ne_dotDot : s ≠ dotDot
  no_slash : slash ∉ s

instance (s : GoString) : Decidable (IsName s) :=
  decidable_of_iff (s ≠ [] ∧ s ≠ dot ∧ s ≠ dotDot ∧ slash ∉ s)
    ⟨fun h => ⟨h.1, h.2.1, h.2.2.1, h.2.2.2⟩, fun h => ⟨h.1, h.2, h.3, h.4⟩⟩

/-! ## Rooted paths -/

/-- The rooted path with these names. -/
def absolute (names : List GoString) : GoString := slash :: [slash].intercalate names

/-- The names of a rooted path below a stack of names. -/
def descend (stack : List GoString) (p : GoString) : List GoString :=
  (p.splitOn slash).foldl (push true) stack

/-- The segments of elements that are joined are those of the elements. -/
theorem splitOn_intercalate_cons (e : GoString) (rest : List GoString) :
    ([slash].intercalate (e :: rest)).splitOn slash =
      (e :: rest).flatMap fun p => p.splitOn slash := by
  induction rest generalizing e with
  | nil => simp [List.intercalate]
  | cons e' rest ih =>
    have hsplit := List.splitOn_append_cons_self (a := slash) e ([slash].intercalate (e' :: rest))
    rw [List.intercalate_cons_cons, List.append_assoc, List.singleton_append, hsplit, ih]
    rfl

theorem foldl_descend (elems stack : List GoString) :
    (elems.flatMap fun p => p.splitOn slash).foldl (push true) stack = elems.foldl descend stack := by
  rw [List.foldl_flatMap]
  rfl

/-- Joining with a rooted path is walking down from the root. -/
theorem join_rooted {e : GoString} {rest : List GoString} (h : e.head? = some slash) :
    join (e :: rest) = absolute ((e :: rest).foldl descend []).reverse := by
  have hne : e ≠ [] := by
    rintro rfl
    contradiction
  have hhead : ([slash].intercalate (e :: rest)).head? = some slash := by
    cases rest with
    | nil => simpa [List.intercalate] using h
    | cons e' rest =>
      rw [List.intercalate_cons_cons, List.append_assoc, List.head?_append, h]
      rfl
  have hdrop : (e :: rest).dropWhile (· = []) = e :: rest := by
    rw [List.dropWhile_cons_of_neg]
    simpa using hne
  rw [join, hdrop]
  show clean ([slash].intercalate (e :: rest)) = _
  rw [clean, splitOn_intercalate_cons]
  simp only [hhead, decide_true, if_true, foldl_descend]
  rfl

theorem descend_segment {s : GoString} (h : slash ∉ s) (stack : List GoString) :
    descend stack s = push true stack s := by
  rw [descend, List.splitOn_eq_singleton h]
  rfl

theorem join_nil_cons (elems : List GoString) : join ([] :: elems) = join elems := by
  rw [join, join, List.dropWhile_cons_of_pos]
  rfl

theorem splitOn_absolute {names : List GoString} (h : ∀ s ∈ names, slash ∉ s) (hne : names ≠ []) :
    (absolute names).splitOn slash = [] :: names := by
  have habs : absolute names = [slash].intercalate ([] :: names) := by
    obtain ⟨s, rest, rfl⟩ := List.exists_cons_of_ne_nil hne
    rw [List.intercalate_cons_cons]
    rfl
  rw [habs, List.splitOn_intercalate]
  · intro s hs
    rcases List.mem_cons.mp hs with rfl | hs
    · exact List.not_mem_nil
    · exact h s hs
  · exact List.cons_ne_nil _ _

/-- A rooted path determines its names; one empty name is the root too. -/
theorem absolute_inj {l m : List GoString} (hl : ∀ s ∈ l, slash ∉ s) (hm : ∀ s ∈ m, slash ∉ s)
    (hnl : l ≠ [[]]) (hnm : m ≠ [[]]) (h : absolute l = absolute m) : l = m := by
  have hroot : ∀ {names : List GoString}, (∀ s ∈ names, slash ∉ s) → names ≠ [[]] →
      absolute [] = absolute names → names = [] := by
    intro names hs hn heq
    by_contra hne
    have hsplit := splitOn_absolute hs hne
    rw [← heq] at hsplit
    have hnil : (absolute []).splitOn slash = [[], []] := by decide
    rw [hnil] at hsplit
    exact hn (List.cons.inj hsplit).2.symm
  by_cases hle : l = []
  · rw [hle] at h ⊢
    exact (hroot hm hnm h).symm
  · by_cases hme : m = []
    · rw [hme] at h ⊢
      exact hroot hl hnl h.symm
    · have hsplit := splitOn_absolute hl hle
      rw [h, splitOn_absolute hm hme] at hsplit
      exact (List.cons.inj hsplit).2.symm

theorem absolute_append {l m : List GoString} (hl : l ≠ []) (hm : m ≠ []) :
    absolute (l ++ m) = absolute l ++ absolute m := by
  obtain ⟨s, rest, rfl⟩ := List.exists_cons_of_ne_nil hm
  induction l with
  | nil => contradiction
  | cons a l ih =>
    cases l with
    | nil => simp [absolute, List.intercalate_cons_cons]
    | cons a' l =>
      have hrest := ih (List.cons_ne_nil _ _)
      simp only [absolute, List.cons_append, List.intercalate_cons_cons, List.append_assoc,
        List.cons.injEq, true_and] at hrest ⊢
      rw [hrest]

/-- A rooted path ends in another one exactly when its names do. -/
theorem absolute_suffix_iff {l m : List GoString} (hl : ∀ s ∈ l, slash ∉ s)
    (hm : ∀ s ∈ m, slash ∉ s) (hne : m ≠ []) (hnil : [] ∉ m) :
    absolute m <:+ absolute l ↔ m <:+ l := by
  constructor
  · rintro ⟨front, hfront⟩
    have hsplit := List.splitOn_append_cons_self (a := slash) front ([slash].intercalate m)
    rw [List.splitOn_intercalate slash hm hne] at hsplit
    have hl' : (absolute l).splitOn slash = front.splitOn slash ++ m := by
      rw [← hfront]
      exact hsplit
    obtain ⟨s, rest, hs⟩ := List.exists_cons_of_ne_nil (List.splitOn_ne_nil slash front)
    by_cases hle : l = []
    · have hroot : (absolute []).splitOn slash = [[], []] := by decide
      rw [hle, hroot, hs] at hl'
      -- The root has one empty segment behind its slash, and `m` has none.
      have htail : [[]] = rest ++ m := (List.cons.inj hl').2
      obtain ⟨x, hx⟩ := List.exists_mem_of_ne_nil m hne
      have hroot' : x ∈ [[]] := by
        rw [htail]
        exact List.mem_append_right rest hx
      rw [List.mem_singleton.mp hroot'] at hx
      exact absurd hx hnil
    · rw [splitOn_absolute hl hle, hs] at hl'
      exact ⟨rest, (List.cons.inj hl').2.symm⟩
  · rintro ⟨front, rfl⟩
    by_cases hf : front = []
    · subst hf
      exact List.suffix_refl _
    · rw [absolute_append hf hne]
      exact List.suffix_append _ _

/-! ## Walks -/

structure Walk where
  ups : Nat
  names : List GoString
deriving DecidableEq, Repr

namespace Walk

def start : Walk := ⟨0, []⟩

def up : Walk → Walk
  | ⟨ups, []⟩ => ⟨ups + 1, []⟩
  | ⟨ups, _ :: rest⟩ => ⟨ups, rest⟩

def step (w : Walk) (seg : GoString) : Walk :=
  if seg = [] ∨ seg = dot then w
  else if seg = dotDot then w.up
  else { w with names := seg :: w.names }

/-- What is left of a stack after the walk. -/
def on (w : Walk) (stack : List GoString) : List GoString := w.names ++ stack.drop w.ups

theorem pop_of_not_mem {stack : List GoString} (h : dotDot ∉ stack) : pop true stack = stack.tail := by
  cases stack with
  | nil => rfl
  | cons top rest =>
    have htop : top ≠ dotDot := by
      rintro rfl
      exact h List.mem_cons_self
    exact if_neg htop

theorem up_on {w : Walk} {stack : List GoString} (hs : dotDot ∉ stack) (hw : dotDot ∉ w.names) :
    w.up.on stack = pop true (w.on stack) := by
  have hon : dotDot ∉ w.on stack := by
    rw [on, List.mem_append, not_or]
    exact ⟨hw, fun h => hs (List.mem_of_mem_drop h)⟩
  rw [pop_of_not_mem hon]
  obtain ⟨ups, names⟩ := w
  cases names with
  | nil =>
    show stack.drop (ups + 1) = (stack.drop ups).tail
    rw [List.tail_drop]
  | cons top rest => rfl

theorem on_step {w : Walk} {stack : List GoString} (hs : dotDot ∉ stack) (hw : dotDot ∉ w.names)
    (seg : GoString) : (w.step seg).on stack = push true (w.on stack) seg := by
  rw [step, push]
  by_cases h1 : seg = [] ∨ seg = dot
  · rw [if_pos h1, if_pos h1]
  · rw [if_neg h1, if_neg h1]
    by_cases h2 : seg = dotDot
    · rw [if_pos h2, if_pos h2, up_on hs hw]
    · rw [if_neg h2, if_neg h2]
      rfl

theorem isName_step {w : Walk} {seg : GoString} (hw : ∀ s ∈ w.names, IsName s) (hseg : slash ∉ seg) :
    ∀ s ∈ (w.step seg).names, IsName s := by
  rw [step]
  split
  · exact hw
  · rename_i h1
    split
    · obtain ⟨ups, names⟩ := w
      cases names with
      | nil => exact hw
      | cons top rest => exact (List.forall_mem_cons.mp hw).2
    · rename_i h2
      rw [List.forall_mem_cons]
      exact ⟨⟨fun h => h1 (.inl h), fun h => h1 (.inr h), h2, hseg⟩, hw⟩

end Walk

/-- What a path does to a stack below it. -/
def walk (p : GoString) : Walk := (p.splitOn slash).foldl Walk.step .start

theorem dotDot_not_mem {l : List GoString} (h : ∀ s ∈ l, IsName s) : dotDot ∉ l :=
  fun hm => (h _ hm).ne_dotDot rfl

theorem walk_names (p : GoString) : ∀ s ∈ (walk p).names, IsName s := by
  have hrun : ∀ (segs : List GoString) (w : Walk), (∀ s ∈ w.names, IsName s) →
      (∀ s ∈ segs, slash ∉ s) → ∀ s ∈ (segs.foldl Walk.step w).names, IsName s := by
    intro segs
    induction segs with
    | nil => exact fun _ hw _ => hw
    | cons seg segs ih =>
      intro w hw hsegs
      rw [List.forall_mem_cons] at hsegs
      exact ih _ (Walk.isName_step hw hsegs.1) hsegs.2
  exact hrun _ _ (by simp [Walk.start]) fun s hs => notMem_splitOn hs

/-- The walk of a path tells what descending along it leaves of any stack. -/
theorem descend_eq_walk {stack : List GoString} (hs : ∀ s ∈ stack, IsName s) (p : GoString) :
    descend stack p = (walk p).on stack := by
  have hrun : ∀ (segs : List GoString) (w : Walk), (∀ s ∈ w.names, IsName s) →
      (∀ s ∈ segs, slash ∉ s) →
      segs.foldl (push true) (w.on stack) = (segs.foldl Walk.step w).on stack := by
    intro segs
    induction segs with
    | nil => exact fun _ _ _ => rfl
    | cons seg segs ih =>
      intro w hw hsegs
      rw [List.forall_mem_cons] at hsegs
      rw [List.foldl_cons, List.foldl_cons, ← ih _ (Walk.isName_step hw hsegs.1) hsegs.2,
        Walk.on_step (dotDot_not_mem hs) (dotDot_not_mem hw)]
  exact hrun _ .start (by simp [Walk.start]) fun s hs => notMem_splitOn hs

/-! ## Cleaning twice -/

/-- A stack that a walk leaves: names, above the `..` that lead out of the start. -/
inductive Settled (rooted : Bool) : List GoString → Prop
  | nil : Settled rooted []
  | name {s stack} : IsName s → Settled rooted stack → Settled rooted (s :: stack)
  | up {stack} : rooted = false → (∀ s ∈ stack, s = dotDot) → Settled rooted stack →
      Settled rooted (dotDot :: stack)

theorem Settled.pop {rooted : Bool} {stack : List GoString} (h : Settled rooted stack) :
    Settled rooted (pop rooted stack) := by
  cases h with
  | nil =>
    rw [Path.pop]
    split
    · exact .nil
    · rename_i hrooted
      exact .up (Bool.eq_false_iff.mpr hrooted) (fun s hs => absurd hs List.not_mem_nil) .nil
  | name hs hrest =>
    rw [Path.pop, if_neg hs.ne_dotDot]
    exact hrest
  | up hrooted hall hrest =>
    rw [Path.pop, if_pos rfl]
    refine .up hrooted ?_ (.up hrooted hall hrest)
    intro s hs
    rcases List.mem_cons.mp hs with hs | hs
    · exact hs
    · exact hall s hs

theorem Settled.push {rooted : Bool} {stack : List GoString} {seg : GoString}
    (h : Settled rooted stack) (hseg : slash ∉ seg) : Settled rooted (push rooted stack seg) := by
  rw [Path.push]
  split
  · exact h
  · rename_i h1
    split
    · exact h.pop
    · rename_i h2
      rw [not_or] at h1
      exact .name ⟨h1.1, h1.2, h2, hseg⟩ h

theorem Settled.foldl {rooted : Bool} {stack : List GoString} (segs : List GoString)
    (h : Settled rooted stack) (hsegs : ∀ s ∈ segs, slash ∉ s) :
    Settled rooted (segs.foldl (Path.push rooted) stack) := by
  induction segs generalizing stack with
  | nil => exact h
  | cons seg segs ih =>
    rw [List.forall_mem_cons] at hsegs
    exact ih (h.push hsegs.1) hsegs.2

theorem push_name {rooted : Bool} {stack : List GoString} {s : GoString} (h : IsName s) :
    push rooted stack s = s :: stack := by
  have hskip : ¬(s = [] ∨ s = dot) := by
    rw [not_or]
    exact ⟨h.ne_nil, h.ne_dot⟩
  rw [push, if_neg hskip, if_neg h.ne_dotDot]

theorem push_dotDot {stack : List GoString} (h : ∀ s ∈ stack, s = dotDot) :
    push false stack dotDot = dotDot :: stack := by
  have hskip : ¬(dotDot = [] ∨ dotDot = dot) := by decide
  rw [push, if_neg hskip, if_pos rfl]
  cases stack with
  | nil => rfl
  | cons top rest =>
    have htop : top = dotDot := h top List.mem_cons_self
    rw [pop, if_pos htop]

/-- Pushing the segments of a settled stack rebuilds it. -/
theorem Settled.rebuild {rooted : Bool} {stack : List GoString} (h : Settled rooted stack) :
    stack.reverse.foldl (Path.push rooted) [] = stack := by
  induction h with
  | nil => rfl
  | name hs _ ih => rw [List.reverse_cons, List.foldl_append, ih, List.foldl_cons, push_name hs,
      List.foldl_nil]
  | up hrooted hall _ ih =>
    subst hrooted
    rw [List.reverse_cons, List.foldl_append, ih, List.foldl_cons, push_dotDot hall, List.foldl_nil]

theorem Settled.segment {rooted : Bool} {stack : List GoString} (h : Settled rooted stack) :
    ∀ s ∈ stack, s ≠ [] ∧ slash ∉ s := by
  induction h with
  | nil => exact fun s hs => absurd hs List.not_mem_nil
  | name hs _ ih =>
    rw [List.forall_mem_cons]
    exact ⟨⟨hs.ne_nil, hs.no_slash⟩, ih⟩
  | up _ _ _ ih =>
    rw [List.forall_mem_cons]
    exact ⟨by decide, ih⟩

theorem clean_absolute {stack : List GoString} (h : Settled true stack) :
    clean (absolute stack.reverse) = absolute stack.reverse := by
  have hfold : ((absolute stack.reverse).splitOn slash).foldl (push true) [] = stack := by
    cases stack with
    | nil => rfl
    | cons s rest =>
      rw [splitOn_absolute]
      · exact h.rebuild
      · intro t ht
        exact (h.segment t (List.mem_reverse.mp ht)).2
      · rw [Ne, List.reverse_eq_nil_iff]
        exact List.cons_ne_nil _ _
  have hhead : (absolute stack.reverse).head? = some slash := rfl
  rw [clean]
  simp only [hhead, decide_true, if_true, hfold]
  rfl

theorem head_intercalate {segs : List GoString} (hsegs : ∀ s ∈ segs, s ≠ [] ∧ slash ∉ s) :
    ([slash].intercalate segs).head? ≠ some slash := by
  cases segs with
  | nil => nofun
  | cons s rest =>
    have hs := hsegs s List.mem_cons_self
    obtain ⟨b, s', rfl⟩ := List.exists_cons_of_ne_nil hs.1
    have hhead : ([slash].intercalate ((b :: s') :: rest)).head? = some b := by
      cases rest with
      | nil => rw [List.intercalate_singleton, List.head?_cons]
      | cons s'' rest =>
        rw [List.intercalate_cons_cons, List.append_assoc, List.cons_append, List.head?_cons]
    rw [hhead]
    intro heq
    cases heq
    exact hs.2 List.mem_cons_self

theorem clean_relative {stack : List GoString} (h : Settled false stack) (hne : stack ≠ []) :
    clean ([slash].intercalate stack.reverse) = [slash].intercalate stack.reverse := by
  have hsegs : ∀ s ∈ stack.reverse, s ≠ [] ∧ slash ∉ s := by
    intro s hs
    exact h.segment s (List.mem_reverse.mp hs)
  have hne' : stack.reverse ≠ [] := by
    rw [Ne, List.reverse_eq_nil_iff]
    exact hne
  have hsplit := List.splitOn_intercalate slash (fun s hs => (hsegs s hs).2) hne'
  rw [clean, hsplit]
  simp only [head_intercalate hsegs, decide_false, Bool.false_eq_true, if_false, hne', h.rebuild]

theorem clean_clean (p : GoString) : clean (clean p) = clean p := by
  have hsegs : ∀ s ∈ p.splitOn slash, slash ∉ s := fun s hs => notMem_splitOn hs
  by_cases hhead : p.head? = some slash
  · have hclean : clean p = absolute ((p.splitOn slash).foldl (push true) []).reverse := by
      rw [clean]
      simp only [hhead, decide_true, if_true]
      rfl
    rw [hclean]
    exact clean_absolute (Settled.nil.foldl _ hsegs)
  · have hstack : Settled false ((p.splitOn slash).foldl (push false) []) :=
      Settled.nil.foldl _ hsegs
    by_cases hnil : (p.splitOn slash).foldl (push false) [] = []
    · have hclean : clean p = dot := by
        rw [clean]
        simp only [hhead, decide_false, hnil, List.reverse_nil, Bool.false_eq_true, if_false, if_true]
      rw [hclean]
      decide
    · have hclean : clean p =
          [slash].intercalate ((p.splitOn slash).foldl (push false) []).reverse := by
        rw [clean]
        simp only [hhead, decide_false, Bool.false_eq_true, if_false, List.reverse_eq_nil_iff, hnil]
      rw [hclean]
      exact clean_relative hstack hnil

theorem clean_ne_nil (p : GoString) : clean p ≠ [] := by
  intro h
  have hdot : clean [] = dot := by decide
  have hnil := clean_clean p
  rw [h, hdot] at hnil
  contradiction

/-- A joined path is left as it is when it is joined again. -/
theorem join_join (elems : List GoString) : join [join elems] = join elems := by
  have hjoin : join elems = [] ∨ ∃ p, join elems = clean p := by
    rw [join]
    split
    · exact .inl rfl
    · exact .inr ⟨_, rfl⟩
  rcases hjoin with h | ⟨p, h⟩
  · rw [h]
    rfl
  · have hdrop : [clean p].dropWhile (· = []) = [clean p] := by
      rw [List.dropWhile_cons_of_neg]
      simpa using clean_ne_nil p
    rw [h, join, hdrop]
    show clean ([slash].intercalate [clean p]) = clean p
    rw [List.intercalate_singleton, clean_clean]

/-! ## Names behind slashes -/

/-- Each name behind a slash; without names it is the empty path. -/
def rooted (names : List GoString) : GoString := names.flatMap (slash :: ·)

theorem rooted_append (l m : List GoString) : rooted (l ++ m) = rooted l ++ rooted m :=
  List.flatMap_append

theorem absolute_eq_rooted {names : List GoString} (hne : names ≠ []) :
    absolute names = rooted names := by
  induction names with
  | nil => contradiction
  | cons s rest ih =>
    have hone : absolute [s] = rooted [s] := by simp [absolute, rooted, List.intercalate]
    cases rest with
    | nil => exact hone
    | cons s' rest =>
      have hsplit := absolute_append (List.cons_ne_nil s []) (List.cons_ne_nil s' rest)
      rw [hone, ih (List.cons_ne_nil _ _), ← rooted_append] at hsplit
      exact hsplit

theorem splitOn_rooted {names : List GoString} (h : ∀ s ∈ names, slash ∉ s) :
    (rooted names).splitOn slash = [] :: names := by
  by_cases hne : names = []
  · rw [hne]
    rfl
  · rw [← absolute_eq_rooted hne, splitOn_absolute h hne]

theorem eq_rooted_of_splitOn {p : GoString} {names : List GoString}
    (h : p.splitOn slash = [] :: names) : p = rooted names := by
  have hjoin : [slash].intercalate (p.splitOn slash) = p := List.intercalate_splitOn slash
  rw [h] at hjoin
  rw [← hjoin]
  cases names with
  | nil => rfl
  | cons s rest =>
    rw [List.intercalate_cons_cons, ← absolute_eq_rooted (List.cons_ne_nil _ _)]
    rfl

theorem splitOn_slash_cons (p : GoString) : (slash :: p).splitOn slash = [] :: p.splitOn slash :=
  List.splitOn_append_cons_self [] p

/-- The segments of a rooted path begin with an empty one. -/
theorem splitOn_of_rooted {p : GoString} (h : p = [] ∨ p.head? = some slash) :
    p.splitOn slash = [] :: (p.splitOn slash).tail := by
  cases p with
  | nil => rfl
  | cons b rest =>
    rcases h with h | h
    · exact absurd h (List.cons_ne_nil _ _)
    · have hb : b = slash := Option.some.inj h
      rw [hb, splitOn_slash_cons, List.tail_cons]

theorem foldl_push_names {root : Bool} {segs : List GoString} (h : ∀ s ∈ segs, IsName s)
    (stack : List GoString) : segs.foldl (push root) stack = segs.reverse ++ stack := by
  induction segs generalizing stack with
  | nil => rfl
  | cons s segs ih =>
    rw [List.forall_mem_cons] at h
    rw [List.foldl_cons, push_name h.1, ih h.2, List.reverse_cons, List.append_assoc]
    rfl

/-- The names of a path that has them behind slashes. -/
theorem descend_rooted {names : List GoString} (h : ∀ s ∈ names, IsName s) (stack : List GoString) :
    descend stack (rooted names) = names.reverse ++ stack := by
  rw [descend, splitOn_rooted fun s hs => (h s hs).no_slash, List.foldl_cons]
  exact foldl_push_names h stack

/-- A trailing slash does not count. -/
theorem descend_append_slash (stack : List GoString) (p : GoString) :
    descend stack (p ++ [slash]) = descend stack p := by
  rw [descend, List.splitOn_append_cons_self p [], List.foldl_append]
  rfl

theorem walk_slash_cons {p : GoString} (h : ∀ s ∈ p.splitOn slash, IsName s) :
    walk (slash :: p) = ⟨0, (p.splitOn slash).reverse⟩ := by
  have hrun : ∀ (segs : List GoString) (w : Walk), (∀ s ∈ segs, IsName s) →
      segs.foldl Walk.step w = ⟨w.ups, segs.reverse ++ w.names⟩ := by
    intro segs
    induction segs with
    | nil => exact fun _ _ => rfl
    | cons s segs ih =>
      intro w hsegs
      rw [List.forall_mem_cons] at hsegs
      have hstep : w.step s = ⟨w.ups, s :: w.names⟩ := by
        rw [Walk.step, if_neg (not_or.mpr ⟨hsegs.1.ne_nil, hsegs.1.ne_dot⟩), if_neg hsegs.1.ne_dotDot]
      rw [List.foldl_cons, hstep, ih _ hsegs.2, List.reverse_cons, List.append_assoc]
      rfl
  rw [walk, splitOn_slash_cons, List.foldl_cons, hrun _ _ h]
  show Walk.mk 0 ((p.splitOn slash).reverse ++ []) = _
  rw [List.append_nil]

end Selebrow.Path
