import Selebrow.Yaml.Scalar

/-!
# Blocks of YAML

Block maps and block sequences whose keys are plain and stand on one line, as the YAML 1.1
library reads them.  What else a value can be is a parameter: `node` reads the text behind a key
or a dash together with the lines below it, and gives nothing where the value does not end with
them or needs what stands elsewhere.  So nothing is read wrongly below a key that is left to it.
-/

namespace Selebrow.Yaml

structure Line where
  indent : Nat
  text : GoString
deriving DecidableEq

def lineOf (s : GoString) : Line := ⟨(s.takeWhile (· = 32)).length, s.dropWhile (· = 32)⟩

def linesOf (s : GoString) : List Line := (s.splitOn 10).map lineOf

/-- A line and the lines that belong to it. -/
abbrev Group := Line × List Line

def Group.lines (g : Group) : List Line := g.1 :: g.2

/-- The lines before the first head, and the heads with the lines behind them. -/
def group (isHead : Line → Bool) : List Line → List Line × List Group
  | [] => ([], [])
  | l :: ls =>
    if isHead l then ([], (l, (group isHead ls).1) :: (group isHead ls).2)
    else (l :: (group isHead ls).1, (group isHead ls).2)

def isItem : GoString → Bool
  | [] => false
  | b :: s => b = 45 && (s = [] || s.head? = some 32)

/-- The line starts an item of a sequence. -/
def seqHead (n : Nat) (l : Line) : Bool := !(l.text.isEmpty || n < l.indent)

/-- The line starts an entry of a map; a sequence may stand as deep as its key. -/
def mapHead (n : Nat) (l : Line) : Bool :=
  !(l.text.isEmpty || n < l.indent || (l.indent = n && isItem l.text))

/-- The line ends a document. -/
def isMarker (l : Line) : Bool :=
  l.indent = 0 && (l.text.take 3 = [45, 45, 45] || l.text.take 3 = [46, 46, 46]) &&
    ends (l.text.drop 3).head?

structure Reader where
  /-- a plain scalar that may be a number -/
  special : GoString → Json
  specialKey : GoString → Option GoString
  node : GoString → List Line → Option Json

/-- What stands behind a dash, as a line of its own. -/
def behindDash (l : Line) : Line :=
  ⟨l.indent + 1 + ((l.text.drop 1).takeWhile (· = 32)).length, (l.text.drop 1).dropWhile (· = 32)⟩

section

variable (r : Reader) (rec : GoString → List Line → Option Json)

def entry (n : Nat) (g : Group) : Option (GoString × Json) :=
  if g.1.indent = n ∧ !isMarker g.1 then
    match splitKey g.1.text with
    | none => none
    | some kr =>
      match resolveKey r.specialKey kr.1 with
      | none => none
      | some k => (rec kr.2 g.2).map fun v => (k, v)
  else none

def item (n : Nat) (g : Group) : Option Json :=
  if g.1.indent = n ∧ isItem g.1.text then
    let l := behindDash g.1
    if isItem l.text ∨ (splitKey l.text).isSome then rec [] (l :: g.2) else rec l.text g.2
  else none

def readMap (n : Nat) (ls : List Line) : Option Json :=
  match (group (mapHead n) ls).2.mapM (entry r rec n) with
  | none => none
  | some ms => if (ms.map Prod.fst).Nodup then some (.object ms) else none

def readSeq (n : Nat) (ls : List Line) : Option Json :=
  ((group (seqHead n) ls).2.mapM (item rec n)).map .array

def readBlock : List Line → Option Json
  | [] => some .null
  | l :: ls => if isItem l.text then readSeq rec l.indent (l :: ls) else readMap r rec l.indent (l :: ls)

/-- The text behind a key or a dash, and the lines below it. -/
def readValue (text : GoString) (ls : List Line) : Option Json :=
  if text = [] then readBlock r rec (ls.dropWhile fun l => l.text.isEmpty)
  else if ls.all fun l => l.text.isEmpty then scalar r.special text
  else none

end

/-- A value of at most this depth. -/
def value (r : Reader) : Nat → GoString → List Line → Option Json
  | 0, _, _ => none
  | d + 1, text, ls => (readValue r (value r d) text ls).or (r.node text ls)

/-- The library reads no deeper. -/
def maxDepth : Nat := 10000

def read (r : Reader) (text : GoString) : Option Json := value r maxDepth [] (linesOf text)

/-! ## Lines -/

/-- Lines behind the one before them. -/
def below (ls : List GoString) : GoString := ls.flatMap (10 :: ·)

section

variable {ls : List GoString} {s : GoString}

theorem below_append (ls ls' : List GoString) : below (ls ++ ls') = below ls ++ below ls' :=
  List.flatMap_append

theorem below_cons (s : GoString) (ls : List GoString) : below (s :: ls) = 10 :: s ++ below ls :=
  List.flatMap_cons

theorem splitOn_below (hs : 10 ∉ s) (hls : ∀ l ∈ ls, 10 ∉ l) : (s ++ below ls).splitOn 10 = s :: ls := by
  induction ls generalizing s with
  | nil =>
    rw [below, List.flatMap_nil, List.append_nil]
    exact List.splitOn_eq_singleton hs
  | cons l ls ih =>
    rw [below_cons, List.cons_append, List.splitOn_append_cons_self_of_not_mem hs,
      ih (hls l List.mem_cons_self) fun l' h => hls l' (List.mem_cons_of_mem l h)]

theorem lineOf_indent (n : Nat) (h : s.head? ≠ some 32) :
    lineOf (List.replicate n 32 ++ s) = ⟨n, s⟩ := by
  have htake : s.takeWhile (· = 32) = [] := by
    cases s with
    | nil => rfl
    | cons b s =>
      rw [List.takeWhile_cons, if_neg]
      intro hb
      exact h (congrArg some (of_decide_eq_true hb))
  have hdrop : s.dropWhile (· = 32) = s := by
    have hs := List.takeWhile_append_dropWhile (p := (· = 32)) (l := s)
    rw [htake] at hs
    exact hs
  have hall : ∀ b ∈ List.replicate n (32 : UInt8), decide (b = 32) = true := by
    intro b hb
    rw [List.eq_of_mem_replicate hb]
    rfl
  rw [lineOf, List.takeWhile_append_of_pos hall, List.dropWhile_append_of_pos hall, htake, hdrop,
    List.append_nil, List.length_replicate]

/-- Lines that are indented are as deep as that, or blank. -/
theorem lineOf_deep (n : Nat) (s : GoString) : n ≤ (lineOf (List.replicate n 32 ++ s)).indent := by
  have hall : ∀ b ∈ List.replicate n (32 : UInt8), decide (b = 32) = true := by
    intro b hb
    rw [List.eq_of_mem_replicate hb]
    rfl
  rw [lineOf, List.takeWhile_append_of_pos hall, List.length_append, List.length_replicate]
  exact Nat.le_add_right n _

end

/-- The line as it stands in the text. -/
def Line.raw (l : Line) : GoString := List.replicate l.indent 32 ++ l.text

/-- The line of a text that is split into lines. -/
def Line.Written (l : Line) : Prop := 10 ∉ l.text ∧ l.text.head? ≠ some 32

instance (l : Line) : Decidable l.Written := inferInstanceAs (Decidable (_ ∧ _))

theorem written_lineOf {s : GoString} (h : 10 ∉ s) : (lineOf s).Written := by
  constructor
  · intro hmem
    exact h ((List.dropWhile_sublist _).subset hmem)
  · intro hhead
    have hnot := List.head?_dropWhile_not (fun b : UInt8 => decide (b = 32)) s
    rw [show (s.dropWhile fun b => decide (b = 32)).head? = some 32 from hhead] at hnot
    contradiction

theorem lineOf_raw {l : Line} (h : l.Written) : lineOf l.raw = l := lineOf_indent l.indent h.2

theorem notMem_raw {l : Line} (h : l.Written) : 10 ∉ l.raw := by
  intro hmem
  rcases List.mem_append.mp hmem with hmem | hmem
  · exact absurd (List.eq_of_mem_replicate hmem) (by decide)
  · exact h.1 hmem

/-! ## Reading entry by entry -/

section

variable {r : Reader} {rec : GoString → List Line → Option Json} {isHead : Line → Bool} {n d : Nat}
  {gs gs' : List Group} {g : Group} {ms ms' : List (GoString × Json)} {vs vs' : List Json}

def flatten (gs : List Group) : List Line := gs.flatMap Group.lines

theorem flatten_append (gs gs' : List Group) : flatten (gs ++ gs') = flatten gs ++ flatten gs' :=
  List.flatMap_append

/-- Lines as text, each behind a line break. -/
def writeLines (ls : List Line) : GoString := below (ls.map Line.raw)

def write (gs : List Group) : GoString := writeLines (flatten gs)

theorem writeLines_append (ls ls' : List Line) :
    writeLines (ls ++ ls') = writeLines ls ++ writeLines ls' := by
  rw [writeLines, List.map_append, below_append]
  rfl

theorem writeLines_cons (n : Nat) (s : GoString) (ls : List Line) :
    writeLines (⟨n, s⟩ :: ls) = 10 :: (List.replicate n 32 ++ s) ++ writeLines ls :=
  below_cons _ _

theorem writeLines_nil : writeLines [] = [] := rfl

theorem write_nil : write [] = [] := rfl

theorem write_append (gs gs' : List Group) : write (gs ++ gs') = write gs ++ write gs' := by
  rw [write, flatten_append, writeLines_append]
  rfl

theorem flatten_cons (g : Group) (gs : List Group) : flatten (g :: gs) = g.1 :: (g.2 ++ flatten gs) :=
  List.flatMap_cons

theorem write_cons (l : Line) (ls : List Line) (gs : List Group) :
    write ((l, ls) :: gs) = writeLines (l :: ls) ++ write gs :=
  writeLines_append (l :: ls) (flatten gs)

theorem write_single (l : Line) (ls : List Line) : write [(l, ls)] = writeLines (l :: ls) := by
  rw [write_cons]
  exact List.append_nil _

theorem write_map {α : Type} (l : List α) (toGroup : α → Group) :
    write (l.map toGroup) = l.flatMap fun a => writeLines (toGroup a).lines := by
  induction l with
  | nil => rfl
  | cons a l ih =>
    rw [List.map_cons, List.flatMap_cons, ← ih]
    exact write_cons _ _ _

/-- What was written is split into its lines. -/
theorem linesOf_write {text : GoString} (h : write gs = 10 :: text) (hne : gs ≠ [])
    (hwritten : ∀ l ∈ flatten gs, l.Written) : linesOf text = flatten gs := by
  obtain ⟨g, gs, rfl⟩ := List.exists_cons_of_ne_nil hne
  rw [write, writeLines, flatten_cons, List.map_cons, below_cons, List.cons_append,
    List.cons.injEq] at h
  rw [flatten_cons] at hwritten ⊢
  have hraw : ∀ s ∈ (g.2 ++ flatten gs).map Line.raw, 10 ∉ s := by
    intro s hs
    obtain ⟨l, hl, rfl⟩ := List.mem_map.mp hs
    exact notMem_raw (hwritten l (List.mem_cons_of_mem _ hl))
  have hself : ((g.2 ++ flatten gs).map Line.raw).map lineOf = g.2 ++ flatten gs := by
    have hmap : (g.2 ++ flatten gs).map (lineOf ∘ Line.raw) = (g.2 ++ flatten gs).map id := by
      apply List.map_congr_left
      intro l hl
      exact lineOf_raw (hwritten l (List.mem_cons_of_mem _ hl))
    rw [List.map_map, hmap, List.map_id]
  rw [linesOf, ← h.2, splitOn_below (notMem_raw (hwritten g.1 List.mem_cons_self)) hraw,
    List.map_cons, hself, lineOf_raw (hwritten g.1 List.mem_cons_self)]

theorem group_append {ls : List Line} (h : ∀ l ∈ ls, isHead l = false) (ls' : List Line) :
    group isHead (ls ++ ls') = (ls ++ (group isHead ls').1, (group isHead ls').2) := by
  induction ls with
  | nil => rfl
  | cons l ls ih =>
    have hl : ¬ isHead l = true := by
      rw [h l List.mem_cons_self]
      exact Bool.false_ne_true
    rw [List.cons_append, group, if_neg hl, ih fun l' h' => h l' (List.mem_cons_of_mem l h')]
    rfl

/-- Groups are found again. -/
theorem group_flatten (hhead : ∀ g ∈ gs, isHead g.1 = true)
    (hrest : ∀ g ∈ gs, ∀ l ∈ g.2, isHead l = false) : group isHead (flatten gs) = ([], gs) := by
  induction gs with
  | nil => rfl
  | cons g gs ih =>
    have ih := ih (fun g' h => hhead g' (List.mem_cons_of_mem g h))
      fun g' h => hrest g' (List.mem_cons_of_mem g h)
    have hlines : flatten (g :: gs) = g.1 :: (g.2 ++ flatten gs) := List.flatMap_cons
    rw [hlines, group, if_pos (hhead g List.mem_cons_self),
      group_append (hrest g List.mem_cons_self), ih, List.append_nil]

theorem isEmpty_of_isItem {s : GoString} (h : isItem s = true) : s.isEmpty = false := by
  cases s with
  | nil => contradiction
  | cons b s => rfl

theorem isEmpty_of_splitKey {s : GoString} {kr : GoString × GoString} (h : splitKey s = some kr) :
    s.isEmpty = false := by
  cases s with
  | nil => contradiction
  | cons b s => rfl

theorem isItem_of_splitKey {s : GoString} {kr : GoString × GoString} (h : splitKey s = some kr) :
    isItem s = false := by
  cases s with
  | nil => rfl
  | cons b s =>
    rw [splitKey] at h
    split at h
    · contradiction
    · split at h
      · rename_i hkey
        have hstart := hkey.2.1
        rw [plainStart] at hstart
        rw [isItem]
        by_cases hb : b = 45
        · rw [if_pos (Or.inl hb)] at hstart
          cases s with
          | nil => contradiction
          | cons c s =>
            by_cases hc : c = 32
            · rw [hc] at hstart
              contradiction
            · simp [hb, hc]
        · simp [hb]
      · contradiction

theorem splitKey_of_entry {m : GoString × Json} (h : entry r rec n g = some m) :
    g.1.indent = n ∧ ∃ kr, splitKey g.1.text = some kr := by
  rw [entry] at h
  split at h
  · rename_i hindent
    split at h
    · contradiction
    · rename_i kr hkr
      exact ⟨hindent.1, kr, hkr⟩
  · contradiction

theorem mapHead_of_entry {m : GoString × Json} (h : entry r rec n g = some m) :
    mapHead n g.1 = true := by
  obtain ⟨hindent, kr, hkr⟩ := splitKey_of_entry h
  rw [mapHead, isEmpty_of_splitKey hkr, hindent, isItem_of_splitKey hkr]
  simp

theorem isItem_of_item {v : Json} (h : item rec n g = some v) :
    g.1.indent = n ∧ isItem g.1.text = true := by
  rw [item] at h
  split at h
  · rename_i hitem
    exact hitem
  · contradiction

theorem seqHead_of_item {v : Json} (h : item rec n g = some v) : seqHead n g.1 = true := by
  obtain ⟨hindent, hitem⟩ := isItem_of_item h
  rw [seqHead, isEmpty_of_isItem hitem, hindent]
  simp

/-- Each group is read, its lines belong to it, and all of them are lines of a text. -/
structure Reads {α : Type} (isHead : Line → Bool) (f : Group → Option α) (gs : List Group)
    (as : List α) : Prop where
  reads : gs.mapM f = some as
  belong : ∀ g ∈ gs, ∀ l ∈ g.2, isHead l = false
  written : ∀ l ∈ flatten gs, l.Written

namespace Reads

variable {α β : Type} {f : Group → Option α} {as as' : List α} {a : α}

theorem nil : Reads isHead f [] [] :=
  ⟨rfl, fun _ h => absurd h List.not_mem_nil, fun _ h => absurd h List.not_mem_nil⟩

theorem append (h : Reads isHead f gs as) (h' : Reads isHead f gs' as') :
    Reads isHead f (gs ++ gs') (as ++ as') := by
  constructor
  · rw [List.mapM_append, h.reads, h'.reads]
    rfl
  · intro g hg
    rcases List.mem_append.mp hg with hg | hg
    · exact h.belong g hg
    · exact h'.belong g hg
  · intro l hl
    rw [flatten_append] at hl
    rcases List.mem_append.mp hl with hl | hl
    · exact h.written l hl
    · exact h'.written l hl

theorem single (h : f g = some a) (hhead : g.1.Written)
    (hrest : ∀ l ∈ g.2, isHead l = false ∧ l.Written) : Reads isHead f [g] [a] := by
  constructor
  · rw [List.mapM_cons, h]
    rfl
  · intro g' hg l hl
    rw [List.mem_singleton.mp hg] at hl
    exact (hrest l hl).1
  · intro l hl
    rw [flatten_cons] at hl
    rcases List.mem_cons.mp hl with rfl | hl
    · exact hhead
    · rcases List.mem_append.mp hl with hl | hl
      · exact (hrest l hl).2
      · exact absurd hl List.not_mem_nil

theorem cons (h : Reads isHead f [g] [a]) (h' : Reads isHead f gs as) :
    Reads isHead f (g :: gs) (a :: as) := append h h'

theorem map {l : List β} {toGroup : β → Group} {toValue : β → α}
    (h : ∀ b ∈ l, Reads isHead f [toGroup b] [toValue b]) :
    Reads isHead f (l.map toGroup) (l.map toValue) := by
  induction l with
  | nil => exact nil
  | cons b l ih =>
    exact cons (h b List.mem_cons_self) (ih fun b' hb => h b' (List.mem_cons_of_mem b hb))

theorem isSome_of_mapM : ∀ {gs : List Group} {as : List α}, gs.mapM f = some as →
    ∀ g ∈ gs, ∃ a, f g = some a := by
  intro gs
  induction gs with
  | nil => exact fun _ g hg => absurd hg List.not_mem_nil
  | cons g gs ih =>
    intro as h g' hg'
    rw [List.mapM_cons] at h
    obtain ⟨a, ha, h⟩ := Option.bind_eq_some_iff.mp h
    obtain ⟨rest, hrest, _⟩ := Option.bind_eq_some_iff.mp h
    rcases List.mem_cons.mp hg' with rfl | hg'
    · exact ⟨a, ha⟩
    · exact ih hrest g' hg'

/-- The groups of the lines are the groups that were written. -/
theorem group_eq (h : Reads isHead f gs as)
    (hhead : ∀ g a, f g = some a → isHead g.1 = true) : (group isHead (flatten gs)).2 = gs := by
  have hall : ∀ g ∈ gs, isHead g.1 = true := by
    intro g hg
    obtain ⟨a, ha⟩ := isSome_of_mapM h.reads g hg
    exact hhead g a ha
  rw [group_flatten hall h.belong]

end Reads

abbrev ReadsMap (r : Reader) (rec : GoString → List Line → Option Json) (n : Nat) :
    List Group → List (GoString × Json) → Prop :=
  Reads (mapHead n) (entry r rec n)

abbrev ReadsSeq (rec : GoString → List Line → Option Json) (n : Nat) :
    List Group → List Json → Prop :=
  Reads (seqHead n) (item rec n)

theorem dropWhile_blank {l : Line} (h : l.text.isEmpty = false) (ls : List Line) :
    (l :: ls).dropWhile (fun l => l.text.isEmpty) = l :: ls := by
  rw [List.dropWhile_cons, h]
  rfl

theorem value_map (h : ReadsMap r (value r d) n gs ms) (hne : gs ≠ [])
    (hnodup : (ms.map Prod.fst).Nodup) : value r (d + 1) [] (flatten gs) = some (.object ms) := by
  have hgroup := h.group_eq fun g m => mapHead_of_entry
  obtain ⟨g, gs, rfl⟩ := List.exists_cons_of_ne_nil hne
  obtain ⟨m, hm⟩ := Reads.isSome_of_mapM h.reads g List.mem_cons_self
  obtain ⟨hindent, kr, hkr⟩ := splitKey_of_entry hm
  have htext := isEmpty_of_splitKey hkr
  rw [flatten_cons] at hgroup
  rw [value, readValue, if_pos rfl, flatten_cons, dropWhile_blank htext, readBlock,
    isItem_of_splitKey hkr, if_neg Bool.false_ne_true, readMap, hindent, hgroup, h.reads]
  dsimp only
  rw [if_pos hnodup]
  rfl

theorem value_seq {vs : List Json} (h : ReadsSeq (value r d) n gs vs) (hne : gs ≠ []) :
    value r (d + 1) [] (flatten gs) = some (.array vs) := by
  have hgroup := h.group_eq fun g v => seqHead_of_item
  obtain ⟨g, gs, rfl⟩ := List.exists_cons_of_ne_nil hne
  obtain ⟨v, hv⟩ := Reads.isSome_of_mapM h.reads g List.mem_cons_self
  obtain ⟨hindent, hitem⟩ := isItem_of_item hv
  have htext := isEmpty_of_isItem hitem
  rw [flatten_cons] at hgroup
  rw [value, readValue, if_pos rfl, flatten_cons, dropWhile_blank htext, readBlock, if_pos hitem,
    readSeq, hindent, hgroup, h.reads]
  rfl

/-- A scalar that stands alone on its line. -/
theorem value_scalar {s : GoString} {v : Json} (hs : s ≠ []) (h : scalar r.special s = some v) :
    value r (d + 1) s [] = some v := by
  rw [value, readValue, if_neg hs, List.all_nil, if_pos rfl, h]
  rfl

theorem isMarker_of_indent (hn : n ≠ 0) (text : GoString) : isMarker ⟨n, text⟩ = false := by
  rw [isMarker, decide_eq_false hn]
  rfl

/-- An entry with a key that reads as itself. -/
theorem entry_of_splitKey {text k k' rest : GoString} {ls : List Line} {v : Json}
    (hmarker : isMarker ⟨n, text⟩ = false) (hkey : splitKey text = some (k, rest))
    (hk : resolveKey r.specialKey k = some k') (hv : rec rest ls = some v) :
    entry r rec n (⟨n, text⟩, ls) = some (k', v) := by
  rw [entry, hmarker, if_pos ⟨rfl, rfl⟩, hkey]
  dsimp only
  rw [hk]
  dsimp only
  rw [hv]
  rfl

theorem head?_of_splitKey {s : GoString} {kr : GoString × GoString} (h : splitKey s = some kr) :
    s.head? ≠ some 32 := by
  cases s with
  | nil => contradiction
  | cons b s =>
    intro hb
    obtain rfl : b = 32 := Option.some.inj hb
    rw [splitKey] at h
    split at h
    · contradiction
    · split at h
      · rename_i hkey
        exact absurd hkey.2.1 Bool.false_ne_true
      · contradiction

/-- An entry whose key reads as itself, with its value behind the colon. -/
theorem readsMap_value (hn : n ≠ 0) {k k' : GoString} (hkey : splitKey (k ++ [58]) = some (k, []))
    (hk : resolveKey r.specialKey k = some k') {rest : GoString} {ls : List Line} {v : Json}
    (hv : rec (rest.dropWhile isBlank) ls = some v) (hrest : 10 ∉ rest)
    (hls : ∀ l ∈ ls, mapHead n l = false ∧ l.Written) :
    ReadsMap r rec n [(⟨n, k ++ 58 :: 32 :: rest⟩, ls)] [(k', v)] := by
  have hsplit := splitKey_append hkey rest
  apply Reads.single
  · exact entry_of_splitKey (isMarker_of_indent hn _) hsplit hk hv
  · constructor
    · intro hmem
      rcases List.mem_append.mp hmem with hmem | hmem
      · exact notMem_of_splitKey hkey hmem
      · simp only [List.mem_cons] at hmem
        rcases hmem with hmem | hmem | hmem
        · exact absurd hmem (by decide)
        · exact absurd hmem (by decide)
        · exact hrest hmem
    · exact head?_of_splitKey hsplit
  · exact hls

/-- The same with the value on the lines below. -/
theorem readsMap_heading (hn : n ≠ 0) {k k' : GoString} (hkey : splitKey (k ++ [58]) = some (k, []))
    (hk : resolveKey r.specialKey k = some k') {ls : List Line} {v : Json} (hv : rec [] ls = some v)
    (hls : ∀ l ∈ ls, mapHead n l = false ∧ l.Written) :
    ReadsMap r rec n [(⟨n, k ++ [58]⟩, ls)] [(k', v)] := by
  apply Reads.single
  · exact entry_of_splitKey (isMarker_of_indent hn _) hkey hk hv
  · constructor
    · intro hmem
      rcases List.mem_append.mp hmem with hmem | hmem
      · exact notMem_of_splitKey hkey hmem
      · exact absurd (List.mem_singleton.mp hmem) (by decide)
    · exact head?_of_splitKey hkey
  · exact hls

theorem behindDash_eq {s : GoString} (h : s.head? ≠ some 32) :
    behindDash ⟨n, 45 :: 32 :: s⟩ = ⟨n + 2, s⟩ := by
  have hline := lineOf_indent 1 h
  rw [lineOf, Line.mk.injEq] at hline
  show Line.mk (n + 1 + ((32 :: s).takeWhile _).length) ((32 :: s).dropWhile _) = _
  rw [show (32 :: s) = List.replicate 1 32 ++ s from rfl, hline.1, hline.2]

theorem written_item {s : GoString} (h : 10 ∉ s) : Line.Written ⟨n, 45 :: 32 :: s⟩ := by
  constructor
  · intro hmem
    simp only [List.mem_cons] at hmem
    rcases hmem with hmem | hmem | hmem
    · exact absurd hmem (by decide)
    · exact absurd hmem (by decide)
    · exact h hmem
  · exact fun h => absurd (Option.some.inj h) (by decide)

/-- An item that is a map, its first entry behind the dash. -/
theorem readsSeq_map {s : GoString} {kr : GoString × GoString} {ls : List Line} {v : Json}
    (hkey : splitKey s = some kr) (hv : rec [] (⟨n + 2, s⟩ :: ls) = some v) (hs : 10 ∉ s)
    (hls : ∀ l ∈ ls, seqHead n l = false ∧ l.Written) :
    ReadsSeq rec n [(⟨n, 45 :: 32 :: s⟩, ls)] [v] := by
  apply Reads.single
  · rw [item, if_pos ⟨rfl, rfl⟩]
    dsimp only
    rw [behindDash_eq (head?_of_splitKey hkey), hkey, if_pos (Or.inr Option.isSome_some), hv]
  · exact written_item hs
  · exact hls

/-- An item that is a scalar. -/
theorem readsSeq_scalar {s : GoString} {v : Json} (hhead : s.head? ≠ some 32)
    (hitem : isItem s = false) (hkey : splitKey s = none) (hv : rec s [] = some v) (hs : 10 ∉ s) :
    ReadsSeq rec n [(⟨n, 45 :: 32 :: s⟩, [])] [v] := by
  apply Reads.single
  · rw [item, if_pos ⟨rfl, rfl⟩]
    dsimp only
    rw [behindDash_eq hhead, hkey, hitem, if_neg]
    · exact hv
    · rintro (h | h)
      · contradiction
      · contradiction
  · exact written_item hs
  · exact fun l hl => absurd hl List.not_mem_nil

/-! ### What is deeper belongs to the line before it -/

theorem mapHead_deeper {l : Line} (h : l.text = [] ∨ n < l.indent) : mapHead n l = false := by
  rw [mapHead]
  rcases h with h | h
  · rw [h]
    rfl
  · simp [h]

theorem seqHead_deeper {l : Line} (h : l.text = [] ∨ n < l.indent) : seqHead n l = false := by
  rw [seqHead]
  rcases h with h | h
  · rw [h]
    rfl
  · simp [h]

theorem deep_of_mapHead {l : Line} (h : mapHead n l = false) : l.text = [] ∨ n ≤ l.indent := by
  simp only [mapHead, Bool.not_eq_false', Bool.or_eq_true, List.isEmpty_iff, decide_eq_true_eq,
    Bool.and_eq_true] at h
  rcases h with (h | h) | h
  · exact .inl h
  · exact .inr (Nat.le_of_lt h)
  · exact .inr (Nat.le_of_eq h.1.symm)

theorem deep_of_seqHead {l : Line} (h : seqHead n l = false) : l.text = [] ∨ n < l.indent := by
  simp only [seqHead, Bool.not_eq_false', Bool.or_eq_true, List.isEmpty_iff, decide_eq_true_eq] at h
  exact h

theorem mem_flatten {l : Line} (h : l ∈ flatten gs) : ∃ g ∈ gs, l = g.1 ∨ l ∈ g.2 := by
  obtain ⟨g, hg, hl⟩ := List.mem_flatMap.mp h
  exact ⟨g, hg, List.mem_cons.mp hl⟩

theorem deep_of_readsMap (h : ReadsMap r rec n gs ms) :
    ∀ l ∈ flatten gs, l.text = [] ∨ n ≤ l.indent := by
  intro l hl
  obtain ⟨g, hg, hl⟩ := mem_flatten hl
  rcases hl with rfl | hl
  · obtain ⟨m, hm⟩ := Reads.isSome_of_mapM h.reads g hg
    exact .inr (Nat.le_of_eq (splitKey_of_entry hm).1.symm)
  · exact deep_of_mapHead (h.belong g hg l hl)

theorem inside_map {m : Nat} (h : ReadsMap r rec m gs ms) (hn : n < m) :
    ∀ l ∈ flatten gs, mapHead n l = false ∧ l.Written := by
  intro l hl
  have hdeep := (deep_of_readsMap h l hl).imp_right (Nat.lt_of_lt_of_le hn)
  exact ⟨mapHead_deeper hdeep, h.written l hl⟩

theorem inside_item {m : Nat} (h : ReadsMap r rec m gs ms) (hn : n < m) :
    ∀ l ∈ flatten gs, seqHead n l = false ∧ l.Written := by
  intro l hl
  have hdeep := (deep_of_readsMap h l hl).imp_right (Nat.lt_of_lt_of_le hn)
  exact ⟨seqHead_deeper hdeep, h.written l hl⟩

/-- A sequence may stand as deep as its key. -/
theorem inside_seq {m : Nat} {vs : List Json} (h : ReadsSeq rec m gs vs) (hn : n ≤ m) :
    ∀ l ∈ flatten gs, mapHead n l = false ∧ l.Written := by
  intro l hl
  refine ⟨?_, h.written l hl⟩
  obtain ⟨g, hg, hl⟩ := mem_flatten hl
  rcases hl with rfl | hl
  · obtain ⟨v, hv⟩ := Reads.isSome_of_mapM h.reads g hg
    obtain ⟨hindent, hitem⟩ := isItem_of_item hv
    rcases Nat.eq_or_lt_of_le hn with rfl | hn
    · rw [mapHead, hindent, hitem]
      simp
    · exact mapHead_deeper (.inr (hindent ▸ hn))
  · exact mapHead_deeper ((deep_of_seqHead (h.belong g hg l hl)).imp_right (Nat.lt_of_le_of_lt hn))

/-- A map of no entries is null. -/
def members : List (GoString × Json) → Json
  | [] => .null
  | m :: ms => .object (m :: ms)

theorem value_members (h : ReadsMap r (value r d) n gs ms) (hnodup : (ms.map Prod.fst).Nodup) :
    value r (d + 1) [] (flatten gs) = some (members ms) := by
  cases gs with
  | nil =>
    cases h.reads
    rfl
  | cons g gs =>
    have hms : ∃ m ms', ms = m :: ms' := by
      have hreads := h.reads
      rw [List.mapM_cons] at hreads
      obtain ⟨m, _, hreads⟩ := Option.bind_eq_some_iff.mp hreads
      obtain ⟨ms', _, hreads⟩ := Option.bind_eq_some_iff.mp hreads
      exact ⟨m, ms', (Option.some.inj hreads).symm⟩
    obtain ⟨m, ms', rfl⟩ := hms
    exact value_map h (List.cons_ne_nil g gs) hnodup

/-- A sequence of no items is null. -/
def elements : List Json → Json
  | [] => .null
  | v :: vs => .array (v :: vs)

theorem value_elements {vs : List Json} (h : ReadsSeq (value r d) n gs vs) :
    value r (d + 1) [] (flatten gs) = some (elements vs) := by
  cases gs with
  | nil =>
    cases h.reads
    rfl
  | cons g gs =>
    have hvs : ∃ v vs', vs = v :: vs' := by
      have hreads := h.reads
      rw [List.mapM_cons] at hreads
      obtain ⟨v, _, hreads⟩ := Option.bind_eq_some_iff.mp hreads
      obtain ⟨vs', _, hreads⟩ := Option.bind_eq_some_iff.mp hreads
      exact ⟨v, vs', (Option.some.inj hreads).symm⟩
    obtain ⟨v, vs', rfl⟩ := hvs
    exact value_seq h (List.cons_ne_nil g gs)

end

end Selebrow.Yaml
