import Mathlib.Data.List.Sort
import Mathlib.Data.UInt
import Selebrow.Go
import Selebrow.Text.Layout

/-!
# The hash of the capabilities

`GetHash` writes eleven fields of the capabilities to a hash one after the other.
The lists are sorted and joined with semicolons, the label map is written in the
order of its keys.  The hash is a function of the bytes written, and it is a
parameter here.

No length and no separator is written between the fields, so the bytes tell the
fields apart only for capabilities of one layout.
-/

namespace Selebrow

/-- A `map[string]string`. -/
structure StringMap where
  entries : List (GoString × GoString)
  nodup : (entries.map Prod.fst).Nodup

namespace StringMap

def keys (m : StringMap) : List GoString := m.entries.map Prod.fst

def lookup (m : StringMap) (k : GoString) : Option GoString := m.entries.lookup k

/-- `m[k]` -/
def get (m : StringMap) (k : GoString) : GoString := (m.lookup k).getD []

end StringMap

/-- The part of the `Capabilities` interface that `GetHash` reads. -/
structure Capabilities where
  platform : GoString
  name : GoString
  flavor : GoString
  version : GoString
  resolution : GoString
  envs : List GoString
  vncEnabled : Bool
  labels : StringMap
  links : List GoString
  hosts : List GoString
  networks : List GoString

namespace Capabilities

open Text

/-- `slices.Sort` on strings. -/
def sort (l : List GoString) : List GoString := l.insertionSort (· ≤ ·)

/-- `strconv.FormatBool` -/
def formatBool : Bool → GoString
  | true => bytes "true"
  | false => bytes "false"

def joinStrings (s : List GoString) : GoString := List.intercalate (bytes ";") (sort s)

/-- The loop of `joinStringMap`, from key number `i` on. -/
def writeEntries (s : StringMap) : Nat → List GoString → GoString
  | _, [] => []
  | i, k :: rest =>
    (if i > 0 then bytes ";" else []) ++ k ++ bytes "=" ++ s.get k ++ writeEntries s (i + 1) rest

def joinStringMap (s : StringMap) : GoString :=
  if s.entries.length = 0 then [] else writeEntries s 0 (sort s.keys)

/-- The bytes that `GetHash` writes. -/
def hashInput (caps : Capabilities) : GoString :=
  caps.platform ++ caps.name ++ caps.flavor ++ caps.version ++ caps.resolution ++
    joinStrings caps.envs ++ formatBool caps.vncEnabled ++ joinStringMap caps.labels ++
    joinStrings caps.links ++ joinStrings caps.hosts ++ joinStrings caps.networks

def getHash (sum : GoString → GoString) (caps : Capabilities) : GoString :=
  sum (hashInput caps)

/-! ## Sorting -/

theorem sort_perm (l : List GoString) : (sort l).Perm l := List.perm_insertionSort _ l

theorem sort_pairwise (l : List GoString) : (sort l).Pairwise (· ≤ ·) :=
  List.pairwise_insertionSort _ l

/-- Sorting forgets the order and nothing else. -/
theorem sort_eq_iff {l m : List GoString} : sort l = sort m ↔ l.Perm m := by
  constructor
  · intro h
    exact (sort_perm l).symm.trans (h ▸ sort_perm m)
  · intro h
    refine List.Perm.eq_of_pairwise (fun _ _ _ _ hab hba => List.le_antisymm hab hba)
      (sort_pairwise l) (sort_pairwise m) ?_
    exact (sort_perm l).trans (h.trans (sort_perm m).symm)

/-! ## The label map -/

theorem lookup_isSome_iff (m : StringMap) (k : GoString) :
    (m.lookup k).isSome = true ↔ k ∈ m.keys := by
  rw [StringMap.lookup, StringMap.keys, ← Bool.not_eq_false, Option.isSome_eq_false_iff,
    Option.isNone_iff_eq_none, List.lookup_eq_none_iff]
  simp only [List.mem_map, not_forall]
  constructor
  · rintro ⟨e, he, hk⟩
    exact ⟨e, he, by simpa using (by simpa using hk : k = e.1).symm⟩
  · rintro ⟨e, he, hk⟩
    exact ⟨e, he, by simp [hk]⟩

/-- The loop writes the entries in the order of the keys, with semicolons between. -/
theorem writeEntries_succ (s : StringMap) (i : Nat) (k : GoString) (rest : List GoString) :
    writeEntries s (i + 1) (k :: rest) =
      bytes ";" ++ List.intercalate (bytes ";")
        ((k :: rest).map fun k => k ++ bytes "=" ++ s.get k) := by
  induction rest generalizing i k with
  | nil => simp [writeEntries, List.intercalate]
  | cons k' rest ih =>
    rw [writeEntries, if_pos (Nat.succ_pos i), ih]
    simp only [List.map_cons, List.intercalate_cons_cons, List.append_assoc]

theorem joinStringMap_eq (s : StringMap) :
    joinStringMap s =
      List.intercalate (bytes ";") ((sort s.keys).map fun k => k ++ bytes "=" ++ s.get k) := by
  rw [joinStringMap]
  split
  · rename_i hlen
    have hkeys : s.keys = [] := by simpa [StringMap.keys] using hlen
    rw [hkeys]
    rfl
  · cases hs : sort s.keys with
    | nil => rfl
    | cons k rest =>
      rw [writeEntries, if_neg (Nat.lt_irrefl 0), List.nil_append]
      cases rest with
      | nil => simp [writeEntries, List.intercalate]
      | cons k' rest =>
        rw [writeEntries_succ]
        simp only [List.map_cons, List.intercalate_cons_cons, List.append_assoc]

/-- The lengths of the keys and values, in the order in which they are written. -/
def labelLayout (s : StringMap) : List (Nat × Nat) :=
  (sort s.keys).map fun k => (k.length, (s.get k).length)

theorem layout_of_labelLayout {s t : StringMap} (h : labelLayout s = labelLayout t) :
    layout ((sort s.keys).map fun k => k ++ bytes "=" ++ s.get k) =
      layout ((sort t.keys).map fun k => k ++ bytes "=" ++ t.get k) := by
  have hsum : ∀ m : StringMap, layout ((sort m.keys).map fun k => k ++ bytes "=" ++ m.get k) =
      (labelLayout m).map fun e => e.1 + (bytes "=").length + e.2 := by
    intro m
    simp [layout, labelLayout, Nat.add_assoc]
  rw [hsum, hsum, h]

/-- Entries with keys of the same lengths are equal only if keys and values are. -/
theorem entries_inj {f g : GoString → GoString} {l m : List GoString}
    (h : (l.map fun k => k ++ bytes "=" ++ f k) = m.map fun k => k ++ bytes "=" ++ g k)
    (hl : layout l = layout m) : l = m ∧ ∀ k ∈ l, f k = g k := by
  induction l generalizing m with
  | nil =>
    cases m with
    | nil => exact ⟨rfl, by simp⟩
    | cons y m => simp [layout] at hl
  | cons x l ih =>
    cases m with
    | nil => simp [layout] at hl
    | cons y m =>
      simp only [layout, List.map_cons, List.cons.injEq, List.append_assoc] at h hl
      obtain ⟨hxy, hval⟩ := List.append_inj h.1 hl.1
      obtain ⟨hlm, hvals⟩ := ih (by simpa only [List.append_assoc] using h.2) hl.2
      have hfg : f x = g x := hxy ▸ (List.append_inj hval rfl).2
      refine ⟨by rw [hxy, hlm], fun k hk => ?_⟩
      rcases List.mem_cons.mp hk with rfl | hk
      · exact hfg
      · exact hvals k hk

theorem lookup_eq_none (m : StringMap) {k : GoString} (h : k ∉ m.keys) : m.lookup k = none := by
  rw [← lookup_isSome_iff] at h
  simpa using h

theorem lookup_eq_some (m : StringMap) {k : GoString} (h : k ∈ m.keys) :
    m.lookup k = some (m.get k) := by
  rw [← lookup_isSome_iff, Option.isSome_iff_exists] at h
  obtain ⟨v, hv⟩ := h
  rw [StringMap.get, hv]
  rfl

/-- Two maps are equal when their sorted keys are and every key has one value. -/
theorem lookup_eq_iff {s t : StringMap} :
    (∀ k, s.lookup k = t.lookup k) ↔
      sort s.keys = sort t.keys ∧ ∀ k ∈ sort s.keys, s.get k = t.get k := by
  constructor
  · intro h
    refine ⟨sort_eq_iff.mpr ((List.perm_ext_iff_of_nodup s.nodup t.nodup).mpr fun k => ?_),
      fun k _ => by rw [StringMap.get, StringMap.get, h k]⟩
    show k ∈ s.keys ↔ k ∈ t.keys
    rw [← lookup_isSome_iff, ← lookup_isSome_iff, h k]
  · rintro ⟨hkeys, hvals⟩ k
    have hmem : k ∈ s.keys ↔ k ∈ t.keys := (sort_eq_iff.mp hkeys).mem_iff
    by_cases hk : k ∈ s.keys
    · rw [lookup_eq_some s hk, lookup_eq_some t (hmem.mp hk),
        hvals k ((sort_perm s.keys).mem_iff.mpr hk)]
    · rw [lookup_eq_none s hk, lookup_eq_none t (fun h => hk (hmem.mpr h))]

/-! ## Reading the fields back -/

/-- The two capabilities ask for the same browser: the lists are compared without
their order. -/
structure SameConfiguration (a b : Capabilities) : Prop where
  platform : a.platform = b.platform
  name : a.name = b.name
  flavor : a.flavor = b.flavor
  version : a.version = b.version
  resolution : a.resolution = b.resolution
  vncEnabled : a.vncEnabled = b.vncEnabled
  envs : a.envs.Perm b.envs
  labels : ∀ k, a.labels.lookup k = b.labels.lookup k
  links : a.links.Perm b.links
  hosts : a.hosts.Perm b.hosts
  networks : a.networks.Perm b.networks

/-- Field by field and entry by entry, what is written has the same length. -/
structure SameLayout (a b : Capabilities) : Prop where
  platform : a.platform.length = b.platform.length
  flavor : a.flavor.length = b.flavor.length
  version : a.version.length = b.version.length
  resolution : a.resolution.length = b.resolution.length
  envs : layout (sort a.envs) = layout (sort b.envs)
  labels : labelLayout a.labels = labelLayout b.labels
  links : layout (sort a.links) = layout (sort b.links)
  hosts : layout (sort a.hosts) = layout (sort b.hosts)
  networks : layout (sort a.networks) = layout (sort b.networks)

variable {a b : Capabilities}

theorem SameConfiguration.sameLayout (h : SameConfiguration a b) : SameLayout a b := by
  refine ⟨by rw [h.platform], by rw [h.flavor], by rw [h.version], by rw [h.resolution], ?_, ?_,
    ?_, ?_, ?_⟩
  · rw [sort_eq_iff.mpr h.envs]
  · obtain ⟨hkeys, hvals⟩ := lookup_eq_iff.mp h.labels
    rw [labelLayout, labelLayout, ← hkeys]
    exact List.map_congr_left fun k hk => by rw [hvals k hk]
  · rw [sort_eq_iff.mpr h.links]
  · rw [sort_eq_iff.mpr h.hosts]
  · rw [sort_eq_iff.mpr h.networks]

/-- The flag is told by its first letter. -/
theorem formatBool_append_inj {x y : Bool} {t u : GoString}
    (h : formatBool x ++ t = formatBool y ++ u) : x = y ∧ t = u := by
  cases x <;> cases y <;> simp [formatBool, bytes, String.utf8EncodeChar] at h <;> exact ⟨rfl, h⟩

theorem joinStrings_append_inj {l m : List GoString} {t u : GoString}
    (h : joinStrings l ++ t = joinStrings m ++ u) (hl : layout (sort l) = layout (sort m)) :
    l.Perm m ∧ t = u := by
  obtain ⟨hsort, hrest⟩ := intercalate_append_inj _ h hl
  exact ⟨sort_eq_iff.mp hsort, hrest⟩

theorem joinStringMap_append_inj {l m : StringMap} {t u : GoString}
    (h : joinStringMap l ++ t = joinStringMap m ++ u) (hl : labelLayout l = labelLayout m) :
    (∀ k, l.lookup k = m.lookup k) ∧ t = u := by
  rw [joinStringMap_eq, joinStringMap_eq] at h
  obtain ⟨hentries, hrest⟩ := intercalate_append_inj _ h (layout_of_labelLayout hl)
  have hkeys : layout (sort l.keys) = layout (sort m.keys) := by
    have hfst := congrArg (List.map Prod.fst) hl
    rw [labelLayout, labelLayout, List.map_map, List.map_map] at hfst
    exact hfst
  exact ⟨lookup_eq_iff.mpr (entries_inj hentries hkeys), hrest⟩

/-- Capabilities with one name and one layout that hash the same bytes ask for the
same browser. -/
theorem sameConfiguration_of_hashInput (h : hashInput a = hashInput b) (hn : a.name = b.name)
    (hl : SameLayout a b) : SameConfiguration a b := by
  simp only [hashInput, List.append_assoc] at h
  obtain ⟨hplatform, h⟩ := List.append_inj h hl.platform
  obtain ⟨_, h⟩ := List.append_inj h (congrArg List.length hn)
  obtain ⟨hflavor, h⟩ := List.append_inj h hl.flavor
  obtain ⟨hversion, h⟩ := List.append_inj h hl.version
  obtain ⟨hresolution, h⟩ := List.append_inj h hl.resolution
  obtain ⟨henvs, h⟩ := joinStrings_append_inj h hl.envs
  obtain ⟨hvnc, h⟩ := formatBool_append_inj h
  obtain ⟨hlabels, h⟩ := joinStringMap_append_inj h hl.labels
  obtain ⟨hlinks, h⟩ := joinStrings_append_inj h hl.links
  obtain ⟨hhosts, h⟩ := joinStrings_append_inj h hl.hosts
  rw [← List.append_nil (joinStrings a.networks), ← List.append_nil (joinStrings b.networks)] at h
  obtain ⟨hnetworks, _⟩ := joinStrings_append_inj h hl.networks
  exact ⟨hplatform, hn, hflavor, hversion, hresolution, hvnc, henvs, hlabels, hlinks, hhosts,
    hnetworks⟩

/-- The converse of the above needs no layout: the hash ignores the order of the lists. -/
theorem SameConfiguration.hashInput_eq (h : SameConfiguration a b) : hashInput a = hashInput b := by
  have hjoin : ∀ l m : List GoString, l.Perm m → joinStrings l = joinStrings m := by
    intro l m hlm
    rw [joinStrings, joinStrings, sort_eq_iff.mpr hlm]
  have hmap : joinStringMap a.labels = joinStringMap b.labels := by
    obtain ⟨hkeys, hvals⟩ := lookup_eq_iff.mp h.labels
    rw [joinStringMap_eq, joinStringMap_eq, ← hkeys]
    exact congrArg _ (List.map_congr_left fun k hk => by rw [hvals k hk])
  simp only [hashInput, h.platform, h.name, h.flavor, h.version, h.resolution, h.vncEnabled,
    hjoin _ _ h.envs, hjoin _ _ h.links, hjoin _ _ h.hosts, hjoin _ _ h.networks, hmap]

end Capabilities

end Selebrow
