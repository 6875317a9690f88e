import Selebrow.Docker.Container

/-!
# What a catalog must satisfy

`NewYamlBrowsersCatalog` decodes the document and replaces the registry of the images.
It checks nothing else, and `createContainer` assumes that the catalog was checked.
Requests cannot crash exactly when every entry of the document has a body and every
entry that can be requested has ports and limits that parse.
-/

namespace Selebrow.Docker

open Catalog

variable {Named Port Quantity : Type} [DecidableEq Port] (lib : Parsers Port Quantity)

/-- No request to the catalog panics, nor one to create a container for what is found
in it. -/
structure NeverPanics (cat : BrowserCatalog) : Prop where
  lookup : ∀ protocol name flavor, Returns (cat.lookupBrowserImage protocol name flavor)
  images : Returns cat.getImages
  browsers : ∀ protocol flavor, Returns (cat.getBrowsers protocol flavor)
  container : ∀ (opts : Opts) (protocol : GoString) (caps : Capabilities) (cfg : BrowserImageConfig),
    cat.lookupBrowserImage protocol caps.name caps.flavor = .ok (some cfg) →
      Returns (containerRequest lib opts cfg caps)

/-- What the source leaves to do at "TODO validate".  An empty flavor asks for the default
one, so an entry under the empty flavor is never found. -/
structure Valid (doc : BrowserCatalog) : Prop where
  present : doc.Present
  parses : ∀ protocol name flavor ic, flavor ≠ [] →
    doc.imageAt protocol name flavor = some (some ic) →
    (∃ version, ic.getTag version ≠ none) → Parses lib ic ic.ports.entries

variable {lib} {cat doc : BrowserCatalog}

theorem defaultFlavor_ne : defaultFlavor ≠ [] := by decide

theorem lookupBrowserImage_eq_some {protocol name flavor : GoString} {cfg : BrowserImageConfig} :
    cat.lookupBrowserImage protocol name flavor = .ok (some cfg) ↔
      cat.imageAt protocol name (if flavor = [] then defaultFlavor else flavor) =
        some (some cfg) := by
  rw [BrowserCatalog.lookupBrowserImage_eq]
  cases cat.imageAt protocol name (if flavor = [] then defaultFlavor else flavor) with
  | none => simp
  | some p => cases p <;> simp [deref, Except.map]

/-- Capabilities that ask for one version of an entry, with everything but the version
left open. -/
def capsFor (name flavor version : GoString) : Capabilities :=
  ⟨[], name, flavor, version, [], [], true, ⟨[], List.nodup_nil⟩, [], [], []⟩

omit [DecidableEq Port] in
theorem Parses.mono {cfg : BrowserImageConfig} {ports ports' : List (ContainerPort × Int)}
    (h : Parses lib cfg ports) (hsub : ∀ e ∈ ports', e ∈ ports) : Parses lib cfg ports' :=
  ⟨fun e he => h.ports e (hsub e he), h.memory, h.cpu⟩

theorem neverPanics_iff_valid : NeverPanics lib cat ↔ Valid lib cat := by
  constructor
  · intro h
    constructor
    · exact BrowserCatalog.returns_getImages.mp h.images
    · intro protocol name flavor ic hflavor himage ⟨version, htag⟩
      have hfound : cat.lookupBrowserImage protocol name flavor = .ok (some ic) := by
        rw [lookupBrowserImage_eq_some, if_neg hflavor]
        exact himage
      have hreturns := h.container ⟨[], false, false, .empty, false, false⟩ protocol
        (capsFor name flavor version) ic hfound
      have hparses := (returns_containerRequest.mp hreturns).resolve_left htag
      apply hparses.mono
      intro e he
      exact List.mem_filter.mpr ⟨he, rfl⟩
  · intro h
    constructor
    · intro protocol name flavor
      exact BrowserCatalog.returns_lookupBrowserImage.mpr (h.present _ _ _)
    · exact BrowserCatalog.returns_getImages.mpr h.present
    · exact h.present.returns_getBrowsers
    · intro opts protocol caps cfg hfound
      rw [lookupBrowserImage_eq_some] at hfound
      rw [returns_containerRequest]
      by_cases htag : cfg.getTag caps.version = none
      · exact .inl htag
      · right
        have hflavor : (if caps.flavor = [] then defaultFlavor else caps.flavor) ≠ [] := by
          split
          · exact defaultFlavor_ne
          · assumption
        apply (h.parses _ _ _ cfg hflavor hfound ⟨_, htag⟩).mono
        intro e he
        exact (List.mem_filter.mp he).1

/-! ## Loading -/

variable {ref : ReferenceParser Named}

/-- The entry with another image name, if it has a body. -/
def Renamed (p p' : Option BrowserImageConfig) : Prop :=
  ∃ image, p' = p.map fun ic => { ic with image := image }

theorem renamed_refl (p : Option BrowserImageConfig) : Renamed p p := by
  cases p with
  | none => exact ⟨[], rfl⟩
  | some ic => exact ⟨ic.image, rfl⟩

theorem renamed_of_setRegistry {newRegistry : GoString} {p p' : Option BrowserImageConfig}
    (h : setRegistry ref newRegistry p = .ok p') : Renamed p p' := by
  cases p with
  | none => contradiction
  | some ic =>
    rw [setRegistry] at h
    split at h
    · contradiction
    · rename_i image _
      cases h
      exact ⟨image, rfl⟩

/-- A new registry leaves all but the names of the images as it is. -/
theorem imageAt_setImageRegistry {newRegistry : GoString}
    (h : setImageRegistry ref doc newRegistry = .ok cat) (protocol name flavor : GoString) :
    Option.Rel Renamed (doc.imageAt protocol name flavor) (cat.imageAt protocol name flavor) := by
  by_cases hreg : newRegistry = []
  · rw [setImageRegistry, if_pos hreg] at h
    cases h
    cases cat.imageAt protocol name flavor with
    | none => exact .none
    | some p => exact .some (renamed_refl p)
  · have hrel := BrowserCatalog.imageAt_setImageRegistry h hreg protocol name flavor
    revert hrel
    generalize doc.imageAt protocol name flavor = x
    generalize cat.imageAt protocol name flavor = y
    intro hrel
    cases hrel with
    | none => exact .none
    | some hset => exact .some (renamed_of_setRegistry hset)

/-- The catalogs have the same entries up to the names of the images. -/
def SameEntries (doc cat : BrowserCatalog) : Prop :=
  ∀ protocol name flavor,
    Option.Rel Renamed (doc.imageAt protocol name flavor) (cat.imageAt protocol name flavor)

theorem SameEntries.symm (h : SameEntries doc cat) : SameEntries cat doc := by
  intro protocol name flavor
  have hrel := h protocol name flavor
  revert hrel
  generalize doc.imageAt protocol name flavor = x
  generalize cat.imageAt protocol name flavor = y
  intro hrel
  cases hrel with
  | none => exact .none
  | @some p _ hp =>
    obtain ⟨image, rfl⟩ := hp
    cases p with
    | none => exact .some ⟨[], rfl⟩
    | some ic => exact .some ⟨ic.image, rfl⟩

theorem SameEntries.imageAt (h : SameEntries doc cat) {protocol name flavor : GoString}
    {p : Option BrowserImageConfig} (hp : doc.imageAt protocol name flavor = some p) :
    ∃ image, cat.imageAt protocol name flavor =
      some (p.map fun ic => { ic with image := image }) := by
  have hrel := h protocol name flavor
  rw [hp] at hrel
  revert hrel
  generalize cat.imageAt protocol name flavor = y
  intro hrel
  cases hrel with
  | some hr =>
    obtain ⟨image, rfl⟩ := hr
    exact ⟨image, rfl⟩

omit [DecidableEq Port] in
/-- Validity does not look at the names of the images. -/
theorem SameEntries.valid (h : SameEntries doc cat) (hv : Valid lib cat) : Valid lib doc := by
  constructor
  · intro protocol name flavor hnone
    obtain ⟨_, hcat⟩ := h.imageAt hnone
    exact hv.present protocol name flavor hcat
  · intro protocol name flavor ic hflavor himage htag
    obtain ⟨_, hcat⟩ := h.imageAt himage
    have hparses := hv.parses protocol name flavor _ hflavor hcat htag
    exact ⟨hparses.ports, hparses.memory, hparses.cpu⟩

/-- An accepted document cannot crash a request exactly when it is valid. -/
theorem neverPanics_iff {yaml : GoString → Except GoString BrowserCatalog}
    {data imageRegistry : GoString} (hdoc : yaml data = .ok doc)
    (hload : newYamlBrowsersCatalog yaml ref data imageRegistry = .ok cat) :
    NeverPanics lib cat ↔ Valid lib doc := by
  have hset : setImageRegistry ref doc imageRegistry = .ok cat := by
    rw [newYamlBrowsersCatalog, hdoc] at hload
    exact hload
  have hsame : SameEntries doc cat := imageAt_setImageRegistry hset
  rw [neverPanics_iff_valid]
  constructor
  · exact hsame.valid
  · exact hsame.symm.valid

/-! ## Three documents -/

/-- A document with one entry, of the default flavor. -/
def documentOf (p : Option BrowserImageConfig) : BrowserCatalog :=
  GoMap.empty.insert (bytes "webdriver")
    (GoMap.empty.insert (bytes "chrome") ⟨GoMap.empty.insert defaultFlavor p⟩)

def imageWithMemory (memory : GoString) : BrowserImageConfig where
  image := bytes "selenoid/chrome"
  cmd := []
  defaultVersion := bytes "120.0"
  versionTags := GoMap.empty.insert (bytes "120.0") (bytes "120.0")
  ports := GoMap.empty.insert browserPort 4444
  path := bytes "/"
  env := .empty
  limits := GoMap.empty.insert (bytes "memory") memory
  labels := .empty
  shmSize := 0
  tmpfs := []
  volumes := []

/-- The parsers on the one port and the one quantity that are well formed below. -/
def sampleParsers : Parsers GoString Int where
  parsePort := fun s => if s = bytes "4444/tcp" then some s else none
  parseQuantity := fun s => if s = bytes "1Gi" then some 1073741824 else none
  newQuantity := 0
  value := id
  nanoValue := fun q => q * 1000000000

/-- The image names are left as they are when no registry is given. -/
def noReferences : ReferenceParser GoString := ⟨fun _ => .error [], id, id⟩

theorem imageAt_documentOf {p p' : Option BrowserImageConfig} {protocol name flavor : GoString}
    (h : (documentOf p).imageAt protocol name flavor = some p') : p' = p := by
  have hempty : ∀ {ν : Type} (k : GoString), (GoMap.empty : GoMap GoString ν).lookup k = none :=
    fun _ => rfl
  simp only [BrowserCatalog.imageAt, documentOf, GoMap.lookup_insert, hempty,
    Option.bind_eq_some_iff, Option.ite_none_right_eq_some, Option.some.injEq] at h
  obtain ⟨cfg, ⟨browsers, ⟨_, rfl⟩, h⟩, h'⟩ := h
  simp only [GoMap.lookup_insert, hempty, Option.ite_none_right_eq_some, Option.some.injEq] at h
  obtain ⟨_, rfl⟩ := h
  simp only [GoMap.lookup_insert, hempty, Option.ite_none_right_eq_some, Option.some.injEq] at h'
  exact h'.2.symm

/-- The text of the document up to the body of its entry. -/
def head : String := "webdriver:\n  chrome:\n    images:\n      default:\n"

def imageText : String :=
  "        image: selenoid/chrome\n        path: /\n        defaultVersion: '120.0'\n" ++
    "        versionTags:\n          '120.0': '120.0'\n        ports:\n          browser: 4444\n"

theorem neverPanics_oneGibibyte :
    NeverPanics sampleParsers (documentOf (some (imageWithMemory (bytes "1Gi")))) := by
  have hload : newYamlBrowsersCatalog
      (fun _ => .ok (documentOf (some (imageWithMemory (bytes "1Gi"))))) noReferences
      (bytes (head ++ imageText ++ "        limits:\n          memory: 1Gi\n")) [] =
        .ok (documentOf (some (imageWithMemory (bytes "1Gi")))) := rfl
  apply (neverPanics_iff rfl hload).mpr
  constructor
  · intro protocol name flavor h
    have hp := imageAt_documentOf h
    contradiction
  · intro protocol name flavor ic _ h _
    cases imageAt_documentOf h
    constructor
    · intro e he
      cases List.mem_singleton.mp he
      show (sampleParsers.parsePort (bytes (toString (4444 : Int)) ++ bytes "/tcp")).isSome = true
      decide
    · intro lim hlim
      have hmem : lim = bytes "1Gi" := by
        rw [imageWithMemory, GoMap.lookup_insert, if_pos rfl] at hlim
        exact (Option.some.inj hlim).symm
      rw [hmem]
      decide
    · intro lim hlim
      rw [imageWithMemory, GoMap.lookup_insert, if_neg (by decide)] at hlim
      contradiction

/-- The entry of the first document has no body, the memory of the second is no quantity:
both are accepted. -/
theorem accepted_catalogs_panic :
    (newYamlBrowsersCatalog (fun _ => .ok (documentOf none)) noReferences (bytes head) [] =
        .ok (documentOf none) ∧
      ¬ NeverPanics sampleParsers (documentOf none)) ∧
    (newYamlBrowsersCatalog
        (fun _ => .ok (documentOf (some (imageWithMemory (bytes "lots"))))) noReferences
        (bytes (head ++ imageText ++ "        limits:\n          memory: lots\n")) [] =
          .ok (documentOf (some (imageWithMemory (bytes "lots")))) ∧
      ¬ NeverPanics sampleParsers (documentOf (some (imageWithMemory (bytes "lots"))))) := by
  constructor
  · constructor
    · rfl
    · intro h
      exact (neverPanics_iff_valid.mp h).present (bytes "webdriver") (bytes "chrome") defaultFlavor
        rfl
  · constructor
    · rfl
    · intro h
      have hparses := (neverPanics_iff_valid.mp h).parses (bytes "webdriver") (bytes "chrome")
        defaultFlavor (imageWithMemory (bytes "lots")) defaultFlavor_ne rfl ⟨[], by decide⟩
      have hsome := hparses.memory (bytes "lots") rfl
      exact absurd hsome (by decide)

end Selebrow.Docker
