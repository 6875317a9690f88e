import Selebrow.Capabilities.Hash
import Selebrow.GoMap

/-!
# The browser catalog

`YamlBrowsersCatalog` is the decoded YAML document: for each protocol the browsers by
name, for each browser the images by flavor.  An image is a pointer in the source, and
an entry of the document without a body leaves it nil.  The YAML decoder and the parser
of image references are parameters.
-/

namespace Selebrow

namespace StringMap

def toGoMap (m : StringMap) : GoMap GoString GoString := ⟨m.entries, m.nodup⟩

theorem lookup_toGoMap (m : StringMap) (k : GoString) : m.toGoMap.lookup k = m.lookup k :=
  (GoMap.lookup_entries m.toGoMap k).symm

end StringMap

namespace Catalog

abbrev ContainerPort := GoString

def vncPort : ContainerPort := bytes "vnc"
def browserPort : ContainerPort := bytes "browser"

structure BrowserImageConfig where
  image : GoString
  cmd : List GoString
  defaultVersion : GoString
  versionTags : GoMap GoString GoString
  ports : GoMap ContainerPort Int
  path : GoString
  env : GoMap GoString GoString
  limits : GoMap GoString GoString
  labels : GoMap GoString GoString
  shmSize : Int
  tmpfs : List GoString
  volumes : List GoString

structure BrowserConfig where
  /-- `map[string]*BrowserImageConfig` -/
  images : GoMap GoString (Option BrowserImageConfig)

abbrev Browsers := GoMap GoString BrowserConfig

abbrev BrowserCatalog := GoMap GoString Browsers

def defaultFlavor : GoString := bytes "default"

def defaultPlatform : GoString := bytes "LINUX"

namespace BrowserImageConfig

def getTag (c : BrowserImageConfig) (version : GoString) : Option GoString :=
  c.versionTags.lookup (if version = [] then c.defaultVersion else version)

/-- The ports in the order in which the range over the map meets them. -/
def getPorts (c : BrowserImageConfig) (vncEnabled : Bool) : List (ContainerPort × Int) :=
  c.ports.entries.filter fun e => vncEnabled || e.1 != vncPort

end BrowserImageConfig

/-- A field of a nil pointer panics. -/
def deref (p : Option BrowserImageConfig) : Except Panic BrowserImageConfig :=
  match p with
  | some ic => .ok ic
  | none => .error .nilPointer

namespace BrowserCatalog

def lookupBrowserImage (cat : BrowserCatalog) (protocol name flavor : GoString) :
    Except Panic (Option BrowserImageConfig) :=
  match cat.lookup protocol with
  | none => .ok none
  | some browsers =>
    match browsers.lookup name with
    | none => .ok none
    | some cfg =>
      match cfg.images.lookup (if flavor = [] then defaultFlavor else flavor) with
      | none => .ok none
      | some p => (deref p).map some

/-- All images with their flavors, in the order of the three nested loops. -/
def images (cat : BrowserCatalog) : List (GoString × Option BrowserImageConfig) :=
  cat.entries.flatMap fun e => e.2.entries.flatMap fun b => b.2.images.entries

/-- `slices.Compact` -/
def compact : List GoString → List GoString
  | x :: y :: rest => if x = y then compact (y :: rest) else x :: compact (y :: rest)
  | l => l

def getImages (cat : BrowserCatalog) : Except Panic (List GoString) := do
  let result ← cat.images.mapM fun e => do
    let image ← deref e.2
    return image.versionTags.entries.map fun t => image.image ++ bytes ":" ++ t.2
  return compact (Capabilities.sort result.flatten)

end BrowserCatalog

structure BrowserVersion where
  number : GoString
  platform : GoString

structure Browser where
  name : GoString
  defaultVersion : GoString
  defaultPlatform : GoString
  versions : List BrowserVersion

namespace BrowserCatalog

/-- The body of the loop of `GetBrowsers`. -/
def describe (flavor : GoString) (e : GoString × BrowserConfig) : Except Panic (Option Browser) :=
  match e.2.images.lookup flavor with
  | none => .ok none
  | some p => do
    let ic ← deref p
    return some
      { name := e.1,
        defaultVersion := ic.defaultVersion,
        defaultPlatform := Catalog.defaultPlatform,
        versions := ic.versionTags.keys.map fun ver => ⟨ver, Catalog.defaultPlatform⟩ }

def getBrowsers (cat : BrowserCatalog) (protocol flavor : GoString) :
    Except Panic (Option (List Browser)) :=
  match cat.lookup protocol with
  | none => .ok none
  | some browsers => do
    let result ← browsers.entries.mapM (describe (if flavor = [] then defaultFlavor else flavor))
    return some (result.filterMap id)

end BrowserCatalog

/-! ## Loading -/

/-- `github.com/distribution/reference` -/
structure ReferenceParser (Named : Type) where
  parseNormalizedNamed : GoString → Except GoString Named
  path : Named → GoString
  string : Named → GoString

inductive LoadError
  | panic (p : Panic)
  | err (text : GoString)
deriving DecidableEq, Repr

variable {Named : Type}

def replaceRegistry (ref : ReferenceParser Named) (image newRegistry : GoString) :
    Except GoString GoString := do
  let named ← ref.parseNormalizedNamed image
  let newNamed ← ref.parseNormalizedNamed (newRegistry ++ bytes "/" ++ ref.path named)
  return ref.string newNamed

/-- The body of the loop of `setImageRegistry`. -/
def setRegistry (ref : ReferenceParser Named) (newRegistry : GoString) :
    Option BrowserImageConfig → Except LoadError (Option BrowserImageConfig)
  | none => .error (.panic .nilPointer)
  | some image =>
    match replaceRegistry ref image.image newRegistry with
    | .error err => .error (.err err)
    | .ok newImage => .ok (some { image with image := newImage })

def setImageRegistry (ref : ReferenceParser Named) (cat : BrowserCatalog) (newRegistry : GoString) :
    Except LoadError BrowserCatalog :=
  if newRegistry = [] then .ok cat
  else
    cat.traverse fun browsers => browsers.traverse fun cfg =>
      (cfg.images.traverse (setRegistry ref newRegistry)).map fun images => ⟨images⟩

/-- `yaml` is `yaml.Unmarshal` into a fresh catalog. -/
def newYamlBrowsersCatalog (yaml : GoString → Except GoString BrowserCatalog)
    (ref : ReferenceParser Named) (data imageRegistry : GoString) : Except LoadError BrowserCatalog :=
  match yaml data with
  | .error err => .error (.err err)
  | .ok cat => setImageRegistry ref cat imageRegistry

/-! ## When it returns -/

namespace BrowserCatalog

/-- The entry of the document, `some none` when it has no body. -/
def imageAt (cat : BrowserCatalog) (protocol name flavor : GoString) :
    Option (Option BrowserImageConfig) :=
  ((cat.lookup protocol).bind fun browsers => browsers.lookup name).bind fun cfg =>
    cfg.images.lookup flavor

variable {cat cat' : BrowserCatalog}

theorem returns_deref {p : Option BrowserImageConfig} : Returns (deref p) ↔ p ≠ none := by
  cases p <;> simp [Returns, deref]

theorem lookupBrowserImage_eq (protocol name flavor : GoString) :
    cat.lookupBrowserImage protocol name flavor =
      match cat.imageAt protocol name (if flavor = [] then defaultFlavor else flavor) with
      | none => .ok none
      | some p => (deref p).map some := by
  rw [lookupBrowserImage, imageAt]
  cases cat.lookup protocol with
  | none => rfl
  | some browsers =>
    simp only [Option.bind_some]
    cases browsers.lookup name <;> rfl

theorem returns_lookupBrowserImage {protocol name flavor : GoString} :
    Returns (cat.lookupBrowserImage protocol name flavor) ↔
      cat.imageAt protocol name (if flavor = [] then defaultFlavor else flavor) ≠ some none := by
  rw [lookupBrowserImage_eq]
  cases cat.imageAt protocol name (if flavor = [] then defaultFlavor else flavor) with
  | none => simp [Returns]
  | some p => simp only [returns_map, returns_deref, ne_eq, Option.some.injEq]

theorem mem_images {e : GoString × Option BrowserImageConfig} :
    e ∈ cat.images ↔ ∃ protocol name, cat.imageAt protocol name e.1 = some e.2 := by
  simp only [images, imageAt, List.mem_flatMap, Option.bind_eq_some_iff]
  constructor
  · rintro ⟨⟨protocol, browsers⟩, hb, ⟨name, cfg⟩, hc, he⟩
    exact ⟨protocol, name, cfg, ⟨browsers, (GoMap.mem_iff_lookup _).mp hb,
      (GoMap.mem_iff_lookup _).mp hc⟩, (GoMap.mem_iff_lookup _).mp he⟩
  · rintro ⟨protocol, name, cfg, ⟨browsers, hb, hc⟩, he⟩
    exact ⟨(protocol, browsers), (GoMap.mem_iff_lookup _).mpr hb, (name, cfg),
      (GoMap.mem_iff_lookup _).mpr hc, (GoMap.mem_iff_lookup _).mpr he⟩

/-- All entries of the document have a body. -/
def Present (cat : BrowserCatalog) : Prop :=
  ∀ protocol name flavor, cat.imageAt protocol name flavor ≠ some none

theorem returns_getImages : Returns cat.getImages ↔ Present cat := by
  simp only [getImages, returns_bind, returns_pure, and_true]
  rw [← Returns, returns_mapM]
  simp only [returns_bind, returns_pure, and_true]
  constructor
  · intro h protocol name flavor hnone
    exact returns_deref.mp (h (flavor, none) (mem_images.mpr ⟨protocol, name, hnone⟩)) rfl
  · intro h e he
    obtain ⟨protocol, name, himage⟩ := mem_images.mp he
    apply returns_deref.mpr
    intro hnone
    exact h protocol name e.1 (himage.trans (congrArg some hnone))

theorem Present.returns_getBrowsers (h : Present cat) (protocol flavor : GoString) :
    Returns (cat.getBrowsers protocol flavor) := by
  rw [getBrowsers]
  cases hb : cat.lookup protocol with
  | none => exact ⟨none, rfl⟩
  | some browsers =>
    simp only [returns_bind, returns_pure, and_true]
    rw [← Returns, returns_mapM]
    intro e he
    rw [describe]
    cases hp : e.2.images.lookup (if flavor = [] then defaultFlavor else flavor) with
    | none => exact ⟨none, rfl⟩
    | some p =>
      simp only [returns_bind, returns_pure, and_true]
      apply returns_deref.mpr
      rintro rfl
      apply h protocol e.1 (if flavor = [] then defaultFlavor else flavor)
      rw [imageAt, hb, Option.bind_some, (GoMap.mem_iff_lookup _).mp he, Option.bind_some, hp]

/-- A new registry changes the images where they are, and needs all of them present. -/
theorem imageAt_setImageRegistry {ref : ReferenceParser Named} {newRegistry : GoString}
    (h : setImageRegistry ref cat newRegistry = .ok cat') (hreg : newRegistry ≠ [])
    (protocol name flavor : GoString) :
    Option.Rel (fun p p' => setRegistry ref newRegistry p = .ok p')
      (cat.imageAt protocol name flavor) (cat'.imageAt protocol name flavor) := by
  rw [setImageRegistry, if_neg hreg] at h
  apply GoMap.rel_bind
    (GoMap.rel_bind (GoMap.lookup_traverse h protocol) fun _ _ hb => GoMap.lookup_traverse hb name)
  intro cfg cfg' hcfg
  cases himages : cfg.images.traverse (setRegistry ref newRegistry) with
  | error err =>
    rw [himages] at hcfg
    contradiction
  | ok images =>
    rw [himages] at hcfg
    cases hcfg
    exact GoMap.lookup_traverse himages flavor

end BrowserCatalog

/-! ## A sample -/

/-- An entry with one version, without ports and limits. -/
def chromeEntry : BrowserImageConfig where
  image := bytes "selenoid/chrome"
  cmd := []
  defaultVersion := bytes "120.0"
  versionTags := GoMap.empty.insert (bytes "120.0") (bytes "120.0")
  ports := .empty
  path := bytes "/"
  env := .empty
  limits := .empty
  labels := .empty
  shmSize := 0
  tmpfs := []
  volumes := []

end Catalog

end Selebrow
