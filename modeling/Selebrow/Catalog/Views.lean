import Selebrow.Docker.Valid

/-!
# The views of the catalog

A manager looks one image up, the pull before the start asks for the references of all of
them, and a client of the API is shown a list.  Each of the three goes through the maps
on its own.  Here they are all described by `imageAt`, which is a lookup, and compared.

The list also shows the default version of an image, as the document has it.
-/

namespace Selebrow.Catalog

/-- What a container is created from. -/
def imageRef (ic : BrowserImageConfig) (tag : GoString) : GoString := ic.image ++ bytes ":" ++ tag

/-- The entry of the list for an image. -/
def shown (name : GoString) (ic : BrowserImageConfig) : Browser :=
  { name := name,
    defaultVersion := ic.defaultVersion,
    defaultPlatform := defaultPlatform,
    versions := ic.versionTags.keys.map fun ver => ⟨ver, defaultPlatform⟩ }

def flavorOrDefault (flavor : GoString) : GoString := if flavor = [] then defaultFlavor else flavor

namespace BrowserCatalog

/-- What a manager finds for the browser. -/
def Resolves (cat : BrowserCatalog) (protocol name flavor version : GoString)
    (ic : BrowserImageConfig) (tag : GoString) : Prop :=
  cat.lookupBrowserImage protocol name flavor = .ok (some ic) ∧ ic.getTag version = some tag

/-- The list for a client has the browser. -/
def Lists (cat : BrowserCatalog) (protocol flavor : GoString) (b : Browser) : Prop :=
  ∃ bs, cat.getBrowsers protocol flavor = .ok (some bs) ∧ b ∈ bs

/-- The three views are views of one catalog. -/
structure ViewsAgree (cat : BrowserCatalog) : Prop where
  pulled : ∀ protocol name flavor version ic tag,
    cat.Resolves protocol name flavor version ic tag →
      ∃ l, cat.getImages = .ok l ∧ imageRef ic tag ∈ l
  listed : ∀ protocol name flavor version ic tag,
    cat.Resolves protocol name flavor version ic tag → version ≠ [] →
      ∃ b, cat.Lists protocol flavor b ∧ b.name = name ∧
        version ∈ b.versions.map BrowserVersion.number
  resolved : ∀ protocol flavor b version, cat.Lists protocol flavor b → version ≠ [] →
    (version ∈ b.versions.map BrowserVersion.number ∨ version = b.defaultVersion) →
      ∃ ic tag, cat.Resolves protocol b.name flavor version ic tag
  increasing : ∃ l, cat.getImages = .ok l ∧ l.Pairwise (· < ·)

/-- The default version of every image that has a flavor is one of its versions. -/
def DefaultsTagged (cat : BrowserCatalog) : Prop :=
  ∀ protocol name flavor ic, cat.imageAt protocol name flavor = some (some ic) → flavor ≠ [] →
    ic.defaultVersion ≠ [] → ic.defaultVersion ∈ ic.versionTags.keys

variable {cat cat' : BrowserCatalog}

/-! ## The list without duplicates -/

theorem mem_compact {l : List GoString} {s : GoString} : s ∈ compact l ↔ s ∈ l := by
  induction l using compact.induct with
  | case1 y rest ih =>
    rw [compact, if_pos rfl, ih]
    constructor
    · intro h
      exact List.mem_cons_of_mem y h
    · intro h
      rcases List.mem_cons.mp h with rfl | h
      · exact List.mem_cons_self
      · exact h
  | case2 x y rest hne ih => rw [compact, if_neg hne, List.mem_cons, ih, ← List.mem_cons]
  | case3 l hl =>
    rw [compact]
    exact hl

/-- Of a sorted list, neighbours that differ are in order. -/
theorem compact_strict {l : List GoString} (h : l.Pairwise (· ≤ ·)) :
    (compact l).Pairwise (· < ·) := by
  induction l using compact.induct with
  | case1 y rest ih =>
    rw [compact, if_pos rfl]
    exact ih (List.pairwise_cons.mp h).2
  | case2 x y rest hne ih =>
    obtain ⟨hx, hrest⟩ := List.pairwise_cons.mp h
    rw [compact, if_neg hne]
    apply List.pairwise_cons.mpr
    refine ⟨?_, ih hrest⟩
    intro s hs
    have hxy : x < y := (List.le_iff_lt_or_eq.mp (hx y List.mem_cons_self)).resolve_right hne
    rcases List.mem_cons.mp (mem_compact.mp hs) with rfl | hs
    · exact hxy
    · by_contra hxs
      have hsy : s < y := List.lt_of_le_of_lt (List.not_lt.mp hxs) hxy
      exact (List.pairwise_cons.mp hrest).1 s hs hsy
  | case3 l hl =>
    rw [compact]
    · cases l with
      | nil => exact .nil
      | cons x rest =>
        cases rest with
        | nil => exact List.pairwise_singleton _ _
        | cons y rest => exact absurd rfl (hl x y rest)
    · exact hl

/-! ## Each view from `imageAt` -/

theorem flavorOrDefault_ne_nil (flavor : GoString) : flavorOrDefault flavor ≠ [] := by
  rw [flavorOrDefault]
  split
  · decide
  · assumption

theorem flavorOrDefault_of_ne {flavor : GoString} (h : flavor ≠ []) :
    flavorOrDefault flavor = flavor := if_neg h

theorem resolves_iff {protocol name flavor version : GoString} {ic : BrowserImageConfig}
    {tag : GoString} :
    cat.Resolves protocol name flavor version ic tag ↔
      cat.imageAt protocol name (flavorOrDefault flavor) = some (some ic) ∧
        ic.getTag version = some tag := by
  rw [Resolves, lookupBrowserImage_eq, flavorOrDefault]
  cases cat.imageAt protocol name (if flavor = [] then defaultFlavor else flavor) with
  | none => simp
  | some p => cases p <;> simp [deref, Except.map]

/-- The elements of the result are the results of the body. -/
theorem mem_of_mapM {α β : Type} {f : α → Except Panic β} {l : List α} {r : List β}
    (h : l.mapM f = .ok r) {b : β} : b ∈ r ↔ ∃ a ∈ l, f a = .ok b := by
  induction l generalizing r with
  | nil =>
    cases h
    simp
  | cons a l ih =>
    rw [List.mapM_cons] at h
    cases ha : f a with
    | error p =>
      rw [ha] at h
      contradiction
    | ok x =>
      cases hl : l.mapM f with
      | error p =>
        rw [ha, hl] at h
        contradiction
      | ok rest =>
        rw [ha, hl] at h
        cases h
        rw [List.mem_cons, ih hl]
        simp only [List.mem_cons, exists_eq_or_imp, ha, Except.ok.injEq]
        rw [eq_comm]

theorem describe_eq_some_iff {flavor : GoString} {e : GoString × BrowserConfig} {b : Browser} :
    describe flavor e = .ok (some b) ↔
      ∃ ic, e.2.images.lookup flavor = some (some ic) ∧ b = shown e.1 ic := by
  rw [describe]
  cases e.2.images.lookup flavor with
  | none => simp
  | some p =>
    cases p with
    | none =>
      constructor
      · intro h
        contradiction
      · rintro ⟨ic, hic, _⟩
        cases hic
    | some ic =>
      constructor
      · intro h
        cases h
        exact ⟨ic, rfl, rfl⟩
      · rintro ⟨ic', hic, rfl⟩
        cases hic
        rfl

/-- The list has an entry for each browser with an image of the flavor. -/
theorem lists_iff (h : Present cat) {protocol flavor : GoString} {b : Browser} :
    cat.Lists protocol flavor b ↔
      ∃ ic, cat.imageAt protocol b.name (flavorOrDefault flavor) = some (some ic) ∧
        b = shown b.name ic := by
  obtain ⟨r, hr⟩ := h.returns_getBrowsers protocol flavor
  rw [Lists, hr]
  rw [getBrowsers] at hr
  simp only [imageAt]
  cases hb : cat.lookup protocol with
  | none =>
    rw [hb] at hr
    cases hr
    simp
  | some browsers =>
    rw [hb] at hr
    simp only at hr
    cases hm : browsers.entries.mapM
        (describe (if flavor = [] then defaultFlavor else flavor)) with
    | error p =>
      rw [hm] at hr
      contradiction
    | ok found =>
      rw [hm] at hr
      cases hr
      have hmem : b ∈ found.filterMap id ↔ ∃ e ∈ browsers.entries,
          describe (flavorOrDefault flavor) e = .ok (some b) := by
        rw [List.mem_filterMap, flavorOrDefault, ← mem_of_mapM hm]
        simp
      simp only [Except.ok.injEq, Option.some.injEq, exists_eq_left', hmem, describe_eq_some_iff,
        Option.bind_some, Option.bind_eq_some_iff]
      constructor
      · rintro ⟨⟨name, cfg⟩, he, ic, hic, rfl⟩
        exact ⟨ic, ⟨cfg, (GoMap.mem_iff_lookup _).mp he, hic⟩, rfl⟩
      · rintro ⟨ic, ⟨cfg, hcfg, hic⟩, hb⟩
        exact ⟨(b.name, cfg), (GoMap.mem_iff_lookup _).mpr hcfg, ic, hic, hb⟩

/-- The references that are pulled are those of all images with all their tags. -/
theorem getImages_spec (h : Present cat) :
    ∃ l, cat.getImages = .ok l ∧ l.Pairwise (· < ·) ∧
      ∀ s, s ∈ l ↔ ∃ protocol name flavor ic version tag,
        cat.imageAt protocol name flavor = some (some ic) ∧
          ic.versionTags.lookup version = some tag ∧ s = imageRef ic tag := by
  obtain ⟨l, hl⟩ := returns_getImages.mpr h
  refine ⟨l, hl, ?_⟩
  rw [getImages] at hl
  cases hm : cat.images.mapM (fun e => do
      let image ← deref e.2
      return image.versionTags.entries.map fun (t : GoString × GoString) =>
        image.image ++ bytes ":" ++ t.2) with
  | error p =>
    rw [hm] at hl
    contradiction
  | ok result =>
    rw [hm] at hl
    cases hl
    constructor
    · exact compact_strict (Capabilities.sort_pairwise _)
    · intro s
      rw [mem_compact, (Capabilities.sort_perm _).mem_iff, List.mem_flatten]
      constructor
      · rintro ⟨refs, hrefs, hs⟩
        obtain ⟨e, he, hbody⟩ := (mem_of_mapM hm).mp hrefs
        obtain ⟨protocol, name, himage⟩ := mem_images.mp he
        cases hp : e.2 with
        | none =>
          rw [hp] at hbody
          contradiction
        | some ic =>
          rw [hp] at hbody himage
          cases hbody
          obtain ⟨t, ht, rfl⟩ := List.mem_map.mp hs
          exact ⟨protocol, name, e.1, ic, t.1, t.2, himage, (GoMap.mem_iff_lookup _).mp ht, rfl⟩
      · rintro ⟨protocol, name, flavor, ic, version, tag, himage, htag, rfl⟩
        refine ⟨ic.versionTags.entries.map fun t => imageRef ic t.2, ?_, ?_⟩
        · exact (mem_of_mapM hm).mpr
            ⟨(flavor, some ic), mem_images.mpr ⟨protocol, name, himage⟩, rfl⟩
        · exact List.mem_map.mpr ⟨(version, tag), (GoMap.mem_iff_lookup _).mpr htag, rfl⟩

/-! ## The views together -/

theorem getTag_eq_some {ic : BrowserImageConfig} {version : GoString} (h : version ≠ []) :
    ic.getTag version = ic.versionTags.lookup version := by
  rw [BrowserImageConfig.getTag, if_neg h]

theorem mem_versions_shown {name version : GoString} {ic : BrowserImageConfig} :
    version ∈ (shown name ic).versions.map BrowserVersion.number ↔
      version ∈ ic.versionTags.keys := by
  rw [shown, List.map_map]
  show version ∈ ic.versionTags.keys.map id ↔ _
  rw [List.map_id]

/-- A version that is in the list, or that is the default of a tagged image, resolves. -/
theorem resolves_shown {protocol name flavor version : GoString} {ic : BrowserImageConfig}
    (himage : cat.imageAt protocol name (flavorOrDefault flavor) = some (some ic))
    (hversion : version ≠ []) (hkey : version ∈ ic.versionTags.keys) :
    ∃ ic tag, cat.Resolves protocol name flavor version ic tag := by
  obtain ⟨tag, htag⟩ := Option.isSome_iff_exists.mp ((GoMap.mem_keys_iff _).mp hkey)
  refine ⟨ic, tag, resolves_iff.mpr ⟨himage, ?_⟩⟩
  rw [getTag_eq_some hversion]
  exact htag

theorem viewsAgree_of_defaultsTagged (h : Present cat) (hdefaults : DefaultsTagged cat) :
    ViewsAgree cat := by
  obtain ⟨l, hl, hstrict, hmem⟩ := getImages_spec h
  constructor
  · intro protocol name flavor version ic tag hres
    obtain ⟨himage, htag⟩ := resolves_iff.mp hres
    exact ⟨l, hl, (hmem _).mpr ⟨protocol, name, _, ic, _, tag, himage, htag, rfl⟩⟩
  · intro protocol name flavor version ic tag hres hversion
    obtain ⟨himage, htag⟩ := resolves_iff.mp hres
    rw [getTag_eq_some hversion] at htag
    refine ⟨shown name ic, (lists_iff h).mpr ⟨ic, himage, rfl⟩, rfl, ?_⟩
    rw [mem_versions_shown, GoMap.mem_keys_iff, htag]
    rfl
  · intro protocol flavor b version hlists hversion hlisted
    obtain ⟨ic, himage, hb⟩ := (lists_iff h).mp hlists
    apply resolves_shown himage hversion
    rw [hb, mem_versions_shown] at hlisted
    rcases hlisted with hkey | hdefault
    · exact hkey
    · rw [hdefault] at hversion ⊢
      exact hdefaults protocol b.name _ ic himage (flavorOrDefault_ne_nil flavor) hversion
  · exact ⟨l, hl, hstrict⟩

theorem defaultsTagged_of_viewsAgree (h : Present cat) (hviews : ViewsAgree cat) :
    DefaultsTagged cat := by
  intro protocol name flavor ic himage hflavor hdefault
  have himage' : cat.imageAt protocol name (flavorOrDefault flavor) = some (some ic) := by
    rw [flavorOrDefault_of_ne hflavor]
    exact himage
  have hlists : cat.Lists protocol flavor (shown name ic) :=
    (lists_iff h).mpr ⟨ic, himage', rfl⟩
  obtain ⟨ic', tag, hres⟩ := hviews.resolved protocol flavor _ _ hlists hdefault (.inr rfl)
  obtain ⟨hother, htag⟩ := resolves_iff.mp hres
  have heq : some (some ic) = some (some ic') := himage'.symm.trans hother
  cases heq
  rw [GoMap.mem_keys_iff, ← getTag_eq_some hdefault, htag]
  rfl

/-! ## Another registry -/

/-- The names of the images do not matter to the default versions. -/
theorem defaultsTagged_of_sameEntries (h : Docker.SameEntries cat cat')
    (hdefaults : DefaultsTagged cat') : DefaultsTagged cat := by
  intro protocol name flavor ic himage hflavor hdefault
  obtain ⟨image, hcat'⟩ := h.imageAt himage
  have hkey := hdefaults protocol name flavor _ hcat' hflavor hdefault
  exact hkey

theorem present_of_sameEntries (h : Docker.SameEntries cat cat') (hpresent : Present cat') :
    Present cat := by
  intro protocol name flavor hnone
  obtain ⟨image, hcat'⟩ := h.imageAt hnone
  exact hpresent protocol name flavor hcat'

end BrowserCatalog

open BrowserCatalog

/-- The views of a loaded catalog agree exactly when the default versions of the document
are versions. -/
theorem viewsAgree_iff {Named : Type} {ref : ReferenceParser Named}
    {yaml : GoString → Except GoString BrowserCatalog} {data imageRegistry : GoString}
    {doc cat : BrowserCatalog} (hdoc : yaml data = .ok doc)
    (hload : newYamlBrowsersCatalog yaml ref data imageRegistry = .ok cat)
    (hpresent : Present doc) : ViewsAgree cat ↔ DefaultsTagged doc := by
  have hset : setImageRegistry ref doc imageRegistry = .ok cat := by
    rw [newYamlBrowsersCatalog, hdoc] at hload
    exact hload
  have hsame : Docker.SameEntries doc cat := Docker.imageAt_setImageRegistry hset
  have hcat : Present cat := present_of_sameEntries hsame.symm hpresent
  constructor
  · intro hviews
    exact defaultsTagged_of_sameEntries hsame (defaultsTagged_of_viewsAgree hcat hviews)
  · intro hdefaults
    exact viewsAgree_of_defaultsTagged hcat (defaultsTagged_of_sameEntries hsame.symm hdefaults)

/-! ## Two documents -/

/-- An image with this default version, which may have no tag. -/
def defaultAt (version : GoString) : BrowserImageConfig := { chromeEntry with defaultVersion := version }

def defaultText (version : String) : String :=
  "        image: selenoid/chrome\n        path: /\n        defaultVersion: '" ++ version ++
    "'\n        versionTags:\n          '120.0': '120.0'\n"

/-- The domain of a reference, and its path. -/
def domainAndPath (s : GoString) : GoString × GoString :=
  match s.splitOn 47 with
  | first :: second :: rest =>
    if 46 ∈ first ∨ 58 ∈ first then (first, List.intercalate [47] (second :: rest))
    else (bytes "docker.io", s)
  | _ => (bytes "docker.io", bytes "library/" ++ s)

def normalized : ReferenceParser (GoString × GoString) where
  parseNormalizedNamed s := .ok (domainAndPath s)
  path := Prod.snd
  string n := n.1 ++ bytes "/" ++ n.2

def entryOf (image version : String) : BrowserImageConfig :=
  { chromeEntry with
    image := bytes image, defaultVersion := bytes version,
    versionTags := GoMap.empty.insert (bytes version) (bytes version) }

/-- Two browsers, one of them in two flavors. -/
def twoBrowsers : BrowserCatalog :=
  GoMap.empty.insert (bytes "webdriver")
    ((GoMap.empty.insert (bytes "chrome")
      ⟨(GoMap.empty.insert defaultFlavor (some (entryOf "selenoid/chrome" "120.0"))).insert
        (bytes "beta") (some (entryOf "quay.io/browsers/chrome-beta" "121.0"))⟩).insert
      (bytes "firefox")
      ⟨GoMap.empty.insert defaultFlavor (some (entryOf "selenoid/firefox" "119.0"))⟩)

def flavorText (flavor image version : String) : String :=
  "      " ++ flavor ++ ":\n        image: " ++ image ++ "\n        path: /\n" ++
    "        defaultVersion: '" ++ version ++ "'\n        versionTags:\n          '" ++ version ++
    "': '" ++ version ++ "'\n"

def twoBrowsersText : GoString :=
  bytes ("webdriver:\n  chrome:\n    images:\n" ++ flavorText "default" "selenoid/chrome" "120.0" ++
    flavorText "beta" "quay.io/browsers/chrome-beta" "121.0" ++
    "  firefox:\n    images:\n" ++ flavorText "default" "selenoid/firefox" "119.0")

theorem viewsAgree_twoBrowsers :
    ∃ cat, newYamlBrowsersCatalog (fun _ => .ok twoBrowsers) normalized twoBrowsersText
        (bytes "hub.local:5000") = .ok cat ∧
      cat.getImages = .ok [bytes "hub.local:5000/browsers/chrome-beta:121.0",
        bytes "hub.local:5000/selenoid/chrome:120.0",
        bytes "hub.local:5000/selenoid/firefox:119.0"] ∧ ViewsAgree cat := by
  have hentry : ∀ e ∈ twoBrowsers.images, ∃ ic, e.2 = some ic ∧
      ic.defaultVersion ∈ ic.versionTags.keys := by
    rw [show twoBrowsers.images = [
      (defaultFlavor, some (entryOf "selenoid/firefox" "119.0")),
      (bytes "beta", some (entryOf "quay.io/browsers/chrome-beta" "121.0")),
      (defaultFlavor, some (entryOf "selenoid/chrome" "120.0"))] from rfl]
    rw [List.forall_mem_cons, List.forall_mem_cons, List.forall_mem_singleton]
    exact ⟨⟨_, rfl, by decide⟩, ⟨_, rfl, by decide⟩, ⟨_, rfl, by decide⟩⟩
  have hpresent : BrowserCatalog.Present twoBrowsers := by
    intro protocol name flavor himage
    obtain ⟨ic, hic, _⟩ := hentry (flavor, none) (BrowserCatalog.mem_images.mpr ⟨protocol, name, himage⟩)
    contradiction
  have hdefaults : DefaultsTagged twoBrowsers := by
    intro protocol name flavor ic himage _ _
    obtain ⟨ic', hic, htagged⟩ :=
      hentry (flavor, some ic) (BrowserCatalog.mem_images.mpr ⟨protocol, name, himage⟩)
    cases hic
    exact htagged
  have hload : ∃ cat, newYamlBrowsersCatalog (fun _ => .ok twoBrowsers) normalized twoBrowsersText
      (bytes "hub.local:5000") = .ok cat ∧ cat.getImages = .ok [
        bytes "hub.local:5000/browsers/chrome-beta:121.0",
        bytes "hub.local:5000/selenoid/chrome:120.0",
        bytes "hub.local:5000/selenoid/firefox:119.0"] := ⟨_, rfl, rfl⟩
  obtain ⟨cat, hload, himages⟩ := hload
  exact ⟨cat, hload, himages, (viewsAgree_iff rfl hload hpresent).mpr hdefaults⟩

/-- A default version without a tag is shown to clients, and no browser of it can be
allocated. -/
theorem untagged_default_listed :
    newYamlBrowsersCatalog
        (fun _ => .ok (Docker.documentOf (some (defaultAt (bytes "121.0"))))) Docker.noReferences
        (bytes (Docker.head ++ defaultText "121.0")) [] =
          .ok (Docker.documentOf (some (defaultAt (bytes "121.0")))) ∧
      Present (Docker.documentOf (some (defaultAt (bytes "121.0")))) ∧
      ¬ ViewsAgree (Docker.documentOf (some (defaultAt (bytes "121.0")))) := by
  have hpresent : Present (Docker.documentOf (some (defaultAt (bytes "121.0")))) := by
    intro protocol name flavor hnone
    have hp := Docker.imageAt_documentOf hnone
    contradiction
  refine ⟨rfl, hpresent, ?_⟩
  intro hviews
  have hkey := defaultsTagged_of_viewsAgree hpresent hviews (bytes "webdriver") (bytes "chrome")
    defaultFlavor _ rfl (by decide) (by decide)
  exact absurd hkey (by decide)

end Selebrow.Catalog
