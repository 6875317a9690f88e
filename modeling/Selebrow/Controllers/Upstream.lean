import Selebrow.Controllers.Director
import Selebrow.Controllers.PlaywrightEnv

/-!
# What a Playwright server is told

The query upstream says what the request said, and no more than that: arguments and the
`headless` parameter as they are, launch options that are read back as the same options, and
context options that are read back as the same tree.
-/

namespace Selebrow.Controllers

open Models Net Text

/-- The options as their text shows them. -/
structure ReadAs (o o' : PWLaunchOptions) : Prop where
  args : o'.args.elements = o.args.elements.map toValidUTF8
  headless : o'.headless = o.headless
  channel : o'.channel = toValidUTF8 o.channel
  firefoxUserPrefs : (∀ e ∈ (o.firefoxUserPrefs.getD .empty).entries, toValidUTF8 e.1 = e.1) →
    ∀ k, (o'.firefoxUserPrefs.getD .empty).lookup k =
      ((o.firefoxUserPrefs.getD .empty).lookup k).map Json.shown
  proxy : o'.proxy = o.proxy.map fun p =>
    { server := toValidUTF8 p.server, bypass := toValidUTF8 p.bypass }
  ignoreDefaultArgs : o'.ignoreDefaultArgs.elements = o.ignoreDefaultArgs.elements.map toValidUTF8
  env : o'.env = none

/-- The settings of the query upstream, for the options of a request. -/
structure Forwarded (o : PWOptions) (q : Query.Pairs) : Prop where
  keys : ∀ e ∈ q, e.1 ∈ ["arg", "headless", "launch-options", "context-options"].map bytes
  args : Query.valuesOf q (bytes "arg") = o.launchOpts.args.elements
  headless : Query.valuesOf q (bytes "headless") =
    (o.launchOpts.headless.map Capabilities.formatBool).toList
  launchOptions : ∃ text v o', Query.valuesOf q (bytes "launch-options") = [text] ∧
    Json.parse text = some v ∧ unmarshalLaunchOptions v = some o' ∧ ReadAs o.launchOpts o'
  /-- Without context options there is no parameter for them. -/
  absent : (o.contextOpts.getD .empty).entries = [] → Query.valuesOf q (bytes "context-options") = []
  contextOptions : (o.contextOpts.getD .empty).entries ≠ [] → ∃ text v,
    Query.valuesOf q (bytes "context-options") = [text] ∧ Json.parse text = some v ∧
      v.SameTree (Json.decoded (.object (o.contextOpts.getD .empty).entries))

/-! ## Fields -/

section

variable {o o' : PWLaunchOptions} {m : Option Values} {M : Values} {l : List GoString}
  {ms ms' : List (GoString × Json)} {n : Nat}

def readFields (o : PWLaunchOptions) (ms : List (GoString × Json)) : Option PWLaunchOptions :=
  (Json.shownMembers ms).foldlM unmarshalLaunchField o

theorem shownMembers_eq_map (ms : List (GoString × Json)) :
    Json.shownMembers ms = ms.map fun e => (toValidUTF8 e.1, Json.shown e.2) := by
  induction ms with
  | nil => rfl
  | cons e ms ih =>
    obtain ⟨k, v⟩ := e
    rw [Json.shownMembers, ih]
    rfl

/-- The fields are read one after the other. -/
theorem readFields_append (h : readFields o ms = some o') :
    readFields o (ms ++ ms') = readFields o' ms' := by
  rw [readFields, shownMembers_eq_map] at h
  rw [readFields, shownMembers_eq_map, List.map_append, List.foldlM_append, h, ← shownMembers_eq_map]
  rfl

theorem readFields_single {k : GoString} (hk : toValidUTF8 k = k) (o : PWLaunchOptions) (v : Json) :
    readFields o [(k, v)] = unmarshalLaunchField o (k, Json.shown v) := by
  rw [readFields, Json.shownMembers, Json.shownMembers, hk, List.foldlM_cons]
  show (unmarshalLaunchField o (k, Json.shown v)).bind some = _
  cases unmarshalLaunchField o (k, Json.shown v) with
  | none => rfl
  | some o' => rfl

theorem field_args (o : PWLaunchOptions) (v : Json) : unmarshalLaunchField o (bytes "args", v) =
    (unmarshalStringSlice o.args v).map fun s => { o with args := s } := by
  rw [unmarshalLaunchField, if_pos rfl]

theorem field_headless (o : PWLaunchOptions) (v : Json) :
    unmarshalLaunchField o (bytes "headless", v) =
      (unmarshalBool v).map fun b => { o with headless := b } := by
  have h₁ : foldName (bytes "headless") ≠ foldName (bytes "args") := by decide
  rw [unmarshalLaunchField, if_neg h₁, if_pos rfl]

theorem field_channel (o : PWLaunchOptions) (v : Json) : unmarshalLaunchField o (bytes "channel", v) =
    (unmarshalString o.channel v).map fun s => { o with channel := s } := by
  have h₁ : foldName (bytes "channel") ≠ foldName (bytes "args") := by decide
  have h₂ : foldName (bytes "channel") ≠ foldName (bytes "headless") := by decide
  rw [unmarshalLaunchField, if_neg h₁, if_neg h₂, if_pos rfl]

theorem field_prefs (o : PWLaunchOptions) (v : Json) :
    unmarshalLaunchField o (bytes "firefoxUserPrefs", v) =
      (unmarshalMap o.firefoxUserPrefs v).map fun m => { o with firefoxUserPrefs := m } := by
  have h₁ : foldName (bytes "firefoxUserPrefs") ≠ foldName (bytes "args") := by decide
  have h₂ : foldName (bytes "firefoxUserPrefs") ≠ foldName (bytes "headless") := by decide
  have h₃ : foldName (bytes "firefoxUserPrefs") ≠ foldName (bytes "channel") := by decide
  rw [unmarshalLaunchField, if_neg h₁, if_neg h₂, if_neg h₃, if_pos rfl]

theorem field_proxy (o : PWLaunchOptions) (v : Json) : unmarshalLaunchField o (bytes "proxy", v) =
    (unmarshalPWProxy o.proxy v).map fun p => { o with proxy := p } := by
  have h₁ : foldName (bytes "proxy") ≠ foldName (bytes "args") := by decide
  have h₂ : foldName (bytes "proxy") ≠ foldName (bytes "headless") := by decide
  have h₃ : foldName (bytes "proxy") ≠ foldName (bytes "channel") := by decide
  have h₄ : foldName (bytes "proxy") ≠ foldName (bytes "firefoxUserPrefs") := by decide
  rw [unmarshalLaunchField, if_neg h₁, if_neg h₂, if_neg h₃, if_neg h₄, if_pos rfl]

theorem field_ignoreDefaultArgs (o : PWLaunchOptions) (v : Json) :
    unmarshalLaunchField o (bytes "ignoreDefaultArgs", v) =
      (unmarshalStringSlice o.ignoreDefaultArgs v).map fun s => { o with ignoreDefaultArgs := s } := by
  have h₁ : foldName (bytes "ignoreDefaultArgs") ≠ foldName (bytes "args") := by decide
  have h₂ : foldName (bytes "ignoreDefaultArgs") ≠ foldName (bytes "headless") := by decide
  have h₃ : foldName (bytes "ignoreDefaultArgs") ≠ foldName (bytes "channel") := by decide
  have h₄ : foldName (bytes "ignoreDefaultArgs") ≠ foldName (bytes "firefoxUserPrefs") := by decide
  have h₅ : foldName (bytes "ignoreDefaultArgs") ≠ foldName (bytes "proxy") := by decide
  rw [unmarshalLaunchField, if_neg h₁, if_neg h₂, if_neg h₃, if_neg h₄, if_neg h₅, if_pos rfl]

/-! ## Values of fields -/

theorem unmarshalStrings_nil (l : List GoString) : unmarshalStrings [] (l.map .string) = some l := by
  induction l with
  | nil => rfl
  | cons s l ih =>
    rw [List.map_cons, unmarshalStrings, List.tail_nil, ih]
    rfl

theorem shown_strings (l : List GoString) :
    Json.shown (.array (l.map .string)) = .array ((l.map toValidUTF8).map .string) := by
  rw [Json.shown]
  congr 1
  induction l with
  | nil => rfl
  | cons s l ih =>
    rw [List.map_cons, Json.shownElements, ih]
    rfl

/-- A list that was written is read into an array that was not used before. -/
theorem exists_slice (h : l ≠ []) : ∃ s,
    unmarshalStringSlice .nil (Json.shown (.array (l.map .string))) = some s ∧
      s.elements = l.map toValidUTF8 := by
  rw [shown_strings]
  obtain ⟨s, l, rfl⟩ := List.exists_cons_of_ne_nil h
  refine ⟨{ backing := (s :: l).map toValidUTF8, length := ((s :: l).map toValidUTF8).length }, ?_, ?_⟩
  · show (unmarshalStrings [] (((s :: l).map toValidUTF8).map .string)).map _ = _
    rw [unmarshalStrings_nil, Option.map_some, List.length_map]
  · rw [StringSlice.elements, List.take_length]

theorem read_strings {name : String} (hname : toValidUTF8 (bytes name) = bytes name)
    (f : StringSlice → PWLaunchOptions) (hnil : f .nil = o)
    (hfield : ∀ v, unmarshalLaunchField o (bytes name, v) = (unmarshalStringSlice .nil v).map f)
    (l : List GoString) :
    ∃ s, readFields o (stringsField name l) = some (f s) ∧ s.elements = l.map toValidUTF8 := by
  rw [stringsField]
  split
  · rename_i h
    refine ⟨.nil, ?_, ?_⟩
    · rw [hnil]
      rfl
    · rw [h]
      rfl
  · rename_i h
    obtain ⟨s, hs, helements⟩ := exists_slice h
    refine ⟨s, ?_, helements⟩
    rw [readFields_single hname, hfield, hs]
    rfl

theorem read_args (ho : o.args = .nil) (l : List GoString) : ∃ s,
    readFields o (stringsField "args" l) = some { o with args := s } ∧
      s.elements = l.map toValidUTF8 := by
  apply read_strings rfl fun s => { o with args := s }
  · show { o with args := .nil } = o
    rw [← ho]
  · intro v
    rw [field_args, ho]

theorem read_ignoreDefaultArgs (ho : o.ignoreDefaultArgs = .nil) (l : List GoString) : ∃ s,
    readFields o (stringsField "ignoreDefaultArgs" l) = some { o with ignoreDefaultArgs := s } ∧
      s.elements = l.map toValidUTF8 := by
  apply read_strings rfl fun s => { o with ignoreDefaultArgs := s }
  · show { o with ignoreDefaultArgs := .nil } = o
    rw [← ho]
  · intro v
    rw [field_ignoreDefaultArgs, ho]

theorem read_headless (ho : o.headless = none) (b : Option Bool) :
    readFields o (boolField "headless" b) = some { o with headless := b } := by
  cases b with
  | none =>
    rw [boolField, ← ho]
    rfl
  | some b =>
    rw [boolField, readFields_single rfl, field_headless]
    rfl

theorem read_channel (ho : o.channel = []) (s : GoString) :
    readFields o (stringField "channel" s) = some { o with channel := toValidUTF8 s } := by
  rw [stringField]
  split
  · rename_i h
    have hnil : toValidUTF8 s = o.channel := by
      rw [h, ho]
      rfl
    rw [hnil]
    rfl
  · rw [readFields_single rfl, field_channel]
    rfl

theorem read_proxy (ho : o.proxy = none) (p : Option PWProxyOptions) :
    readFields o (proxyField "proxy" p) = some { o with
      proxy := p.map fun p => { server := toValidUTF8 p.server, bypass := toValidUTF8 p.bypass } } := by
  cases p with
  | none =>
    rw [proxyField, Option.map_none, ← ho]
    rfl
  | some p =>
    obtain ⟨server, bypass⟩ := p
    have hproxy : unmarshalPWProxy none (Json.shown (marshalPWProxy ⟨server, bypass⟩)) =
        some (some { server := toValidUTF8 server, bypass := toValidUTF8 bypass }) := by
      rw [marshalPWProxy, stringField, stringField]
      split
      · rename_i hserver
        have hserver : server = [] := hserver
        split
        · rename_i hbypass
          have hbypass : bypass = [] := hbypass
          rw [hserver, hbypass]
          rfl
        · rw [hserver]
          rfl
      · split
        · rename_i hbypass
          have hbypass : bypass = [] := hbypass
          rw [hbypass]
          rfl
        · rfl
    rw [proxyField, readFields_single rfl, field_proxy, ho, hproxy]
    rfl

/-! ## Preferences -/

theorem depth_primitive {v : Json} (h : isPrimitive v = true) : v.depth = 0 := by
  cases v with
  | bool b | number literal | string s => rfl
  | null | array vs | object ms => contradiction

/-- Primitive values are written as they are. -/
theorem marshalValues_eq (h : ∀ e ∈ M.entries, isPrimitive e.2 = true) :
    marshalValues M = .object (Json.sortMembers M.entries) := by
  have hwellFormed : (Json.object M.entries).WellFormed := by
    refine .object _ M.nodup ?_
    intro e he
    have hprimitive := h e he
    cases hv : e.2 with
    | bool b => exact .bool b
    | number literal => exact .number literal
    | string s => exact .string s
    | null | array vs | object ms =>
      rw [hv] at hprimitive
      contradiction
  have hordered : Json.orderedMembers M.entries = M.entries := by
    obtain ⟨l, hl⟩ := M
    clear hwellFormed
    induction l with
    | nil => rfl
    | cons e l ih =>
      obtain ⟨k, v⟩ := e
      rw [List.forall_mem_cons] at h
      have hv : Json.ordered v = v := by
        have hprimitive : isPrimitive v = true := h.1
        cases v with
        | bool b | number literal | string s => rfl
        | null | array vs | object ms => contradiction
      show (k, Json.ordered v) :: Json.orderedMembers l = (k, v) :: l
      rw [hv, ih (List.nodup_cons.mp hl).2 h.2]
  rw [marshalValues, Json.decoded_eq hwellFormed, Json.ordered, hordered]

theorem read_prefs (ho : o.firefoxUserPrefs = none)
    (hm : ∀ e ∈ (m.getD .empty).entries, SendablePref e.2) : ∃ m',
    readFields o (valuesField "firefoxUserPrefs" m) = some { o with firefoxUserPrefs := m' } ∧
      ((∀ e ∈ (m.getD .empty).entries, toValidUTF8 e.1 = e.1) → ∀ k,
        (m'.getD .empty).lookup k = ((m.getD .empty).lookup k).map Json.shown) := by
  rw [valuesField]
  generalize m.getD .empty = M at hm ⊢
  split
  · rename_i h
    refine ⟨none, ?_, ?_⟩
    · rw [← ho]
      rfl
    · intro _ k
      have hnone : M.lookup k = none := by
        rw [GoMap.lookup, h]
        rfl
      rw [hnone]
      rfl
  · have hperm := Json.sortMembers_perm M.entries
    have hnodup : ((Json.sortMembers M.entries).map Prod.fst).Nodup :=
      (hperm.map Prod.fst).nodup_iff.mpr M.nodup
    have hrange : membersInRange (Json.shownMembers (Json.sortMembers M.entries)) = true := by
      apply membersInRange_of
      intro e he
      rw [shownMembers_eq_map] at he
      obtain ⟨x, hx, rfl⟩ := List.mem_map.mp he
      have hpref := hm x (hperm.mem_iff.mp hx)
      have hprimitive := hpref.primitive
      have hinRange := hpref.inRange
      show inRange (Json.shown x.2) = true
      cases hv : x.2 with
      | bool b | number literal | string s =>
        rw [hv] at hinRange
        exact hinRange
      | null | array vs | object ms =>
        rw [hv] at hprimitive
        contradiction
    refine ⟨some ((Json.shownMembers (Json.sortMembers M.entries)).foldl
      (fun m e => m.insert e.1 e.2) .empty), ?_, ?_⟩
    · rw [readFields_single rfl, field_prefs, ho, marshalValues_eq fun e he => (hm e he).primitive,
        Json.shown, unmarshalMap, if_pos hrange]
      rfl
    · intro hkeys k
      have hshown : Json.shownMembers (Json.sortMembers M.entries) =
          (GoMap.map Json.shown ⟨Json.sortMembers M.entries, hnodup⟩).entries := by
        rw [shownMembers_eq_map]
        apply List.map_congr_left
        intro e he
        rw [hkeys e (hperm.mem_iff.mp he)]
      rw [hshown, Option.getD_some, GoMap.lookup_foldl_insert (GoMap.nodup _)]
      show ((GoMap.map Json.shown ⟨Json.sortMembers M.entries, hnodup⟩).lookup k).or none = _
      rw [Option.or_none, GoMap.lookup_map, ← GoMap.lookup_entries, ← GoMap.lookup_entries M,
        Json.lookup_sortMembers M.nodup]

/-! ## The launch options -/

theorem read_launchOptions (hprefs : ∀ e ∈ (o.firefoxUserPrefs.getD .empty).entries, SendablePref e.2)
    (henv : o.env = none) : ∃ o',
    unmarshalLaunchOptions (Json.shown (marshalLaunchOptions o)) = some o' ∧ ReadAs o o' := by
  obtain ⟨args, hargs, hargs'⟩ := read_args (o := .zero) rfl o.args.elements
  have hheadless := read_headless (o := { PWLaunchOptions.zero with args := args }) rfl o.headless
  have hchannel := read_channel
    (o := { PWLaunchOptions.zero with args := args, headless := o.headless }) rfl o.channel
  obtain ⟨prefs, hread, hprefs'⟩ := read_prefs
    (o := { PWLaunchOptions.zero with
      args := args, headless := o.headless, channel := toValidUTF8 o.channel }) rfl hprefs
  have hproxy := read_proxy
    (o := { PWLaunchOptions.zero with
      args := args, headless := o.headless, channel := toValidUTF8 o.channel,
      firefoxUserPrefs := prefs }) rfl o.proxy
  obtain ⟨ignored, hignored, hignored'⟩ := read_ignoreDefaultArgs
    (o := { PWLaunchOptions.zero with
      args := args, headless := o.headless, channel := toValidUTF8 o.channel,
      firefoxUserPrefs := prefs,
      proxy := o.proxy.map fun p =>
        { server := toValidUTF8 p.server, bypass := toValidUTF8 p.bypass } }) rfl
    o.ignoreDefaultArgs.elements
  have hnone : stringMapField "env" o.env = [] := by
    rw [henv]
    rfl
  refine ⟨{ args := args, headless := o.headless, channel := toValidUTF8 o.channel,
            firefoxUserPrefs := prefs,
            proxy := o.proxy.map fun p =>
              { server := toValidUTF8 p.server, bypass := toValidUTF8 p.bypass },
            ignoreDefaultArgs := ignored, env := none },
    ?_, ⟨hargs', rfl, rfl, hprefs', rfl, hignored', rfl⟩⟩
  rw [marshalLaunchOptions, Json.shown]
  show readFields .zero _ = _
  rw [readFields_append hargs, readFields_append hheadless, readFields_append hchannel,
    readFields_append hread, readFields_append hproxy, readFields_append hignored, hnone]
  rfl

/-- Members without a value that nests further. -/
def Shallow (ms : List (GoString × Json)) : Prop := ∀ e ∈ ms, Json.Numeric e.2 ∧ e.2.depth ≤ 1

theorem Shallow.append (h : Shallow ms) (h' : Shallow ms') : Shallow (ms ++ ms') := by
  intro e he
  rcases List.mem_append.mp he with he | he
  · exact h e he
  · exact h' e he

theorem shallow_nil : Shallow [] := fun _ he => absurd he List.not_mem_nil

theorem shallow_single {k : GoString} {v : Json} (hnumeric : Json.Numeric v) (hdepth : v.depth ≤ 1) :
    Shallow [(k, v)] := by
  intro e he
  rw [List.mem_singleton.mp he]
  exact ⟨hnumeric, hdepth⟩

theorem depthMembers_le (h : ∀ e ∈ ms, e.2.depth ≤ n) : Json.depthMembers ms ≤ n := by
  induction ms with
  | nil => exact Nat.zero_le n
  | cons e ms ih =>
    obtain ⟨k, v⟩ := e
    rw [List.forall_mem_cons] at h
    exact Nat.max_le.mpr ⟨h.1, ih h.2⟩

theorem shallow_strings (name : String) (l : List GoString) : Shallow (stringsField name l) := by
  rw [stringsField]
  split
  · exact shallow_nil
  · apply shallow_single
    · apply Json.Numeric.array
      intro v hv
      obtain ⟨s, _, rfl⟩ := List.mem_map.mp hv
      exact .string s
    · have hzero : Json.depthElements (l.map .string) = 0 := by
        clear * -
        induction l with
        | nil => rfl
        | cons s l ih =>
          rw [List.map_cons, Json.depthElements, ih]
          rfl
      rw [Json.depth, hzero]

theorem shallow_string (name : String) (s : GoString) : Shallow (stringField name s) := by
  rw [stringField]
  split
  · exact shallow_nil
  · exact shallow_single (.string s) (Nat.zero_le 1)

theorem shallow_bool (name : String) (b : Option Bool) : Shallow (boolField name b) := by
  cases b with
  | none => exact shallow_nil
  | some b => exact shallow_single (.bool b) (Nat.zero_le 1)

theorem shallow_proxy (name : String) (p : Option PWProxyOptions) : Shallow (proxyField name p) := by
  cases p with
  | none => exact shallow_nil
  | some p =>
    have hstring : ∀ (name : String) (s : GoString), ∀ e ∈ stringField name s,
        Json.Numeric e.2 ∧ e.2.depth ≤ 0 := by
      intro name s e he
      rw [stringField] at he
      split at he
      · exact absurd he List.not_mem_nil
      · rw [List.mem_singleton.mp he]
        exact ⟨.string s, Nat.le_refl 0⟩
    have hall : ∀ e ∈ stringField "server" p.server ++ stringField "bypass" p.bypass,
        Json.Numeric e.2 ∧ e.2.depth ≤ 0 := by
      intro e he
      rcases List.mem_append.mp he with he | he
      · exact hstring _ _ e he
      · exact hstring _ _ e he
    apply shallow_single
    · exact .object _ fun e he => (hall e he).1
    · exact Nat.succ_le_succ (depthMembers_le fun e he => (hall e he).2)

theorem shallow_values (hm : ∀ e ∈ (m.getD .empty).entries, SendablePref e.2) (name : String) :
    Shallow (valuesField name m) := by
  rw [valuesField]
  split
  · exact shallow_nil
  · have hmem : ∀ e ∈ Json.sortMembers (m.getD .empty).entries, SendablePref e.2 := by
      intro e he
      exact hm e ((Json.sortMembers_perm _).mem_iff.mp he)
    rw [marshalValues_eq fun e he => (hm e he).primitive]
    apply shallow_single
    · exact .object _ fun e he => (hmem e he).numeric
    · apply Nat.succ_le_succ
      apply depthMembers_le
      intro e he
      rw [depth_primitive (hmem e he).primitive]

theorem parse_launchOptions (hprefs : ∀ e ∈ (o.firefoxUserPrefs.getD .empty).entries, SendablePref e.2)
    (henv : o.env = none) : Json.parse (Json.render (marshalLaunchOptions o)) =
      some (Json.shown (marshalLaunchOptions o)) := by
  have hnone : Shallow (stringMapField "env" o.env) := by
    rw [henv]
    exact shallow_nil
  have hall := (shallow_strings "args" o.args.elements).append ((shallow_bool "headless" o.headless).append
    ((shallow_string "channel" o.channel).append ((shallow_values hprefs "firefoxUserPrefs").append
      ((shallow_proxy "proxy" o.proxy).append
        ((shallow_strings "ignoreDefaultArgs" o.ignoreDefaultArgs.elements).append hnone)))))
  have hmax : Json.maxNestingDepth = 10000 := rfl
  apply Json.parse_render
  · exact .object _ fun e he => (hall e he).1
  · rw [marshalLaunchOptions, Json.depth]
    have hdepth := depthMembers_le fun e he => (hall e he).2
    omega

end

/-! ## The query -/

section

variable {o : PWOptions} {q : Query.Values} {k : GoString}

theorem lookup_setArgs (h : k ≠ bytes "arg") (args : List GoString) :
    (setArgs args q).lookup k = q.lookup k := by
  rw [setArgs]
  split
  · rfl
  · rw [GoMap.lookup_insert, if_neg h]

theorem lookup_setHeadless (h : k ≠ bytes "headless") (b : Option Bool) :
    (setHeadless b q).lookup k = q.lookup k := by
  cases b with
  | none => rfl
  | some b => rw [setHeadless, GoMap.lookup_insert, if_neg h]

theorem lookup_setContextOptions (h : k ≠ bytes "context-options") (m : Option Values) :
    (setContextOptions m q).lookup k = q.lookup k := by
  rw [setContextOptions]
  split
  · rfl
  · rw [GoMap.lookup_insert, if_neg h]

theorem director_args : ((directorValues o).lookup (bytes "arg")).getD [] = o.launchOpts.args.elements := by
  rw [directorValues, lookup_setContextOptions (by decide), GoMap.lookup_insert, if_neg (by decide),
    lookup_setHeadless (by decide), setArgs]
  split
  · rename_i h
    rw [h]
    rfl
  · rw [GoMap.lookup_insert, if_pos rfl, Option.getD_some]

theorem director_headless : ((directorValues o).lookup (bytes "headless")).getD [] =
    (o.launchOpts.headless.map Capabilities.formatBool).toList := by
  rw [directorValues, lookup_setContextOptions (by decide), GoMap.lookup_insert, if_neg (by decide)]
  cases o.launchOpts.headless with
  | none =>
    rw [setHeadless, lookup_setArgs (by decide)]
    rfl
  | some b =>
    rw [setHeadless, GoMap.lookup_insert, if_pos rfl]
    rfl

theorem director_launchOptions : ((directorValues o).lookup (bytes "launch-options")).getD [] =
    [Json.render (marshalLaunchOptions o.launchOpts)] := by
  rw [directorValues, lookup_setContextOptions (by decide), GoMap.lookup_insert, if_pos rfl,
    Option.getD_some]

theorem director_contextOptions : ((directorValues o).lookup (bytes "context-options")).getD [] =
    if (o.contextOpts.getD .empty).entries = [] then []
    else [Json.render (marshalValues (o.contextOpts.getD .empty))] := by
  rw [directorValues, setContextOptions]
  split
  · rw [GoMap.lookup_insert, if_neg (by decide), lookup_setHeadless (by decide),
      lookup_setArgs (by decide)]
    rfl
  · rw [GoMap.lookup_insert, if_pos rfl, Option.getD_some]

theorem director_other (harg : k ≠ bytes "arg") (hheadless : k ≠ bytes "headless")
    (hlaunch : k ≠ bytes "launch-options") (hcontext : k ≠ bytes "context-options") :
    (directorValues o).lookup k = none := by
  rw [directorValues, lookup_setContextOptions hcontext, GoMap.lookup_insert, if_neg hlaunch,
    lookup_setHeadless hheadless, lookup_setArgs harg]
  rfl

theorem Sendable.forwarded (h : Sendable o) : Forwarded o (Query.readPairs (director o)) := by
  constructor
  · intro e he
    obtain ⟨vs, hvs, _⟩ := Query.key_of_mem he
    by_contra hnot
    simp only [List.map_cons, List.map_nil, List.mem_cons, List.not_mem_nil, or_false, not_or] at hnot
    rw [director_other hnot.1 hnot.2.1 hnot.2.2.1 hnot.2.2.2] at hvs
    contradiction
  · exact (Query.valuesOf_encode _ _).trans director_args
  · exact (Query.valuesOf_encode _ _).trans director_headless
  · obtain ⟨o', hread, ho'⟩ := read_launchOptions h.prefs h.env
    exact ⟨_, _, o', (Query.valuesOf_encode _ _).trans director_launchOptions,
      parse_launchOptions h.prefs h.env, hread, ho'⟩
  · intro hempty
    have hvalues := (Query.valuesOf_encode _ _).trans (director_contextOptions (o := o))
    rw [if_pos hempty] at hvalues
    exact hvalues
  · intro hne
    have hvalues := (Query.valuesOf_encode _ _).trans (director_contextOptions (o := o))
    rw [if_neg hne] at hvalues
    have haccepted : Json.Accepted Json.maxNestingDepth (marshalValues (o.contextOpts.getD .empty)) :=
      Json.ordered_rebuilds.accepted (Json.decoded_rebuilds.accepted (Json.Accepted.object h.context))
    have hparse := Json.parse_render haccepted.numeric haccepted.depth
    rw [haccepted.valid] at hparse
    exact ⟨_, _, hvalues, hparse, Json.sameTree_ordered (Json.decoded_wellFormed _)⟩

end

/-- Whatever query a client sends, if it is accepted, the server is told the options of it. -/
theorem forwarded_of_accepted (proxyOpts : Option PWProxyOptions) (rangeEnv : RangeOrder GoString)
    (rangePrefs : RangeOrder Json) (name version rawQuery : GoString) (o : PWOptions)
    (h : parsePWOptions (pwController proxyOpts rangeEnv rangePrefs) (pwRequest name version rawQuery) =
      .ok o) : Forwarded o (Query.readPairs (director o)) :=
  (sendable_of_parse h).forwarded

/-! ## A query -/

def optionsQuery : GoString :=
  bytes "arg=-a&launch-options=%7B%22channel%22:%22beta%22%7D&context-options=%7B%22locale%22:%22de%22%7D"

theorem forwarded_optionsQuery : ∃ o,
    parsePWOptions (pwController none (inOrder _) (inOrder _))
      (pwRequest (bytes "chrome") (bytes "120.0") optionsQuery) = .ok o ∧
    Forwarded o (Query.readPairs (director o)) := by
  have haccepted : (parsePWOptions (pwController none (inOrder _) (inOrder _))
      (pwRequest (bytes "chrome") (bytes "120.0") optionsQuery)).isOk = true := by
    decide +kernel
  cases h : parsePWOptions (pwController none (inOrder _) (inOrder _))
      (pwRequest (bytes "chrome") (bytes "120.0") optionsQuery) with
  | error err =>
    rw [h] at haccepted
    contradiction
  | ok o => exact ⟨o, rfl, forwarded_of_accepted _ _ _ _ _ _ o h⟩

end Selebrow.Controllers
