import Selebrow.Capabilities.Shared
import Selebrow.Text.Utf8

/-!
# The request for a session

`NewCapabilities` decodes the body of a request into `CapsWrapper`, merges the W3C
capabilities into one map to look at them, and, when the client brings no manual proxy of
its own, puts the default proxy into what it decoded and encodes that again.

A decoded `float64` is written here as the literal it was decoded from, and becomes the
text that `encoding/json` has for it when it is encoded.
-/

namespace Selebrow.Models

/-! ## `json.Unmarshal` -/

/-- Names of members are matched with the names of fields without regard to case; of the
letters beyond ASCII two are the same as an ASCII letter, the long s and the Kelvin sign. -/
def foldName : GoString → GoString
  | [] => []
  | 0xC5 :: 0xBF :: s => 83 :: foldName s
  | 0xE2 :: 0x84 :: 0xAA :: s => 75 :: foldName s
  | b :: s => (if 97 ≤ b ∧ b ≤ 122 then b - 32 else b) :: foldName s

mutual

/-- Every number has a `float64`. -/
def inRange : Json → Bool
  | .number literal => (Json.parseFloat literal).isSome
  | .array elements => elementsInRange elements
  | .object members => membersInRange members
  | .null | .bool _ | .string _ => true

def elementsInRange : List Json → Bool
  | [] => true
  | v :: rest => inRange v && elementsInRange rest

def membersInRange : List (GoString × Json) → Bool
  | [] => true
  | (_, v) :: rest => inRange v && membersInRange rest

end

/-- A `map[string]interface{}` that may have been decoded into before. -/
def unmarshalMap (m : Option Values) : Json → Option (Option Values)
  | .null => some none
  | .object members =>
    if membersInRange members then
      some (some (members.foldl (fun m e => m.insert e.1 e.2) (m.getD .empty)))
    else none
  | _ => none

/-- A slice: what was ever decoded into its array, and how much of that it shows. -/
structure Slice where
  backing : List (Option Values)
  length : Nat

def Slice.elements (s : Slice) : List (Option Values) := s.backing.take s.length

/-- An element is decoded into what is at its place in the array. -/
def unmarshalElements : List (Option Values) → List Json → Option (List (Option Values))
  | old, [] => some old
  | old, v :: rest => do
    let m ← unmarshalMap old.head?.join v
    let ms ← unmarshalElements old.tail rest
    return m :: ms

def unmarshalSlice (s : Option Slice) : Json → Option (Option Slice)
  | .null => some none
  | .array [] => some (some { backing := [], length := 0 })
  | .array elements =>
    (unmarshalElements ((s.map Slice.backing).getD []) elements).map fun backing =>
      some { backing := backing, length := elements.length }
  | _ => none

/-- A struct of two fields; members that belong to neither are skipped. -/
def unmarshalFields {α β : Type} (name₁ name₂ : GoString) (field₁ : α → Json → Option α)
    (field₂ : β → Json → Option β) (s : α × β) (members : List (GoString × Json)) :
    Option (α × β) :=
  members.foldlM (fun s e =>
    if foldName e.1 = foldName name₁ then (field₁ s.1 e.2).map fun a => (a, s.2)
    else if foldName e.1 = foldName name₂ then (field₂ s.2 e.2).map fun b => (s.1, b)
    else some s) s

structure W3CCapabilities where
  alwaysMatch : Option Values
  firstMatch : Option Slice

def alwaysMatch : GoString := bytes "alwaysMatch"
def firstMatch : GoString := bytes "firstMatch"
def desiredCapabilities : GoString := bytes "desiredCapabilities"
def capabilities : GoString := bytes "capabilities"
def proxy : GoString := bytes "proxy"

def unmarshalW3C (c : Option W3CCapabilities) : Json → Option (Option W3CCapabilities)
  | .null => some none
  | .object members =>
    (unmarshalFields alwaysMatch firstMatch unmarshalMap unmarshalSlice
      (c.bind W3CCapabilities.alwaysMatch, c.bind W3CCapabilities.firstMatch) members).map
      fun s => some { alwaysMatch := s.1, firstMatch := s.2 }
  | _ => none

/-- `CapsWrapper`.  The embedded `JsonWireCapabilities` is nil or has a nil map when there
are no desired capabilities. -/
structure CapsWrapper where
  desiredCapabilities : Option Values
  capabilities : Option W3CCapabilities

def unmarshal : Json → Option CapsWrapper
  | .null => some { desiredCapabilities := none, capabilities := none }
  | .object members =>
    (unmarshalFields desiredCapabilities capabilities unmarshalMap unmarshalW3C
      (none, none) members).map fun s => { desiredCapabilities := s.1, capabilities := s.2 }
  | _ => none

/-! ## `Merge` -/

namespace W3CCapabilities

variable (c : W3CCapabilities)

def alternatives : List (Option Values) := (c.firstMatch.map Slice.elements).getD []

def ofValues : Option Values → Json
  | none => .null
  | some m => .object m.entries

/-- `AlwaysMatch` has the number 0, the alternatives count from 1. -/
def doc : Nat → Json
  | 0 => ofValues c.alwaysMatch
  | i + 1 => ofValues (c.alternatives[i]?).join

def docs : List Nat :=
  (if c.alwaysMatch.isSome then [0] else []) ++ (List.range c.alternatives.length).map (· + 1)

def depth : Nat := Json.depthElements (c.docs.map c.doc)

/-- The heap after `Merge`. -/
def merge (order : MapOrder) : Heap := Models.merge c.doc order c.depth c.docs

def merged (order : MapOrder) : Values :=
  (c.merge order .merged).map (marshal c.depth (c.merge order))

end W3CCapabilities

/-! ## The proxy -/

/-- `NoProxy` is an `any` that holds nothing or a `[]string`. -/
structure ProxyOptions where
  proxyType : GoString
  httpProxy : GoString
  sslProxy : GoString
  noProxy : Option (List GoString)

def proxyTypeManual : GoString := bytes "manual"

def stringField (name : String) (s : GoString) : List (GoString × Json) :=
  if s = [] then [] else [(bytes name, .string s)]

def marshalProxy (noProxy : List GoString → Json) (p : ProxyOptions) : Json :=
  .object (stringField "proxyType" p.proxyType ++ stringField "httpProxy" p.httpProxy ++
    stringField "sslProxy" p.sslProxy ++
      match p.noProxy with
      | none => []
      | some hosts => [(bytes "noProxy", noProxy hosts)])

inductive Dialect
  | jsonWire
  | w3c
deriving DecidableEq

/-- JsonWire has the hosts as one string, W3C as an array. -/
def proxyJson : Dialect → ProxyOptions → Json
  | .jsonWire => marshalProxy fun hosts => .string (List.intercalate (bytes ",") hosts)
  | .w3c => marshalProxy fun hosts => .array (hosts.map .string)

/-! ## `json.Marshal` -/

mutual

/-- `json.Marshal` coerces strings to valid UTF-8. -/
def validStrings : Json → Json
  | .null => .null
  | .bool b => .bool b
  | .number literal => .number literal
  | .string s => .string (Text.toValidUTF8 s)
  | .array elements => .array (validElements elements)
  | .object members => .object (validMembers members)

def validElements : List Json → List Json
  | [] => []
  | v :: rest => validStrings v :: validElements rest

def validMembers : List (GoString × Json) → List (GoString × Json)
  | [] => []
  | (k, v) :: rest => (k, validStrings v) :: validMembers rest

end

/-- The proxy in the raw capabilities.  All other strings there have been decoded, and are
valid. -/
def encodedProxy (d : Dialect) (p : ProxyOptions) : Json := validStrings (proxyJson d p)

/-- A map field with `omitempty`. -/
def mapField (name : GoString) : Option Values → List (GoString × Json)
  | none => []
  | some m => if m.entries = [] then [] else [(name, .object m.entries)]

/-- `caps.AlwaysMatch["proxy"] = proxy` -/
def updateProxy (H : Heap) (p : Json) : Heap := H.assign (.source 0 []) proxy (.leaf p)

def marshalAlwaysMatch (c : W3CCapabilities) (H : Heap) (p : Json) : Json :=
  match c.alwaysMatch with
  | none => .object [(proxy, p)]
  | some _ => marshal c.depth H (.map (.source 0 []))

def marshalAlternative (c : W3CCapabilities) (H : Heap) (i : Nat) : Json :=
  match (c.alternatives[i]?).join with
  | none => .null
  | some _ => marshal c.depth H (.map (.source (i + 1) []))

def firstMatchField (c : W3CCapabilities) (H : Heap) : List (GoString × Json) :=
  if c.alternatives = [] then []
  else [(firstMatch, .array ((List.range c.alternatives.length).map (marshalAlternative c H)))]

def marshalW3C (desired : Option Values) (c : W3CCapabilities) (H : Heap) (p : Json) : Json :=
  .object (mapField desiredCapabilities desired ++
    [(capabilities, .object ((alwaysMatch, marshalAlwaysMatch c (updateProxy H p) p) ::
      firstMatchField c (updateProxy H p)))])

def marshalJsonWire (desired : Values) (p : Json) : Json :=
  .object [(desiredCapabilities, .object (desired.insert proxy p).entries)]

/-! ## `NewCapabilities` -/

/-- What `NewCapabilities` looks at in the decoded `models.Capabilities`: the type of the
proxy, if there is one, and the resolution. -/
structure Decoded where
  proxyType : Option GoString
  resolution : GoString

inductive CapabilitiesError
  | parse
  | noCapabilities
  | decodeJsonWire (err : GoString)
  | decodeW3C (err : GoString)
  | resolution
deriving DecidableEq

def isDigits (s : GoString) : Bool := s != [] && s.all fun b => 48 ≤ b && b ≤ 57

/-- `^(|\\d+x\\d+x\\d+)$` -/
def isResolution (s : GoString) : Bool :=
  s = [] ||
    match s.splitOn 120 with
    | [width, height, depth] => isDigits width && isDigits height && isDigits depth
    | _ => false

/-- The raw capabilities, and whether the default proxy was put into them. -/
structure RawCapabilities where
  raw : Json
  injected : Bool

/-- The part that both dialects share: `encode` is the body with the default proxy. -/
def finish (caps : Decoded) (body : Json) (defaultProxy : Option ProxyOptions)
    (encode : ProxyOptions → Json) : Except CapabilitiesError RawCapabilities :=
  let result : RawCapabilities :=
    match defaultProxy with
    | some p =>
      if caps.proxyType = some proxyTypeManual then { raw := body, injected := false }
      else { raw := Json.mapNumbers Json.reencode (encode p), injected := true }
    | none => { raw := body, injected := false }
  if isResolution caps.resolution then .ok result else .error .resolution

/-- `decode` is `decodeCapabilities`, the decoder of `mapstructure` with the tags of the
dialect. -/
def newCapabilities (decode : Dialect → Values → Except GoString Decoded) (order : MapOrder)
    (body : Json) (defaultProxy : Option ProxyOptions) :
    Except CapabilitiesError RawCapabilities :=
  match unmarshal body with
  | none => .error .parse
  | some { desiredCapabilities := none, capabilities := none } => .error .noCapabilities
  | some { desiredCapabilities := some desired, capabilities := none } =>
    match decode .jsonWire desired with
    | .error err => .error (.decodeJsonWire err)
    | .ok caps =>
      finish caps body defaultProxy fun p => marshalJsonWire desired (encodedProxy .jsonWire p)
  | some { desiredCapabilities := desired, capabilities := some c } =>
    match decode .w3c (c.merged order) with
    | .error err => .error (.decodeW3C err)
    | .ok caps =>
      finish caps body defaultProxy fun p =>
        marshalW3C desired c (c.merge order) (encodedProxy .w3c p)

end Selebrow.Models
