import Selebrow.Capabilities.Wrapper
import Selebrow.Json.Double
import Selebrow.Text.Utf8

/-!
# The reported capabilities

`NewCapabilities` with all that it returns: the decoded `models.Capabilities`, the proxy
in them the client's or the default one, and the raw capabilities.  The body is a text
here, whose members may be named more than once, and the default proxy is one that
`NewHTTPProxy` makes from any two strings.
-/

namespace Selebrow.Models

/-! ## The text of a body -/

def mapValues (f : Json → Json) : Json → Json
  | .object members => .object (members.map fun e => (e.1, f e.2))
  | v => v

def mapArray (f : Json → Json) : Json → Json
  | .array elements => .array (elements.map f)
  | v => v

/-- A struct of two fields. -/
def mapFields (name₁ name₂ : GoString) (f₁ f₂ : Json → Json) : Json → Json
  | .object members => .object (members.map fun e =>
      (e.1, if foldName e.1 = foldName name₁ then f₁ e.2
        else if foldName e.1 = foldName name₂ then f₂ e.2 else e.2))
  | v => v

/-- Each value of a map is decoded into an `interface{}`. -/
def decodedMap : Json → Json := mapValues Json.decoded

def decodedW3C : Json → Json := mapFields alwaysMatch firstMatch decodedMap (mapArray decodedMap)

def decodedBody : Json → Json := mapFields desiredCapabilities capabilities decodedMap decodedW3C

/-- A value that is overwritten by a later one is checked like the others. -/
def unmarshalText (text : Json) : Option CapsWrapper :=
  if (unmarshal text).isSome then unmarshal (decodedBody text) else none

/-! ## The default proxy -/

def noProxyHosts (noProxyStr : GoString) : List GoString :=
  (noProxyStr.splitOn 44).map Text.trimSpace

def newHTTPProxy (proxyHost noProxyStr : GoString) : ProxyOptions where
  proxyType := proxyTypeManual
  httpProxy := proxyHost
  sslProxy := proxyHost
  noProxy := some (noProxyHosts noProxyStr)

/-! ## `models.Capabilities` -/

/-- `NoProxy` after the decoding: nothing, the list of a default proxy, or the value that
the client has sent. -/
inductive NoProxy
  | missing
  | strings (hosts : List GoString)
  | value (v : Json)

structure DecodedProxy where
  proxyType : GoString
  httpProxy : GoString
  sslProxy : GoString
  noProxy : NoProxy

def ProxyOptions.reported (p : ProxyOptions) : DecodedProxy where
  proxyType := p.proxyType
  httpProxy := p.httpProxy
  sslProxy := p.sslProxy
  noProxy :=
    match p.noProxy with
    | none => .missing
    | some hosts => .strings hosts

/-- The timeout is in nanoseconds. -/
structure SelenoidOptions where
  testName : GoString
  sessionTimeout : Int
  screenResolution : GoString
  enableVNC : Bool
  env : List GoString
  flavor : GoString
  links : List GoString
  hosts : List GoString
  networks : List GoString
  labels : GoMap GoString GoString

structure Capabilities where
  name : GoString
  deviceName : GoString
  version : GoString
  platform : GoString
  proxy : Option DecodedProxy
  selenoidOptions : Option SelenoidOptions
  rawCapabilities : Json

namespace Capabilities

variable (caps : Capabilities)

def withProxy (proxy : DecodedProxy) : Capabilities := { caps with proxy := some proxy }

def withRaw (raw : Json) : Capabilities := { caps with rawCapabilities := raw }

def getRawCapabilities : Json := caps.rawCapabilities

def getName : GoString := if caps.deviceName ≠ [] then caps.deviceName else caps.name

def getVersion : GoString := caps.version

def getPlatform : GoString := caps.platform

/-- A field of the options, and what is reported when there are none. -/
def option {α : Type} (field : SelenoidOptions → α) (default : α) : α :=
  (caps.selenoidOptions.map field).getD default

def getResolution : GoString := caps.option SelenoidOptions.screenResolution []

def isVNCEnabled : Bool := caps.option SelenoidOptions.enableVNC false

def getTestName : GoString := caps.option SelenoidOptions.testName []

def getEnvs : List GoString := caps.option SelenoidOptions.env []

def getTimeout : Int := caps.option SelenoidOptions.sessionTimeout 0

def getFlavor : GoString := caps.option SelenoidOptions.flavor []

def getLinks : List GoString := caps.option SelenoidOptions.links []

def getHosts : List GoString := caps.option SelenoidOptions.hosts []

def getNetworks : List GoString := caps.option SelenoidOptions.networks []

def getLabels : GoMap GoString GoString := caps.option SelenoidOptions.labels .empty

end Capabilities

/-! ## `NewCapabilities` -/

def Capabilities.finish (c : Capabilities) (raw : Json) (defaultProxy : Option ProxyOptions)
    (encode : ProxyOptions → Json) : Except CapabilitiesError Capabilities :=
  let c :=
    match defaultProxy with
    | some p =>
      if c.proxy.map DecodedProxy.proxyType = some proxyTypeManual then c.withRaw raw
      else (c.withProxy p.reported).withRaw (Json.mapNumbers Json.reencode (encode p))
    | none => c.withRaw raw
  if isResolution c.getResolution then .ok c else .error .resolution

/-- `decode` is `decodeCapabilities`, which leaves the raw capabilities as they are. -/
def Capabilities.newCapabilities (decode : Dialect → Values → Except GoString Capabilities)
    (order : MapOrder) (text : Json) (defaultProxy : Option ProxyOptions) :
    Except CapabilitiesError Capabilities :=
  match unmarshalText text with
  | none => .error .parse
  | some { desiredCapabilities := none, capabilities := none } => .error .noCapabilities
  | some { desiredCapabilities := some desired, capabilities := none } =>
    match decode .jsonWire desired with
    | .error err => .error (.decodeJsonWire err)
    | .ok c =>
      finish c text defaultProxy fun p => marshalJsonWire desired (encodedProxy .jsonWire p)
  | some { desiredCapabilities := desired, capabilities := some w } =>
    match decode .w3c (w.merged order) with
    | .error err => .error (.decodeW3C err)
    | .ok c =>
      finish c text defaultProxy fun p =>
        marshalW3C desired w (w.merge order) (encodedProxy .w3c p)

/-! ## The same capabilities -/

def stringValue : Json → Option GoString
  | .string s => some s
  | _ => none

/-- The hosts, which one dialect has in a string and the other in an array. -/
def NoProxy.hosts : NoProxy → List GoString
  | .missing => []
  | .strings hosts => hosts
  | .value (.string s) => s.splitOn 44
  | .value (.array elements) => elements.filterMap stringValue
  | .value _ => []

structure SameProxy (a b : DecodedProxy) : Prop where
  proxyType : a.proxyType = b.proxyType
  httpProxy : a.httpProxy = b.httpProxy
  sslProxy : a.sslProxy = b.sslProxy
  noProxy : a.noProxy.hosts = b.noProxy.hosts

structure SameOptions (a b : SelenoidOptions) : Prop where
  testName : a.testName = b.testName
  sessionTimeout : a.sessionTimeout = b.sessionTimeout
  screenResolution : a.screenResolution = b.screenResolution
  enableVNC : a.enableVNC = b.enableVNC
  env : a.env = b.env
  flavor : a.flavor = b.flavor
  links : a.links = b.links
  hosts : a.hosts = b.hosts
  networks : a.networks = b.networks
  labels : ∀ k, a.labels.lookup k = b.labels.lookup k

/-- The same in every field but the raw capabilities. -/
structure Capabilities.Same (a b : Capabilities) : Prop where
  name : a.name = b.name
  deviceName : a.deviceName = b.deviceName
  version : a.version = b.version
  platform : a.platform = b.platform
  proxy : Option.Rel SameProxy a.proxy b.proxy
  selenoidOptions : Option.Rel SameOptions a.selenoidOptions b.selenoidOptions

/-- The same raw capabilities, and the same reports. -/
structure Capabilities.SameReport (a b : Capabilities) : Prop where
  raw : a.getRawCapabilities = b.getRawCapabilities
  name : a.getName = b.getName
  version : a.getVersion = b.getVersion
  platform : a.getPlatform = b.getPlatform
  resolution : a.getResolution = b.getResolution
  vnc : a.isVNCEnabled = b.isVNCEnabled
  testName : a.getTestName = b.getTestName
  envs : a.getEnvs = b.getEnvs
  timeout : a.getTimeout = b.getTimeout
  flavor : a.getFlavor = b.getFlavor
  links : a.getLinks = b.getLinks
  hosts : a.getHosts = b.getHosts
  networks : a.getNetworks = b.getNetworks
  labels : ∀ k, a.getLabels.lookup k = b.getLabels.lookup k
  proxy : Option.Rel SameProxy a.proxy b.proxy

/-! ## The decoder -/

mutual

/-- No object in the value has two names that the name of a field could be taken for, as
names that differ in case only. -/
def oneCase : Json → Bool
  | .null | .bool _ | .number _ | .string _ => true
  | .array elements => elementsOneCase elements
  | .object members => decide (members.map fun e => foldName e.1).Nodup && membersOneCase members

def elementsOneCase : List Json → Bool
  | [] => true
  | v :: rest => oneCase v && elementsOneCase rest

def membersOneCase : List (GoString × Json) → Bool
  | [] => true
  | (_, v) :: rest => oneCase v && membersOneCase rest

end

/-- What is relied on of `mapstructure`.  A field is filled from what the map has under its
name, a number being a `float64`, or, if there is nothing, from what it has under a name that
differs in case.  Of several such names any may be taken, so only of a map without them it is
known that its content decides.  In a proxy of the types of its fields nothing else is looked
at than what is under their names. -/
structure Decodes (decode : Dialect → Values → Except GoString Capabilities) : Prop where
  same : ∀ d m m' c, oneCase (.object m.entries) = true →
    (Json.object m.entries).SameDouble (.object m'.entries) →
    decode d m = .ok c → ∃ c', decode d m' = .ok c' ∧ c.Same c'
  proxy : ∀ d m m' c v proxyType httpProxy sslProxy noProxy, oneCase (.object m.entries) = true →
    (∀ k, k ≠ proxy → Option.Rel Json.SameDouble (m.lookup k) (m'.lookup k)) →
    decode d m = .ok c → m'.lookup proxy = some v →
    v.child (.key (bytes "proxyType")) = some (.string proxyType) →
    v.child (.key (bytes "httpProxy")) = some (.string httpProxy) →
    v.child (.key (bytes "sslProxy")) = some (.string sslProxy) →
    v.child (.key (bytes "noProxy")) = some noProxy → noProxy ≠ .null →
    ∃ c', decode d m' = .ok c' ∧
      c'.Same (c.withProxy
        { proxyType := proxyType, httpProxy := httpProxy, sslProxy := sslProxy,
          noProxy := .value noProxy })

end Selebrow.Models
