import Selebrow.Go

/-!
# Decoded JSON

What `encoding/json` decodes into an `interface{}`.  An object is a Go map, a list
of members with one member for a key.
-/

namespace Selebrow

inductive Json
  | null
  | bool (b : Bool)
  | number (literal : GoString)
  | string (s : GoString)
  | array (elements : List Json)
  | object (members : List (GoString × Json))

/-- `v, ok := m[key]` -/
def member (m : List (GoString × Json)) (key : GoString) : Option Json :=
  (m.find? fun e => e.1 == key).map Prod.snd

end Selebrow
