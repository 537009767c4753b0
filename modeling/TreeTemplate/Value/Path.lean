import TreeTemplate.Text.Split
import TreeTemplate.Value.Basic

/-!
Nested update of objects along dotted paths.
-/

namespace TreeTemplate

/-- The segments of a dotted path.  The empty path has one empty segment. -/
def pathSegments (path : String) : List String :=
  (Text.splitChars '.' path.toList).map String.ofList

namespace Value

/-- The entries of an object; other values have none. -/
def entries : Value → List (String × Value)
  | .object es => es
  | _ => []

/-- Set the value at the end of a chain of keys.  On the way whatever is not an object is replaced
by an empty one. -/
def assignAt (target : Dict Value) : List String → Value → Dict Value
  | [], _ => target
  | [key], v => Dict.put target key v
  | key :: rest, v =>
    let inner := ((Dict.get? target key).map entries).getD []
    Dict.put target key (.object (assignAt inner rest v))

def assignPath (target : Dict Value) (path : String) (v : Value) : Dict Value :=
  assignAt target (pathSegments path) v

/-- The value reached by following a chain of keys. -/
def follow? : Value → List String → Option Value
  | v, [] => some v
  | .object es, key :: rest => (Dict.get? es key).bind fun v => follow? v rest
  | _, _ :: _ => none

end Value

end TreeTemplate
