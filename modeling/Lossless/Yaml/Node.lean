/-!
# YAML nodes

What a YAML text says, before anyone asks for a type: scalars, lists and maps.  A
scalar keeps whether it was written plainly, without quotes, because only a plain
scalar can be empty, null or a truth value.
-/

namespace Lossless.Yaml

/-- A YAML value. -/
inductive Node where
  | scalar (plain : Bool) (text : String)
  | list (items : List Node)
  | map (members : List (Node × Node))
deriving Repr

/-- The value of a place at which nothing is written. -/
def Node.nothing : Node := .scalar true ""

end Lossless.Yaml
