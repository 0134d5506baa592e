/-!
# YAML tokens

The tokens of a text say where its collections begin and end, so that nothing that comes
after them has to look at columns again.  Block collections have no brackets: where one
begins and where one ends there is a token of its own.
-/

namespace Lossless.Yaml

/-- A token of a YAML text. -/
inductive Token where
  /-- The mark in front of a document. -/
  | documentStart
  /-- The mark behind a document. -/
  | documentEnd
  /-- The beginning of a block list. -/
  | blockList
  /-- The beginning of a block map. -/
  | blockMap
  /-- The end of a block collection. -/
  | blockEnd
  /-- The dash of an entry of a block list. -/
  | entry
  /-- What follows is a key. -/
  | key
  /-- The colon in front of a value. -/
  | colon
  | listOpen
  | listClose
  | mapOpen
  | mapClose
  | comma
  /-- A scalar, and whether it was written plainly. -/
  | scalar (plain : Bool) (text : String)
deriving DecidableEq, Repr

end Lossless.Yaml
