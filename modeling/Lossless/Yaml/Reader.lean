import Lossless.Yaml.Node
import Lossless.Yaml.Scan

/-!
# Reading YAML

A reader for the part of YAML that configurations are written in: block maps and lists,
flow maps and lists, plain and quoted scalars, and comments.  The tokens of a text tell
how its collections nest, so the readers of values go by tokens alone.

A key or a value need not be written at all; it is then `Node.nothing`.  Which tokens
show that it is missing depends on the collection it belongs to.

Every reader takes a value off the front of the tokens and hands back the tokens behind
it.  It is given a number of rounds; of two rounds in a row at least one takes a token,
so twice the number of tokens is enough.
-/

namespace Lossless.Yaml

/-- A way to take a value off the front of the tokens. -/
abbrev Reader (α : Type) := List Token → Option (α × List Token)

/-- Where a value stands. -/
inductive Setting where
  /-- Inside a flow collection, where there are no block collections. -/
  | flow
  /-- A document, or behind the dash of an entry of a block list. -/
  | item
  /-- A key or a value of a block map.  The entries of a list may then stand in the column
  of the map, and no token marks where such a list begins and ends. -/
  | member
deriving DecidableEq, Repr

/-- Whether the next token is one of the given ones. -/
def nextIs (stops ts : List Token) : Bool :=
  ts.head?.any stops.contains

/-- A value, or nothing if one of the given tokens comes next. -/
def unlessAt? (stops : List Token) (read? : Reader Node) : Reader Node := fun ts =>
  if nextIs stops ts then some (.nothing, ts) else read? ts

/-- The value behind a colon, or nothing if there is no colon, or if one of the given
tokens comes behind it. -/
def afterColon? (stops : List Token) (read? : Reader Node) : Reader Node
  | .colon :: rest => unlessAt? stops read? rest
  | ts => some (.nothing, ts)

/-- The key behind a question mark in a flow list.  If there is none, the token that
shows it is passed over. -/
def pairKey? (read? : Reader Node) : Reader Node := fun ts =>
  if nextIs [.colon, .comma, .listClose] ts then some (.nothing, ts.drop 1) else read? ts

/-- The tokens from the next part of a flow collection on, or from the bracket `close`
that ends it.  A comma stands in front of every part but the first, and may stand in
front of the bracket too. -/
def nextPart? (close : Token) (first : Bool) (ts : List Token) : Option (List Token) :=
  if first || nextIs [close] ts then some ts
  else if nextIs [.comma] ts then some (ts.drop 1)
  else none

mutual

/-- A value. -/
def node? : Nat → Setting → Reader Node
  | 0, _, _ => none
  | rounds + 1, setting, ts =>
    match ts with
    | .scalar plain text :: rest => some (.scalar plain text, rest)
    | .listOpen :: rest => do
      let (items, rest) ← flowItems? rounds true rest
      some (.list items, rest)
    | .mapOpen :: rest => do
      let (members, rest) ← flowMembers? rounds true rest
      some (.map members, rest)
    | .blockList :: rest =>
      if setting == .flow then
        none
      else do
        let (items, rest) ← blockItems? rounds rest
        some (.list items, rest)
    | .blockMap :: rest =>
      if setting == .flow then
        none
      else do
        let (members, rest) ← blockMembers? rounds rest
        some (.map members, rest)
    | .entry :: _ =>
      if setting == .member then do
        let (items, rest) ← columnItems? rounds ts
        some (.list items, rest)
      else
        none
    | _ => none

/-- The rest of a flow list.  A key in it starts a map of one member. -/
def flowItems? : Nat → Bool → Reader (List Node)
  | 0, _, _ => none
  | rounds + 1, first, ts => do
    match ← nextPart? .listClose first ts with
    | .listClose :: rest => some ([], rest)
    | .key :: rest =>
      let (key, rest) ← pairKey? (node? rounds .flow) rest
      let (value, rest) ← afterColon? [.comma, .listClose] (node? rounds .flow) rest
      let (items, rest) ← flowItems? rounds false rest
      some (.map [(key, value)] :: items, rest)
    | part =>
      let (item, rest) ← node? rounds .flow part
      let (items, rest) ← flowItems? rounds false rest
      some (item :: items, rest)

/-- The rest of a flow map.  What is not announced as a key is a key without a value. -/
def flowMembers? : Nat → Bool → Reader (List (Node × Node))
  | 0, _, _ => none
  | rounds + 1, first, ts => do
    match ← nextPart? .mapClose first ts with
    | .mapClose :: rest => some ([], rest)
    | .key :: rest =>
      let (key, rest) ← unlessAt? [.colon, .comma, .mapClose] (node? rounds .flow) rest
      let (value, rest) ← afterColon? [.comma, .mapClose] (node? rounds .flow) rest
      let (members, rest) ← flowMembers? rounds false rest
      some ((key, value) :: members, rest)
    | part =>
      let (key, rest) ← node? rounds .flow part
      let (members, rest) ← flowMembers? rounds false rest
      some ((key, .nothing) :: members, rest)

/-- The rest of a block list. -/
def blockItems? : Nat → Reader (List Node)
  | 0, _ => none
  | rounds + 1, ts =>
    match ts with
    | .blockEnd :: rest => some ([], rest)
    | .entry :: rest => do
      let (item, rest) ← unlessAt? [.entry, .blockEnd] (node? rounds .item) rest
      let (items, rest) ← blockItems? rounds rest
      some (item :: items, rest)
    | _ => none

/-- The rest of a list whose entries stand in the column of the map around it.  It ends
in front of the first token that is no entry. -/
def columnItems? : Nat → Reader (List Node)
  | 0, _ => none
  | rounds + 1, ts =>
    match ts with
    | .entry :: rest => do
      let (item, rest) ← unlessAt? [.entry, .key, .colon, .blockEnd] (node? rounds .item) rest
      let (items, rest) ← columnItems? rounds rest
      some (item :: items, rest)
    | _ => some ([], ts)

/-- The rest of a block map. -/
def blockMembers? : Nat → Reader (List (Node × Node))
  | 0, _ => none
  | rounds + 1, ts =>
    match ts with
    | .blockEnd :: rest => some ([], rest)
    | .key :: rest => do
      let (key, rest) ← unlessAt? [.key, .colon, .blockEnd] (node? rounds .member) rest
      let (value, rest) ← afterColon? [.key, .colon, .blockEnd] (node? rounds .member) rest
      let (members, rest) ← blockMembers? rounds rest
      some ((key, value) :: members, rest)
    | _ => none

end

/-- The value of a document at the beginning of a text.  A mark may stand in front of it,
and without a mark there is nothing only if the whole text says nothing. -/
def document? : Reader Node := fun ts =>
  let read? : Reader Node := node? (2 * ts.length + 2) .item
  match ts with
  | [] => some (.nothing, [])
  | [.documentStart] => some (.nothing, [])
  | .documentStart :: rest => unlessAt? [.documentStart, .documentEnd] read? rest
  | _ => read? ts

/-- The value of a text that holds one document.  Behind it only marks that end a
document may follow. -/
def read? (text : String) : Option Node := do
  let (node, rest) ← document? (← tokens? text.toList)
  if rest.all (· == .documentEnd) then some node else none

end Lossless.Yaml
