import Lossless.Build.Layout
import Lossless.Event
import Lossless.Registry

/-!
# Building trees

`build` makes a syntax tree of tokens, markers and errors.  It never fails, and what it
gives depends on nothing else: markers without a place are reported as anomalies, and
elements that their constructor refuses become error nodes over the same parts.

The parts of a node are the nodes right inside of it, the tokens that none of these
covers, and the errors that belong to it, in the order of the token indices.  At one
index errors come first, then nodes that cover nothing, then the rest.  **An error
belongs to the innermost node that covers its token**, and to the root if there is
none; an error reported twice with the same message is shown once.
-/

namespace Lossless

/-- Which trivia become leaves of a tree. -/
structure BuildOptions where
  whitespace : Bool := true
  comments : Bool := true
deriving DecidableEq, Repr

/-- Whether a token becomes a leaf.  The end of input never does. -/
def BuildOptions.keeps (o : BuildOptions) (t : Token) : Bool :=
  match t.kind with
  | .eof => false
  | .whitespace => o.whitespace
  | .comment => o.comments
  | _ => true

/-- A tree and what was noticed when it was built. -/
structure BuildOutput (κ : Type) where
  root : Tree κ
  /-- Whether no error was reported and the tree has no error node. -/
  valid : Bool
  anomalies : List Anomaly
  /-- The elements that were refused and then the anomalies. -/
  events : List (Event κ)

/-- The errors without those that repeat the token index and the message of an earlier
one, of which `seen` have been met. -/
def distinctErrors (seen : List (Nat × String)) : List ParseError → List ParseError
  | [] => []
  | e :: es =>
    if seen.contains (e.index, e.message) then
      distinctErrors seen es
    else
      e :: distinctErrors ((e.index, e.message) :: seen) es

/-- A part of a node on its way to its place. -/
structure Item (κ : Type) where
  index : Nat
  /-- The place among parts with the same index. -/
  rank : Nat
  tree : Tree κ

/-- Whether a part comes no later than another. -/
def Item.le {κ : Type} (a b : Item κ) : Bool :=
  a.index < b.index || (a.index == b.index && a.rank ≤ b.rank)

/-- The span of the tokens from `start` up to `stop`.  No tokens have an empty span
where the first of them would start. -/
def tokenSpan (tokens : Array Token) (start stop : Nat) : Span :=
  if start < stop && stop ≤ tokens.size then
    ⟨(tokens.getD start (Token.eof 0)).span.start, (tokens.getD (stop - 1) (Token.eof 0)).span.stop⟩
  else
    .empty (((tokens[start]? <|> tokens.back?).map (·.span.start)).getD 0)

/-- What stays the same while a tree is built. -/
structure BuildContext (κ : Type) where
  tokens : Array Token
  options : BuildOptions
  registry : Registry κ

/-- A tree with the messages of the elements in it that were refused, by marker, from
the inside out. -/
structure Assembled (κ : Type) where
  tree : Tree κ
  refusals : List (Nat × String)

namespace BuildContext

variable {κ : Type} [DecidableEq κ] [Named κ]

/-- The leaves for the tokens from `start` up to `stop`. -/
def leaves (b : BuildContext κ) (start stop : Nat) : List (Item κ) :=
  (List.range' start (stop - start)).filterMap fun i =>
    match b.tokens[i]? with
    | some t => if b.options.keeps t then some ⟨i, 2, .leaf t⟩ else none
    | none => none

/-- The leaf for a reported error. -/
def errorLeaf (e : ParseError) : Item κ :=
  ⟨e.index, 0, .node (.error e.message (some e.index)) e.span []⟩

/-- The parts of a node in order, from the errors that belong to it and all else. -/
def ordered (errors : List ParseError) (items : List (Item κ)) : List (Tree κ) :=
  ((errors.map errorLeaf ++ items).mergeSort Item.le).map Item.tree

/-- The node of a marker, made of its parts and the refusals among them. -/
def close (b : BuildContext κ) (m : Marker κ) (parts : List (Tree κ))
    (refusals : List (Nat × String)) : Assembled κ :=
  let span := tokenSpan b.tokens m.start m.stop
  match b.registry.construct m parts span with
  | .ok tree => ⟨tree, refusals⟩
  | .error message => ⟨.node (.error message none) span parts, refusals ++ [(m.id, message)]⟩

/-- The errors that belong to a node itself and to no plot inside of it. -/
def ownErrors (inner : List (Plot κ)) (errors : List ParseError) : List ParseError :=
  errors.filter fun e => !inner.any fun p => p.marker.covers e.index

mutual

/-- The tree of a plot, given the errors that belong to it or below. -/
def assemble (b : BuildContext κ) (errors : List ParseError) : Plot κ → Assembled κ
  | .mk m inner =>
    let (items, refusals) := assembleParts b errors m.start m.stop inner
    b.close m (ordered (ownErrors inner errors) items) refusals

/-- The tokens from `cursor` up to `stop` and the plots among them, as parts in order,
and the refusals in them. -/
def assembleParts (b : BuildContext κ) (errors : List ParseError) (cursor stop : Nat) :
    List (Plot κ) → List (Item κ) × List (Nat × String)
  | [] => (b.leaves cursor stop, [])
  | p :: ps =>
    let m := p.marker
    let below := errors.filter fun e => m.covers e.index
    let built := assemble b below p
    let item : Item κ := ⟨m.start, if m.isEmpty then 1 else 2, built.tree⟩
    let (items, refusals) := assembleParts b errors (max cursor m.stop) stop ps
    (b.leaves cursor m.start ++ item :: items, built.refusals ++ refusals)

end

end BuildContext

/-- The tree of some tokens with the given markers and errors. -/
def build {κ : Type} [DecidableEq κ] [Named κ] (registry : Registry κ) (options : BuildOptions)
    (tokens : List Token) (markers : List (Marker κ)) (errors : List ParseError) :
    BuildOutput κ :=
  let context : BuildContext κ := ⟨tokens.toArray, options, registry⟩
  let count := tokens.length
  let (roots, anomalies) := plots count markers
  let distinct := distinctErrors [] errors
  let (items, refusals) := context.assembleParts distinct 0 count roots
  let root := Tree.node .root (tokenSpan context.tokens 0 count)
    (BuildContext.ordered (BuildContext.ownErrors roots distinct) items)
  { root
    valid := errors.isEmpty && !root.hasError
    anomalies
    events := refusals.map (fun r => .rejected r.1 r.2) ++ anomalies.map .anomaly }

end Lossless
