import Lossless.Marker
import Lossless.Token

/-!
# Syntax trees

A tree keeps every token it was built from as a leaf, trivia included, so the text of
the source can be read off its leaves.  The inner nodes are the elements of a grammar,
one root, and *error nodes*.  An error node stands where an element was refused, and a
childless one wherever a grammar reported an error; the latter knows the token at
which that happened.  A tree is valid if it has no error node.
-/

namespace Lossless

/-- What a node of a tree is. -/
inductive NodeKind (κ : Type) where
  /-- The node at the top, over all tokens. -/
  | root
  /-- An element of the grammar. -/
  | element (kind : κ)
  /-- An error; the index of a token is that of a reported error. -/
  | error (message : String) (index : Option Nat)
deriving DecidableEq, Repr

/-- A syntax tree: a token, or a node over a span with its parts in order. -/
inductive Tree (κ : Type) where
  | leaf (token : Token)
  | node (kind : NodeKind κ) (span : Span) (children : List (Tree κ))
deriving Repr

/-- A node kind by its name; the message of an error is quoted. -/
def NodeKind.display {κ : Type} [Named κ] : NodeKind κ → String
  | root => "Root"
  | element kind => Named.name kind
  | error message _ => "Error(" ++ Text.quote message ++ ")"

namespace Tree

variable {κ : Type}

/-! ## Equality -/

section Equality

variable [DecidableEq κ]

mutual

/-- Whether two trees are the same in every respect. -/
def same : Tree κ → Tree κ → Bool
  | leaf s, leaf t => s == t
  | node j s as, node k t bs => j == k && s == t && sameAll as bs
  | _, _ => false

/-- Whether two lists of trees are the same in every respect. -/
def sameAll : List (Tree κ) → List (Tree κ) → Bool
  | [], [] => true
  | a :: as, b :: bs => same a b && sameAll as bs
  | _, _ => false

end

mutual

/-- The comparison of trees decides their equality. -/
theorem same_iff : ∀ a b : Tree κ, same a b = true ↔ a = b
  | leaf s, leaf t => by simp [same]
  | leaf _, node _ _ _ => by simp [same]
  | node _ _ _, leaf _ => by simp [same]
  | node j s as, node k t bs => by simp [same, sameAll_iff as bs, and_assoc]

/-- The comparison of lists of trees decides their equality. -/
theorem sameAll_iff : ∀ as bs : List (Tree κ), sameAll as bs = true ↔ as = bs
  | [], [] => by simp [sameAll]
  | [], _ :: _ => by simp [sameAll]
  | _ :: _, [] => by simp [sameAll]
  | a :: as, b :: bs => by simp [sameAll, same_iff a b, sameAll_iff as bs]

end

instance : DecidableEq (Tree κ) := fun a b =>
  decidable_of_iff (same a b = true) (same_iff a b)

end Equality

/-! ## Parts -/

/-- The span of a tree. -/
def span : Tree κ → Span
  | leaf t => t.span
  | node _ s _ => s

/-- The parts of a node in order. -/
def children : Tree κ → List (Tree κ)
  | leaf _ => []
  | node _ _ cs => cs

/-- Whether a tree is a node and not a token. -/
def isNode : Tree κ → Bool
  | leaf _ => false
  | node _ _ _ => true

/-- The token that a tree is, if it is one. -/
def token? : Tree κ → Option Token
  | leaf t => some t
  | node _ _ _ => none

/-- The parts of a node that are nodes themselves. -/
def childNodes (t : Tree κ) : List (Tree κ) :=
  t.children.filter isNode

/-- The tokens among the parts of a node. -/
def childTokens (t : Tree κ) : List Token :=
  t.children.filterMap token?

/-- The grammar's kind of a node that is an element. -/
def elementKind? : Tree κ → Option κ
  | node (.element kind) _ _ => some kind
  | _ => none

/-- The message of an error node. -/
def errorMessage? : Tree κ → Option String
  | node (.error message _) _ _ => some message
  | _ => none

/-- The token index of an error node that stands for a reported error. -/
def errorIndex? : Tree κ → Option Nat
  | node (.error _ index) _ _ => index
  | _ => none

/-- Whether a tree is an error node. -/
def isError (t : Tree κ) : Bool :=
  t.errorMessage?.isSome

/-! ## Everything below -/

mutual

/-- The tokens of a tree, from left to right. -/
def tokens : Tree κ → List Token
  | leaf t => [t]
  | node _ _ cs => tokensOf cs

/-- The tokens of a list of trees, from left to right. -/
def tokensOf : List (Tree κ) → List Token
  | [] => []
  | t :: ts => tokens t ++ tokensOf ts

end

mutual

/-- The nodes of a tree, each in front of those below it. -/
def nodes : Tree κ → List (Tree κ)
  | leaf _ => []
  | node k s cs => node k s cs :: nodesOf cs

/-- The nodes of a list of trees, each in front of those below it. -/
def nodesOf : List (Tree κ) → List (Tree κ)
  | [] => []
  | t :: ts => nodes t ++ nodesOf ts

end

/-- The text of a tree, as far as its tokens hold it. -/
def text (t : Tree κ) : String :=
  Token.sourceText t.tokens

/-- The part of a source text that a tree covers, or nothing if its span does not fit. -/
def sourceText (t : Tree κ) (source : String) : String :=
  String.ofList ((Text.slice? source.toList t.span.start t.span.stop).getD [])

/-- The elements of a kind. -/
def findAll [DecidableEq κ] (t : Tree κ) (kind : κ) : List (Tree κ) :=
  t.nodes.filter fun n => n.elementKind? == some kind

/-- The error nodes of a tree. -/
def errors (t : Tree κ) : List (Tree κ) :=
  t.nodes.filter isError

/-- Whether a tree has an error node. -/
def hasError (t : Tree κ) : Bool :=
  t.nodes.any isError

mutual

/-- The node reached from a tree by going, again and again, to its first part that is a
node and covers an offset. -/
def descend (offset : Nat) : Tree κ → Tree κ
  | leaf t => leaf t
  | node k s cs => (descendAmong offset cs).getD (node k s cs)

/-- The node reached in this way from the first tree of a list that is a node and covers
an offset. -/
def descendAmong (offset : Nat) : List (Tree κ) → Option (Tree κ)
  | [] => none
  | t :: ts =>
    if t.isNode && t.span.contains offset then
      some (descend offset t)
    else
      descendAmong offset ts

end

/-- The deepest node that covers an offset. -/
def nodeAt? (t : Tree κ) (offset : Nat) : Option (Tree κ) :=
  if t.span.contains offset then some (t.descend offset) else none

/-- A node by its kind and span, a token as it is displayed. -/
def display [Named κ] : Tree κ → String
  | leaf t => t.display
  | node k s _ => k.display ++ "@" ++ s.display

end Tree

end Lossless
