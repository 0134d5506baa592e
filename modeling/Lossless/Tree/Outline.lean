import Lossless.Tree

/-!
# Outlines

The outline of a tree has a line for every node and every token, each two blanks
deeper than its parent.  Tokens, or only those that are trivia, can be left out.

The tree is walked along a stack with a row of trees for each open node: the parts of
the node that are still to be shown, those of the innermost node first.  So the depth
of a line is the number of rows below the one that it is taken from.
-/

namespace Lossless

/-- Which tokens an outline shows. -/
structure OutlineOptions where
  tokens : Bool := true
  /-- Whether trivia is shown, when tokens are. -/
  trivia : Bool := true
deriving DecidableEq, Repr

/-- Whether a token has a line in an outline. -/
def OutlineOptions.shows (o : OutlineOptions) (t : Token) : Bool :=
  o.tokens && (o.trivia || !t.isTrivia)

namespace Tree

variable {κ : Type} [Named κ]

/-- The blanks at the beginning of a line. -/
def indentation (depth : Nat) : String :=
  String.ofList (List.replicate (2 * depth) ' ')

/-- The line of a tree at a depth, without the lines of its parts. -/
def line (depth : Nat) (t : Tree κ) : String :=
  indentation depth ++ t.display ++ "\n"

/-- An output with the lines of all that is still to be shown. -/
def outlineRows (o : OutlineOptions) (output : String) : List (List (Tree κ)) → String
  | [] => output
  | [] :: rows => outlineRows o output rows
  | (leaf t :: ts) :: rows =>
    let output := if o.shows t then output ++ line rows.length (leaf t : Tree κ) else output
    outlineRows o output (ts :: rows)
  | (node k s cs :: ts) :: rows =>
    outlineRows o (output ++ line rows.length (node k s cs)) (cs :: ts :: rows)

/-- The outline of a tree, every line of it ended. -/
def outline (o : OutlineOptions) (t : Tree κ) : String :=
  outlineRows o "" [[t]]

end Tree

end Lossless
