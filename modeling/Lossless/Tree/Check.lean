import Lossless.Tree

/-!
# Checks of a tree

A `Check` states something about a node: its kind, its span, its text, the number of
its parts, or further checks about one of them.  Checks are tried in order, and the
first that does not hold is told in words, together with the way from the node at
which checking began.  `child` and `find` lead to a node below; parts are counted
among the nodes only, and `leafTexts` is about the significant tokens among the parts.
-/

namespace Lossless

/-- A statement about a node. -/
inductive Check (κ : Type) where
  | isRoot
  | element (kind : κ)
  | isError
  | errorMessage (message : String)
  | span (start stop : Nat)
  | text (text : String)
  | leafTexts (texts : List String)
  | valid
  | invalid
  | childCount (count : Nat)
  /-- Checks about the child node with an index. -/
  | child (index : Nat) (checks : List (Check κ))
  /-- Checks about the first element of a kind, the node itself included. -/
  | find (kind : κ) (checks : List (Check κ))

namespace Check

/-- A value that may be missing, in words. -/
def displayOption (value : Option String) : String :=
  match value with
  | none => "None"
  | some s => "Some(" ++ s ++ ")"

/-- A list in words. -/
def displayList (values : List String) : String :=
  "[" ++ ", ".intercalate values ++ "]"

/-- A pair of numbers in words. -/
def displayPair (a b : Nat) : String :=
  "(" ++ toString a ++ ", " ++ toString b ++ ")"

/-- Fails with a message unless a condition holds. -/
def ensure (condition : Bool) (message : String) : Except String Unit :=
  if condition then .ok () else .error message

/-- Fails with a message and both values, in words, unless they are equal. -/
def ensureEqual {α : Type} [DecidableEq α] (words : α → String) (actual expected : α)
    (message : String) : Except String Unit :=
  if actual = expected then
    .ok ()
  else
    .error ("assertion `left == right` failed: " ++ message ++ "\n  left: " ++ words actual
      ++ "\n right: " ++ words expected)

variable {κ : Type} [DecidableEq κ] [Named κ]

/-- A node by its kind alone. -/
def displayKind : Tree κ → String
  | .leaf t => t.kind.name
  | .node k _ _ => k.display

mutual

/-- Tries a check at a node that was reached by the way `context`. -/
def run (context : String) (t : Tree κ) : Check κ → Except String Unit
  | isRoot =>
    ensure (match t with | .node .root _ _ => true | _ => false)
      (context ++ ": Expected Root, found " ++ displayKind t)
  | element kind =>
    ensureEqual (fun k => displayOption (k.map Named.name)) t.elementKind? (some kind)
      (context ++ ": Expected element " ++ Named.name kind ++ ", found " ++ displayKind t)
  | isError =>
    ensure t.isError (context ++ ": Expected an error node, found " ++ displayKind t)
  | errorMessage message =>
    ensureEqual (fun m => displayOption (m.map Text.quote)) t.errorMessage? (some message)
      (context ++ ": Error message mismatch")
  | span start stop =>
    ensureEqual (fun s => displayPair s.start s.stop) t.span ⟨start, stop⟩
      (context ++ ": Expected range " ++ (Span.mk start stop).display ++ ", found "
        ++ t.span.display)
  | text expected =>
    ensureEqual Text.quote t.text expected (context ++ ": Text mismatch")
  | leafTexts expected =>
    ensureEqual (fun ts => displayList (ts.map Text.quote))
      ((t.childTokens.filter (!·.isTrivia)).map (·.text)) expected
      (context ++ ": Leaf token mismatch")
  | valid =>
    ensure (!t.hasError)
      (context ++ ": Expected no error nodes, found " ++ displayList (t.errors.map (·.display)))
  | invalid =>
    ensure t.hasError (context ++ ": Expected at least one error node")
  | childCount count =>
    let kinds := t.childNodes.map displayKind
    ensureEqual toString kinds.length count
      (context ++ ": Expected " ++ toString count ++ " child nodes, found "
        ++ toString kinds.length ++ ": " ++ displayList kinds)
  | child index checks =>
    match t.childNodes[index]? with
    | none =>
      .error (context ++ ": Child index " ++ toString index ++ " out of bounds ("
        ++ toString t.childNodes.length ++ " child nodes)")
    | some c => runAll (context ++ "[" ++ toString index ++ "]:" ++ displayKind c) c checks
  | find kind checks =>
    match (t.findAll kind).head? with
    | none => .error (context ++ ": No descendant of kind " ++ Named.name kind)
    | some n => runAll (context ++ "/.." ++ Named.name kind) n checks

/-- Tries checks in order at a node that was reached by the way `context`. -/
def runAll (context : String) (t : Tree κ) : List (Check κ) → Except String Unit
  | [] => .ok ()
  | c :: cs => do
    run context t c
    runAll context t cs

end

/-- Tries checks in order at a node; the first that does not hold, in words. -/
def failure? (t : Tree κ) (checks : List (Check κ)) : Option String :=
  match runAll (displayKind t) t checks with
  | .ok _ => none
  | .error message => some message

end Check

end Lossless
