import Lossless.Tree

/-!
# Registries

A registry holds *constructors* for some kinds of elements.  A constructor is given a
marker, the parts of its element and their span, and builds the node or refuses to;
this is where a grammar enforces what markers alone cannot express, say that a group
ends with its closing bracket.  A kind without a constructor gets a plain element.

A constructor that breaks off counts as one that refuses.
-/

namespace Lossless

/-- What a constructor makes of an element. -/
inductive Construction (κ : Type) where
  /-- The node is built. -/
  | built (node : Tree κ)
  /-- The element is refused, with a message. -/
  | refused (message : String)
  /-- The constructor broke off, with a message if there is one. -/
  | brokeOff (message : Option String)

/-- A way to build the node of a marker from its parts and their span. -/
abbrev Constructor (κ : Type) := Marker κ → List (Tree κ) → Span → Construction κ

/-- Constructors by kind; there is at most one for each. -/
structure Registry (κ : Type) where
  entries : List (κ × Constructor κ) := []

namespace Registry

variable {κ : Type} [DecidableEq κ]

/-- The registry with a constructor for a kind, in place of an earlier one. -/
def register (r : Registry κ) (kind : κ) (constructor : Constructor κ) : Registry κ :=
  ⟨r.entries.filter (·.1 != kind) ++ [(kind, constructor)]⟩

/-- The constructor for a kind. -/
def get? (r : Registry κ) (kind : κ) : Option (Constructor κ) :=
  (r.entries.find? (·.1 == kind)).map (·.2)

/-- Whether there is a constructor for a kind. -/
def contains (r : Registry κ) (kind : κ) : Bool :=
  (r.get? kind).isSome

/-- The number of constructors. -/
def size (r : Registry κ) : Nat :=
  r.entries.length

/-- The kinds that have a constructor, as a set in words. -/
def display [Named κ] (r : Registry κ) : String :=
  "\x7b" ++ ", ".intercalate (r.entries.map fun e => Named.name e.1) ++ "\x7d"

/-- The node of a marker, or the message with which it is refused. -/
def construct [Named κ] (r : Registry κ) (m : Marker κ) (children : List (Tree κ)) (span : Span) :
    Except String (Tree κ) :=
  match r.get? m.kind with
  | none => .ok (.node (.element m.kind) span children)
  | some constructor =>
    match constructor m children span with
    | .built node => .ok node
    | .refused message => .error message
    | .brokeOff message =>
      .error ("constructor for " ++ Named.name m.kind ++ " panicked: "
        ++ message.getD "unknown panic")

end Registry

end Lossless
