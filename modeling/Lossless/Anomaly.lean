/-!
# Anomalies

The markers of a grammar usually nest.  Where they do not, the tree is built without
the markers that stand in the way, and each of them is reported as an `Anomaly`.
-/

namespace Lossless

/-- A reason why a marker has no place in the tree. -/
inductive Anomaly where
  /-- The range of the marker is inverted or reaches beyond the tokens. -/
  | invalidRange (id start stop : Nat)
  /-- An earlier marker has the same number. -/
  | duplicateId (id : Nat)
  /-- Another marker, which is kept, covers the very same tokens. -/
  | duplicateRange (id kept start stop : Nat)
  /-- The marker begins inside an element and ends outside of it. -/
  | overlapping (id outer : Nat)
deriving DecidableEq, Repr

/-- A half-open range of token indices. -/
def displayRange (start stop : Nat) : String :=
  "[" ++ toString start ++ ", " ++ toString stop ++ ")"

/-- An anomaly in words. -/
def Anomaly.display : Anomaly → String
  | invalidRange id start stop =>
    "marker #" ++ toString id ++ " has invalid range " ++ displayRange start stop
  | duplicateId id => "marker id #" ++ toString id ++ " appears more than once"
  | duplicateRange id kept start stop =>
    "marker #" ++ toString id ++ " duplicates the range " ++ displayRange start stop
      ++ " of marker #" ++ toString kept
  | overlapping id outer =>
    "marker #" ++ toString id ++ " crosses the end of marker #" ++ toString outer

end Lossless
