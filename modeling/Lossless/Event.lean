import Lossless.Anomaly
import Lossless.Marker

/-!
# Events

A session and the building of a tree can be followed as a list of events.  The events
of a session tell everything that happens to its markers and errors.
-/

namespace Lossless

/-- Something that a session or the building of a tree did. -/
inductive Event (κ : Type) where
  /-- A marker was opened at a token. -/
  | opened (id index : Nat)
  /-- A marker was completed. -/
  | completed (marker : Marker κ)
  /-- A marker was forgotten. -/
  | dropped (id : Nat)
  /-- The session went back to where a marker was opened. -/
  | rolledBack (id index markersDiscarded errorsRetracted : Nat)
  /-- An error was reported at a token. -/
  | errorReported (index : Nat) (message : String)
  /-- A marker could not be given a place in the tree. -/
  | anomaly (anomaly : Anomaly)
  /-- The constructor of an element refused it. -/
  | rejected (id : Nat) (message : String)
deriving DecidableEq, Repr

/-- An event in words. -/
def Event.display {κ : Type} [Named κ] : Event κ → String
  | opened id index => "open #" ++ toString id ++ " at " ++ toString index
  | completed m =>
    "done #" ++ toString m.id ++ " " ++ Named.name m.kind ++ " " ++ displayRange m.start m.stop
      ++ (match m.precedes with
          | some inner => " precedes #" ++ toString inner
          | none => "")
  | dropped id => "drop #" ++ toString id
  | rolledBack id index markers errors =>
    "rollback #" ++ toString id ++ " to " ++ toString index ++ " (" ++ toString markers
      ++ " markers discarded, " ++ toString errors ++ " errors retracted)"
  | errorReported index message => "error at " ++ toString index ++ ": " ++ message
  | anomaly a => "anomaly: " ++ a.display
  | rejected id message => "constructor rejected #" ++ toString id ++ ": " ++ message

end Lossless
