import Lossless.Anomaly
import Lossless.Marker

/-!
# Layouts

A layout gives the markers of a parse their places in a tree.  It is found in three
steps, and each of them reports the markers that it has to leave out.

1. `screen` goes through the markers by number and leaves out those with a range that
   does not fit the tokens and those with a number seen before.
2. `arrange` sorts the markers by where they start, longer ones first.  Of markers
   over the same tokens the one with the least number is kept; another is kept too if
   it was opened to wrap the last one kept, and stands outside of it.
3. `Layout.ofArranged` goes through them once and keeps the chain of elements that are
   open at each point.  A marker is put into the innermost of these that contains it.
   **A marker that begins inside an element and ends outside of it is left out.**

Containment is half-open: an empty marker at the end of a longer one is outside of it.
-/

namespace Lossless

/-- A marker with its place: the markers right inside of it, in order. -/
inductive Plot (κ : Type) where
  | mk (marker : Marker κ) (inner : List (Plot κ))

namespace Plot

variable {κ : Type}

/-- The marker of a plot. -/
def marker : Plot κ → Marker κ
  | mk m _ => m

/-- The plots right inside of a plot. -/
def inner : Plot κ → List (Plot κ)
  | mk _ ps => ps

end Plot

namespace Marker

variable {κ : Type}

/-- Whether the range of a marker fits a number of tokens. -/
def fits (tokenCount : Nat) (m : Marker κ) : Bool :=
  m.start ≤ m.stop && m.stop ≤ tokenCount && m.start < tokenCount

/-- Whether a marker lies inside another. -/
def contains (outer m : Marker κ) : Bool :=
  outer.start ≤ m.start && m.stop ≤ outer.stop
    && (m.start < outer.stop || outer.start == outer.stop)

/-- Whether a marker covers a token. -/
def covers (m : Marker κ) (index : Nat) : Bool :=
  m.start ≤ index && index < m.stop

/-- Whether two markers cover the same tokens. -/
def sameRange (m n : Marker κ) : Bool :=
  m.start == n.start && m.stop == n.stop

/-- Whether a marker comes no later than another in the order of their numbers. -/
def idLe (m n : Marker κ) : Bool :=
  m.id ≤ n.id

/-- Whether a marker comes no later than another in a layout: it starts earlier, or at
the same token and is longer, or covers the same tokens and has no larger number. -/
def layoutLe (m n : Marker κ) : Bool :=
  m.start < n.start
    || (m.start == n.start && (n.stop < m.stop || (m.stop == n.stop && m.id ≤ n.id)))

end Marker

variable {κ : Type}

/-! ## Screening -/

/-- Goes through markers in the order of their numbers, of which those in `seen` have
been met, and gives the ones kept and the anomalies of the others. -/
def screenFrom (tokenCount : Nat) (seen : List Nat) :
    List (Marker κ) → List (Marker κ) × List Anomaly
  | [] => ([], [])
  | m :: ms =>
    if !m.fits tokenCount then
      let (kept, anomalies) := screenFrom tokenCount seen ms
      (kept, .invalidRange m.id m.start m.stop :: anomalies)
    else if seen.contains m.id then
      let (kept, anomalies) := screenFrom tokenCount seen ms
      (kept, .duplicateId m.id :: anomalies)
    else
      let (kept, anomalies) := screenFrom tokenCount (m.id :: seen) ms
      (m :: kept, anomalies)

/-- The markers whose range fits, one of each number, and the anomalies of the others.
Of markers with one number the first whose range fits is kept. -/
def screen (tokenCount : Nat) (markers : List (Marker κ)) : List (Marker κ) × List Anomaly :=
  screenFrom tokenCount [] (markers.mergeSort Marker.idLe)

/-! ## Arranging -/

/-- Goes through markers over the same tokens, given the innermost one and the last one
kept.  Gives the ones kept, from the inside out, and the anomalies of the others. -/
def chain (base last : Marker κ) : List (Marker κ) → List (Marker κ) × List Anomaly
  | [] => ([], [])
  | m :: ms =>
    if m.precedes == some last.id then
      let (kept, anomalies) := chain base m ms
      (m :: kept, anomalies)
    else
      let (kept, anomalies) := chain base last ms
      (kept, .duplicateRange m.id base.id m.start m.stop :: anomalies)

/-- Goes through sorted markers group by group, a group being those over the same
tokens.  Gives the ones kept, wrappers first, and the anomalies of the others. -/
def arrangeSorted : Nat → List (Marker κ) → List (Marker κ) × List Anomaly
  | 0, _ => ([], [])
  | _ + 1, [] => ([], [])
  | rounds + 1, base :: ms =>
    let (wrappers, anomalies) := chain base base (ms.takeWhile base.sameRange)
    let (later, laterAnomalies) := arrangeSorted rounds (ms.dropWhile base.sameRange)
    ((base :: wrappers).reverse ++ later, anomalies ++ laterAnomalies)

/-- The markers in the order of a layout, without those that double another, and the
anomalies of these. -/
def arrange (markers : List (Marker κ)) : List (Marker κ) × List Anomaly :=
  arrangeSorted markers.length (markers.mergeSort Marker.layoutLe)

/-! ## Placing -/

/-- The places of markers, while some of them are still open. -/
structure Layout (κ : Type) where
  /-- The open markers with the plots inside of them so far, innermost first. -/
  chain : List (Marker κ × List (Plot κ))
  /-- The plots outside of all open markers, in order. -/
  roots : List (Plot κ)
  anomalies : List Anomaly

namespace Layout

/-- A layout without markers. -/
def empty : Layout κ := ⟨[], [], []⟩

/-- The layout with its innermost open marker closed. -/
def closeTop (l : Layout κ) : Layout κ :=
  match l.chain with
  | [] => l
  | [(m, ps)] => { l with chain := [], roots := l.roots ++ [.mk m ps] }
  | (m, ps) :: (outer, qs) :: rest => { l with chain := (outer, qs ++ [.mk m ps]) :: rest }

/-- Whether an open marker ends before another one begins. -/
def endsBefore (outer m : Marker κ) : Bool :=
  !outer.contains m && outer.stop ≤ m.start

/-- The layout with all those innermost markers closed that end before a marker begins. -/
def closeBefore (l : Layout κ) (m : Marker κ) : Layout κ :=
  Nat.repeat closeTop (l.chain.takeWhile fun f => endsBefore f.1 m).length l

/-- The layout with one more marker, which comes after all the others. -/
def place (l : Layout κ) (m : Marker κ) : Layout κ :=
  let l := l.closeBefore m
  match l.chain with
  | [] => { l with chain := [(m, [])] }
  | (outer, ps) :: rest =>
    if outer.contains m then
      { l with chain := (m, []) :: (outer, ps) :: rest }
    else
      { l with anomalies := l.anomalies ++ [.overlapping m.id outer.id] }

/-- The layout with all open markers closed. -/
def closeAll (l : Layout κ) : Layout κ :=
  Nat.repeat closeTop l.chain.length l

/-- The layout of arranged markers. -/
def ofArranged (markers : List (Marker κ)) : Layout κ :=
  (markers.foldl place empty).closeAll

end Layout

/-- The places of markers over a number of tokens, and the anomalies of those left out. -/
def plots (tokenCount : Nat) (markers : List (Marker κ)) : List (Plot κ) × List Anomaly :=
  let (screened, first) := screen tokenCount markers
  let (arranged, second) := arrange screened
  let layout := Layout.ofArranged arranged
  (layout.roots, first ++ second ++ layout.anomalies)

end Lossless
