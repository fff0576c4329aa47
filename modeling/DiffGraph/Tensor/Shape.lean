/-!
# Shapes

A shape lists the extents of a tensor's axes, the slowest axis first. This file has the row-major
numbering of the entries and the rule of broadcasting: two shapes are aligned at their last axes,
a missing axis or one of extent 1 is stretched to the other's extent, and any other pair of
different extents does not fit. A shape that is asked for may leave an extent open.
-/

namespace DiffGraph

abbrev Shape := List Nat

namespace Shape

def size : Shape → Nat
  | [] => 1
  | n :: s => n * size s

@[simp] theorem size_nil : size [] = 1 := rfl

@[simp] theorem size_cons (n : Nat) (s : Shape) : size (n :: s) = n * size s := rfl

def indices : Shape → List (List Nat)
  | [] => [[]]
  | n :: s => (List.range n).flatMap fun i => (indices s).map (i :: ·)

@[simp] theorem indices_nil : indices [] = [[]] := rfl

theorem indices_cons (n : Nat) (s : Shape) :
    indices (n :: s) = (List.range n).flatMap fun i => (indices s).map (i :: ·) := rfl

@[simp] theorem length_indices : (s : Shape) → (indices s).length = s.size
  | [] => rfl
  | n :: s => by
      simp only [indices_cons, List.length_flatMap, List.length_map, length_indices s]
      rw [List.map_const']
      simp

/-- The place of a position in row-major order. -/
def offset : Shape → List Nat → Nat
  | _ :: s, i :: is => i * size s + offset s is
  | _, _ => 0

@[simp] theorem offset_nil (i : List Nat) : offset [] i = 0 := by
  simp [offset]

@[simp] theorem offset_cons (n i : Nat) (s : Shape) (is : List Nat) :
    offset (n :: s) (i :: is) = i * size s + offset s is := rfl

/-- The extent of two aligned axes after broadcasting. -/
def joinAxis (m n : Nat) : Option Nat :=
  if m = n then some m else if m = 1 then some n else if n = 1 then some m else none

/-- Broadcasts two shapes that are given from the last axis to the first. -/
def joinReversed : Shape → Shape → Option Shape
  | [], t => some t
  | s, [] => some s
  | m :: s, n :: t =>
    match joinAxis m n, joinReversed s t with
    | some d, some u => some (d :: u)
    | _, _ => none

/-- The shape that two shapes broadcast to. -/
def broadcast (s t : Shape) : Option Shape :=
  (joinReversed s.reverse t.reverse).map List.reverse

/-- The position in a tensor of shape `s` that a position `i` of a broadcast tensor reads: extra
leading axes are dropped, and on an axis of extent 1 there is only one place. -/
def project (s : Shape) (i : List Nat) : List Nat :=
  List.zipWith (fun n k => if n = 1 then 0 else k) s (i.drop (i.length - s.length))

/-- Whether a tensor of shape `s` can be spread over the shape `t`: every axis of `s` has the
extent of the aligned axis of `t` or the extent 1. -/
def spreads (s t : Shape) : Bool :=
  s.length ≤ t.length &&
    (List.zipWith (fun m n => m == n || m == 1) s (t.drop (t.length - s.length))).all id

/-- Writes the extents in brackets; a single extent is followed by a comma. -/
def bracketed (separator : String) : Shape → String
  | [n] => "(" ++ toString n ++ ",)"
  | s => "(" ++ separator.intercalate (s.map toString) ++ ")"

/-- The extents in brackets without blanks. -/
def compact (s : Shape) : String := bracketed "," s

/-- The extents in brackets with a blank after each comma. -/
def spaced (s : Shape) : String := bracketed ", " s

end Shape

/-- The extents of the axes, some of which may be left open. -/
abbrev OpenShape := List (Option Nat)

namespace OpenShape

/-- A negative extent is an open one. -/
def ofInts (s : List Int) : OpenShape := s.map fun i => if i < 0 then none else some i.toNat

/-- The shape, if no extent is open. -/
def closed? (s : OpenShape) : Option Shape := s.mapM id

/-- The shape with a value for the open extents. -/
def filled (n : Nat) (s : OpenShape) : Shape := s.map (·.getD n)

/-- The extents in brackets without blanks. Open extents at the start are left out. -/
def compact (s : OpenShape) : String :=
  match s, s.dropWhile Option.isNone with
  | [_], [some n] => Shape.compact [n]
  | _, shown => "(" ++ ",".intercalate (shown.map fun n => n.elim "newaxis" toString) ++ ")"

end OpenShape

end DiffGraph
