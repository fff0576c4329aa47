import DiffGraph.Tensor.Shape

/-!
# Grids

A grid is a rectangular block of entries of any type, stored in row-major order. Grids know
nothing of arithmetic: the reductions take the operation and its start value.
-/

namespace DiffGraph

/-- A block of entries, as many as the shape asks for. -/
structure Grid (α : Type) where
  shape : Shape
  data : Array α
  size_data : data.size = shape.size

namespace Grid

variable {α β γ : Type}

/-- The grid whose entry at each position is given. -/
def ofFn (s : Shape) (f : List Nat → α) : Grid α :=
  ⟨s, (s.indices.map f).toArray, by simp⟩

@[simp] theorem shape_ofFn (s : Shape) (f : List Nat → α) : (ofFn s f).shape = s := rfl

@[simp] theorem data_ofFn (s : Shape) (f : List Nat → α) :
    (ofFn s f).data = (s.indices.map f).toArray := rfl

/-- The grid of rank 0 with one entry. -/
def single (a : α) : Grid α := ⟨[], #[a], rfl⟩

/-- The grid with the same entry everywhere. -/
def constant (s : Shape) (a : α) : Grid α :=
  ⟨s, Array.replicate s.size a, by simp⟩

@[simp] theorem shape_constant (s : Shape) (a : α) : (constant s a).shape = s := rfl

def rank (g : Grid α) : Nat := g.shape.length

/-- The entry at a position; a position outside has the given value. -/
def get (outside : α) (g : Grid α) (i : List Nat) : α :=
  g.data.getD (g.shape.offset i) outside

/-- Applies a function to every entry. -/
def map (f : α → β) (g : Grid α) : Grid β :=
  ⟨g.shape, g.data.map f, by simp [g.size_data]⟩

@[simp] theorem shape_map (f : α → β) (g : Grid α) : (g.map f).shape = g.shape := rfl

@[simp] theorem data_map (f : α → β) (g : Grid α) : (g.map f).data = g.data.map f := rfl

/-- Reads the grid at every position of a broadcast shape. -/
def spread (outside : α) (s : Shape) (g : Grid α) : Grid α :=
  ofFn s fun i => g.get outside (g.shape.project i)

@[simp] theorem shape_spread (outside : α) (s : Shape) (g : Grid α) :
    (g.spread outside s).shape = s := rfl

/-- Combines the entries that meet when the two grids are broadcast to a shape. -/
def zip (outside : α) (outside' : β) (f : α → β → γ) (s : Shape) (g : Grid α) (h : Grid β) :
    Grid γ :=
  ofFn s fun i => f (g.get outside (g.shape.project i)) (h.get outside' (h.shape.project i))

@[simp] theorem shape_zip (outside : α) (outside' : β) (f : α → β → γ) (s : Shape) (g : Grid α)
    (h : Grid β) : (zip outside outside' f s g h).shape = s := rfl

/-- The same entries in another shape of the same size. -/
def reshape (s : Shape) (g : Grid α) (h : g.shape.size = s.size) : Grid α :=
  ⟨s, g.data, g.size_data.trans h⟩

/-- All entries combined from the left, in row-major order. Rounded sums of eight entries and more
that are taken in blocks, as is usual for arrays, may differ from this one in the last digits. -/
def sum (zero : α) (add : α → α → α) (g : Grid α) : α := g.data.foldl add zero

/-- The shape after the marked axes are summed to extent 1. -/
def keptShape : Shape → List Bool → Shape
  | n :: s, mark :: marks => (if mark then 1 else n) :: keptShape s marks
  | s, _ => s

/-- The positions that are summed into position `j`: free on the marked axes, those of `j` on the
others, in row-major order. -/
def fiber : Shape → List Bool → List Nat → List (List Nat)
  | n :: s, true :: marks, _ :: j =>
    (List.range n).flatMap fun i => (fiber s marks j).map (i :: ·)
  | _ :: s, false :: marks, i :: j => (fiber s marks j).map (i :: ·)
  | _, _, _ => [[]]

/-- Sums over the marked axes, which keep the extent 1. The entries of a fiber are combined from the
left like those of a whole grid, and not in blocks. -/
def sumAxes (zero : α) (add : α → α → α) (marks : List Bool) (g : Grid α) : Grid α :=
  ofFn (keptShape g.shape marks) fun j =>
    ((fiber g.shape marks j).map (g.get zero)).foldl add zero

@[simp] theorem shape_sumAxes (zero : α) (add : α → α → α) (marks : List Bool) (g : Grid α) :
    (g.sumAxes zero add marks).shape = keptShape g.shape marks := rfl

end Grid

end DiffGraph
