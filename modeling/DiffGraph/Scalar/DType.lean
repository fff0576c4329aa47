/-!
# Floating-point element types

The element type of a tensor is a scalar field in one of two widths. The four types form a
product of two chains, and the type that holds the values of two others is their join. Numbers of
half width and of more than double width are left out: no data is of such a type, and as a type to
ask for it has no name.
-/

namespace DiffGraph

/-- The scalar fields. -/
inductive Field where
  | real
  | complex
deriving Repr, DecidableEq

/-- The widths of one real component: 32 and 64 bits. -/
inductive Width where
  | single
  | double
deriving Repr, DecidableEq

/-- A floating-point element type. -/
structure DType where
  field : Field
  width : Width
deriving Repr, DecidableEq

/-- The smaller field that contains both. -/
def Field.join : Field → Field → Field
  | .real, f => f
  | .complex, _ => .complex

def Width.join : Width → Width → Width
  | .single, w => w
  | .double, _ => .double

namespace DType

/-- Real numbers in single width. -/
abbrev float32 : DType := ⟨.real, .single⟩

abbrev float64 : DType := ⟨.real, .double⟩

/-- Complex numbers in single width. -/
abbrev complex64 : DType := ⟨.complex, .single⟩

abbrev complex128 : DType := ⟨.complex, .double⟩

/-- The least element type that holds the values of both. -/
def join (d e : DType) : DType := ⟨d.field.join e.field, d.width.join e.width⟩

/-- The element type of a tensor of type `d` times a bare number of type `e`: the number may
widen the field and leaves the width alone. -/
def withNumber (d e : DType) : DType := ⟨d.field.join e.field, d.width⟩

/-- The name of an element type: its field and its bits. -/
def name : DType → String
  | ⟨.real, .single⟩ => "float32"
  | ⟨.real, .double⟩ => "float64"
  | ⟨.complex, .single⟩ => "complex64"
  | ⟨.complex, .double⟩ => "complex128"

/-- The code of an element type: its field and its number of bytes. -/
def code : DType → String
  | ⟨.real, .single⟩ => "f4"
  | ⟨.real, .double⟩ => "f8"
  | ⟨.complex, .single⟩ => "c8"
  | ⟨.complex, .double⟩ => "c16"

@[simp] theorem join_self (d : DType) : d.join d = d := by
  rcases d with ⟨f, w⟩
  cases f <;> cases w <;> rfl

theorem join_comm (d e : DType) : d.join e = e.join d := by
  rcases d with ⟨f, w⟩
  rcases e with ⟨f', w'⟩
  cases f <;> cases f' <;> cases w <;> cases w' <;> rfl

@[simp] theorem withNumber_self (d : DType) : d.withNumber d = d := by
  rcases d with ⟨f, w⟩
  cases f <;> rfl

end DType

end DiffGraph
