import DiffGraph.Operator.Rules

/-!
# Byte order

The entries of a tensor may be stored with their bytes in either order. The order is kept with
leaves, for which it can be asked, and shows only in texts; whatever is computed from them is
stored in the machine's own order.
-/

namespace DiffGraph

/-- The order of the bytes of a number. The least significant byte comes first in the machine's
own order. -/
inductive ByteOrder where
  | little
  | big
deriving Repr, DecidableEq

/-- The mark of an order in the name of an element type. -/
def ByteOrder.mark : ByteOrder → String
  | .little => "<"
  | .big => ">"

/-- Something with the order of the bytes of its entries. -/
structure Stored (α : Type) where
  value : α
  order : ByteOrder
deriving Repr, DecidableEq

namespace Stored

variable {α β V E : Type}

/-- Stored in the machine's own order. -/
def native (a : α) : Stored α := ⟨a, .little⟩

/-- Changes what is stored and keeps the order. -/
def map (f : α → β) (a : Stored α) : Stored β := ⟨f a.value, a.order⟩

@[simp] theorem value_native (a : α) : (native a).value = a := rfl

@[simp] theorem value_map (f : α → β) (a : Stored α) : (a.map f).value = f a.value := rfl

end Stored

/-- The rules of a calculus on stored values. Only the seed keeps the order. -/
def Rules.stored {V E : Type} (rules : Rules V E) : Rules (Stored V) E where
  unary op a := (rules.unary op a.value).map .native
  binary op l r := (rules.binary op l.value r.value).map .native
  unaryPull op a g := (rules.unaryPull op a.value g.value).map .native
  binaryPull op l r g :=
    (rules.binaryPull op l.value r.value g.value).map fun d => (.native d.1, .native d.2)
  seed a := a.map rules.seed
  add g h := (rules.add g.value h.value).map .native

end DiffGraph
