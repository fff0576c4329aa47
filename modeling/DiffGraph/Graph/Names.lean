/-!
# Namespaces

A namespace binds names to nodes and keeps the order in which the names were first bound.
Rebinding a name leaves its place.
-/

namespace DiffGraph

/-- Names with the nodes they are bound to, each name once, in the order of the first binding. -/
abbrev Names := List (String × Nat)

namespace Names

/-- The node that a name is bound to. -/
def get? (names : Names) (s : String) : Option Nat := names.lookup s

/-- Binds a name to a node. -/
def bind (s : String) (n : Nat) : Names → Names
  | [] => [(s, n)]
  | e :: rest => if e.1 = s then (s, n) :: rest else e :: bind s n rest

/-- The names in the order of their code points. -/
def sorted (names : Names) : List String := (names.map (·.1)).mergeSort fun s t => !decide (t < s)

@[simp] theorem bind_nil (s : String) (n : Nat) : bind s n [] = [(s, n)] := rfl

theorem bind_cons (s : String) (n : Nat) (e : String × Nat) (rest : Names) :
    bind s n (e :: rest) = if e.1 = s then (s, n) :: rest else e :: bind s n rest := rfl

end Names

end DiffGraph
