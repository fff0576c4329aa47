import DiffGraph.Report.Statistics
import DiffGraph.Data.ArrayText
import DiffGraph.Data.Datum
import DiffGraph.Text.Quoted

/-!
# Reports on a graph

Texts for people: the summary of a graph with its operators by frequency, the list of its nodes
with their values, and a short judgement of its complexity.
-/

namespace DiffGraph.Report

open Text

variable {V E : Type}

def line (s : String) : String := s ++ "\n"

/-- The rule between the parts of a report. -/
def rule : String := repeated '=' 70

def heading (title : String) : String := line ("\n" ++ rule) ++ line title ++ line rule

def closing : String := line (rule ++ "\n")

/-- The reading of a double-width number. -/
def reading (x : Float) : Decimal.Reading := Decimal.Format.double.read x.toBits.toNat

/-- A number with a set number of places. -/
def fixed (places : Nat) (x : Float) : String := (reading x).fixed places

def ratio (q : Rat) : String := fixed 2 (Rat.nearestDouble q)

/-- The share of some nodes in all of them, in percent. -/
def percent (count nodes : Nat) : String :=
  fixed 1 (100.0 * Float.ofNat count / Float.ofNat nodes)

/-- The counted tags, the most frequent first; equal counts stay in their order. -/
def byFrequency (operations : List (String × Nat)) : List (String × Nat) :=
  operations.mergeSort fun e f => decide (f.2 ≤ e.2)

/-- The names of some nodes, in a row. -/
def nodeList (ns : List Nat) : String :=
  "[" ++ separated ", " (ns.map fun n => "Node" ++ toString n) ++ "]"

/-- The texts for all nodes up to a bound, one after the other. -/
def forNodes (k : Nat) (f : Nat → Except (Fault E) String) : Except (Fault E) String := do
  return String.join (← (List.range k).mapM f)

/-- The summary of a graph. In full it lists the operands of every node of a small graph. -/
def summary (g : Graph V) (full : Bool) : Except (Fault E) String := do
  if g.size = 0 then return line "Empty computation graph"
  let s := g.statistics
  let operations := (byFrequency s.operations).take 10 |>.map fun e =>
    line ("  " ++ alignLeft 12 e.1 ++ ": " ++ alignRight 6 (grouped e.2) ++ " (" ++
      alignRight 5 (percent e.2 s.nodes) ++ "%)")
  let nodes ←
    if full && s.nodes ≤ 100 then do
      let list ← forNodes g.size fun n => do
        return line ("Node " ++ alignRight 3 (toString n) ++ ": " ++ alignLeft 12 (g.tag n) ++
          " <- " ++ nodeList (← g.operands n))
      pure (line "" ++ line rule ++ line "DETAILED NODE LIST" ++ line rule ++ list)
    else pure ""
  return heading "COMPUTATION GRAPH SUMMARY" ++
    line ("Total nodes:        " ++ grouped s.nodes) ++
    line ("Total edges:        " ++ grouped s.edges) ++
    line ("Max fan-in:         " ++ toString s.maxFanIn) ++
    line ("Avg fan-in:         " ++ ratio s.meanFanIn) ++
    line ("Max fan-out:        " ++ toString s.maxFanOut) ++
    line ("Avg fan-out:        " ++ ratio s.meanFanOut) ++
    line "" ++ line "Operation breakdown:" ++ String.join operations ++ nodes ++ closing

/-- The three grades of complexity, by the number of nodes. -/
def grade (nodes : Nat) : String :=
  if nodes < 1000 then "Low" else if nodes < 10000 then "Medium" else "High"

/-- The judgement of a graph's complexity. -/
def complexity (g : Graph V) : String :=
  if g.size = 0 then "Empty computation graph"
  else
    let s := g.statistics
    let top := (byFrequency s.operations).take 3 |>.map fun e =>
      "    - " ++ e.1 ++ ": " ++ percent e.2 s.nodes ++ "%"
    separated "\n"
      (["Graph Complexity Analysis:",
        "  Total operations: " ++ grouped s.nodes,
        "  Total connections: " ++ grouped s.edges,
        "  Average branching: " ++ ratio s.meanFanOut,
        "  Complexity level: " ++ grade s.nodes,
        "  Top operations:"] ++ top)

/-- A complex number with four significant digits in each part. -/
def complexText (z : Complex Float) : String :=
  let im := (reading z.im).general 4
  (reading z.re).general 4 ++ (if im.startsWith "-" then "" else "+") ++ im ++ "j"

/-- A value in a list of nodes: a number, or the shape of a tensor. -/
def valueText (stored : Stored (Tensor Machine)) : String :=
  let t := stored.value
  if t.rank = 0 then
    let z := (t.grid.get (Arithmetic.zero t.dtype) []).toComplex
    match t.dtype.field with
    | .real => alignRight 10 (fixed 6 z.re)
    | .complex => complexText z
  else "tensor" ++ t.shape.spaced

/-- What stands for a value that is not there. -/
def missing : String := "N/A"

/-- The name of a node, the last bound of several. -/
def nameOf (names : Names) (n : Nat) : Option String :=
  (names.reverse.find? fun e => e.2 == n).map (·.1)

/-- One node in a list of nodes. -/
def nodeLine (g : Graph (Stored (Tensor Machine))) (n : Nat) : Except (Fault E) String := do
  let label := (nameOf g.names n).elim (g.tag n) fun s => g.tag n ++ ":" ++ s
  let value := (g.value? n).elim missing valueText
  let start := "Node " ++ alignRight 4 (toString n) ++ ": " ++ alignLeft 12 label ++
    " (" ++ value ++ ")"
  match ← g.operands n with
  | [] => return line (start ++ " [leaf/input]")
  | operands => return line (start ++ " <- " ++ nodeList operands)

/-- The whole number that bounds a list of so many nodes. A bound that is no whole number is
accepted where it is not reached; what is not comparable with numbers is no bound. -/
def bound (size : Nat) : Datum → Except TensorError Int
  | .bool b => .ok (if b then 1 else 0)
  | .int i => .ok i
  | .real x => if x < Float.ofNat size then .error (.notWhole "float") else .ok size
  | .array a => (a.value.entry?).elim (.error (.notComparable "ndarray")) .ok
  | d => .error (.notComparable d.typeName)

/-- The list of the first nodes of a graph, with their values and operands. -/
def structureText (g : Graph (Stored (Tensor Machine))) (most : Datum) :
    Except (Fault TensorError) String := do
  let start := heading "COMPUTATION GRAPH STRUCTURE"
  if g.size = 0 then return start ++ line "Empty graph"
  let most ← (bound g.size most).mapError .rule
  let nodes ← forNodes (min g.size most.toNat) (nodeLine g)
  let rest := if most < g.size then
    line ("... (" ++ toString (g.size - most) ++ " more nodes)") else ""
  return start ++ nodes ++ rest ++ closing

/-- The greatest number of nodes that are listed where nothing is said. -/
def usualBound : Datum := .int 20

/-- The text of a value that a node holds, or of its absence. -/
def held (v : Option (Stored (Tensor Machine))) : String :=
  v.elim missing fun t => ArrayText.text (t.map .floating)

/-- The text of a node: its label, its value and its gradient. -/
def nodeText (node : Node (Stored (Tensor Machine))) : String :=
  "Node(" ++ node.kind.tag ++ ", value=" ++ held node.value ++ ", deriv=" ++ held node.deriv ++ ")"

/-- The text of a graph: its size and its names in order. -/
def graphText (g : Graph V) : String :=
  "Graph(nodes=" ++ toString g.size ++ ", edges=" ++ toString g.edges.size ++ ", names=[" ++
    separated ", " (g.names.sorted.map quoted) ++ "])"

end DiffGraph.Report
