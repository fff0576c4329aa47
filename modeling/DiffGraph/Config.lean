import DiffGraph.Data.TypeRequest
import DiffGraph.Graph.Actions

/-!
# Settings of a calculation graph

A graph has an element type for the tensors that are made from plain numbers, and a switch for
its log. Only floating-point types are settings; a refusal shows what was asked for. Of these types
the ones of single and double width are known.
-/

namespace DiffGraph

/-- Why settings are refused. -/
inductive ConfigError where
  /-- What was given for the element type means no type. -/
  | type (cause : TypeRequestError)
  /-- The element type is no floating-point type. -/
  | notFloating (shown : String)
  /-- There is no setting of this name. -/
  | unknownSetting (name : String)
  /-- Settings are not changed after a graph is made. -/
  | frozen (field : String)
deriving Repr, DecidableEq

def ConfigError.message : ConfigError → String
  | .type e => e.message
  | .notFloating shown =>
    "GraphConfig.dtype must be a real or complex floating type, but got " ++ shown
  | .unknownSetting name =>
    "GraphConfig.__init__() got an unexpected keyword argument " ++ Text.quoted name
  | .frozen field => "cannot assign to field " ++ Text.quoted field

/-- The settings of a graph. -/
structure Config where
  dtype : Stored DType
  debug : Bool
deriving Repr, DecidableEq

namespace Config

/-- Double-width real numbers, and no log. -/
def standard : Config := ⟨.native .float64, false⟩

def settings : List String := ["dtype", "debug"]

/-- The floating-point type of single or double width that is meant. -/
def dtypeOf (d : Datum) : Except ConfigError (Stored DType) := do
  match ← d.typeMeant.mapError .type with
  | .entry ⟨.floating d, order⟩ => return ⟨d, order⟩
  | t => throw (.notFloating t.text)

/-- The settings with an element type given by the client. -/
def make (dtype : Datum) (debug : Bool) : Except ConfigError Config := do
  return ⟨← dtypeOf dtype, debug⟩

/-- The settings of a graph that is made with some settings, or with the standard ones, and
possibly another element type. -/
def forGraph (config : Option Config) (dtype : Option Datum) : Except ConfigError Config :=
  let config := config.getD standard
  match dtype with
  | none => .ok config
  | some d => make d config.debug

/-- The conversion of client data into tensors for a graph with these settings. -/
def conversion (c : Config) : Conversion Datum (Tensor Machine) TensorError where
  any := intoTensor c.dtype.value
  scalar := scalarTensor c.dtype.value
  vector := vectorTensor c.dtype.value
  data t := .ofArray (.floating t)

/-- A tensor as it is stored: in the order that was asked for, unless it is complex where real
numbers were asked for. -/
def stored (c : Config) (t : Tensor Machine) : Stored (Tensor Machine) :=
  if t.dtype.field = c.dtype.value.field then ⟨t, c.dtype.order⟩ else .native t

/-- The conversion of client data into stored tensors. -/
def storedConversion (c : Config) : Conversion Datum (Stored (Tensor Machine)) TensorError where
  any d := (c.conversion.any d).map c.stored
  scalar d := (c.conversion.scalar d).map c.stored
  vector d := (c.conversion.vector d).map c.stored
  data t := .array (t.map .floating)

end Config

end DiffGraph
