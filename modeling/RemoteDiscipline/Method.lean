/-!
The methods that a server of a discipline answers.

The negotiation methods ask about a discipline and prepare it; every discipline serves them. The
computations run one of its compute hooks; which of them a discipline serves depends on its kind.
-/

namespace RemoteDiscipline

inductive Negotiation
  | getInfo
  | setStreamOptions
  | setOptions
  | setup
  | getVariableDefinitions
  | getPartialDefinitions
  | getAvailableOptions
  deriving DecidableEq, Inhabited

inductive Computation
  /-- Outputs from inputs. -/
  | function
  /-- The Jacobian blocks of the outputs. -/
  | gradient
  /-- Residuals from inputs and candidate outputs. -/
  | residuals
  /-- Outputs that make the residuals vanish. -/
  | solve
  /-- The Jacobian blocks of the residuals. -/
  | residualGradients
  deriving DecidableEq, Inhabited

inductive Method
  | negotiate (m : Negotiation)
  | compute (c : Computation)
  deriving DecidableEq, Inhabited

/-- How many messages flow each way during a call. -/
inductive CallKind
  /-- One request and one response. -/
  | unary
  /-- One request and any number of responses. -/
  | serverStreaming
  /-- Any number of messages each way. -/
  | bidirectional
  deriving DecidableEq, Inhabited

/-- Every negotiation method, in the order in which the wire numbers them. -/
def Negotiation.all : List Negotiation :=
  [.getInfo, .setStreamOptions, .setOptions, .setup, .getVariableDefinitions,
    .getPartialDefinitions, .getAvailableOptions]

theorem Negotiation.mem_all (m : Negotiation) : m ∈ all := by cases m <;> decide

def Negotiation.name : Negotiation → String
  | .getInfo => "GetInfo"
  | .setStreamOptions => "SetStreamOptions"
  | .setOptions => "SetOptions"
  | .setup => "Setup"
  | .getVariableDefinitions => "GetVariableDefinitions"
  | .getPartialDefinitions => "GetPartialDefinitions"
  | .getAvailableOptions => "GetAvailableOptions"

def Computation.all : List Computation :=
  [.function, .gradient, .residuals, .solve, .residualGradients]

theorem Computation.mem_all (c : Computation) : c ∈ all := by cases c <;> decide

def Computation.name : Computation → String
  | .function => "ComputeFunction"
  | .gradient => "ComputeGradient"
  | .residuals => "ComputeResiduals"
  | .solve => "SolveResiduals"
  | .residualGradients => "ComputeResidualGradients"

namespace Method

def name : Method → String
  | .negotiate m => m.name
  | .compute c => c.name

/-- Every method, in the order in which the wire numbers them. -/
def all : List Method := Negotiation.all.map .negotiate ++ Computation.all.map .compute

def ofName? (name : String) : Option Method := all.find? fun m => m.name = name

def kind : Method → CallKind
  | .negotiate .getVariableDefinitions => .serverStreaming
  | .negotiate .getPartialDefinitions => .serverStreaming
  | .negotiate _ => .unary
  | .compute _ => .bidirectional

def isNegotiation : Method → Bool
  | .negotiate _ => true
  | .compute _ => false

theorem mem_all (m : Method) : m ∈ all := by
  cases m with
  | negotiate m => exact List.mem_append_left _ (List.mem_map_of_mem (Negotiation.mem_all m))
  | compute c => exact List.mem_append_right _ (List.mem_map_of_mem (Computation.mem_all c))

end Method

end RemoteDiscipline
