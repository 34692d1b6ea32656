import RemoteDiscipline.Metadata
import RemoteDiscipline.Method
/-!
The hooks of a discipline: what runs when, and how a hook fails.

A hook may fail with an explanation or break off in the middle. Either way the server goes on, and
the caller learns which hook it was.
-/

namespace RemoteDiscipline

/-- What a computation yields: one variable for every declared output, or the declared blocks. -/
inductive Yield
  | vectors (role : Role)
  | blocks
  deriving DecidableEq, Inhabited

def Yield.Values : Yield → Type
  | .vectors _ => Variables
  | .blocks => Blocks

namespace Computation

def yield : Computation → Yield
  | .function | .solve => .vectors .output
  | .residuals => .vectors .residual
  | .gradient | .residualGradients => .blocks

abbrev Values (c : Computation) : Type := c.yield.Values

def takesOutputs : Computation → Bool
  | .function | .gradient | .solve => false
  | .residuals | .residualGradients => true

def servedBy (kind : Kind) : Computation → Bool
  | .function | .gradient => kind = .explicit
  | .residuals | .solve | .residualGradients => kind = .implicit

end Computation

def Metadata.buffers (m : Metadata) : (y : Yield) → y.Values
  | .vectors .residual => m.residualBuffers
  | .vectors _ => m.outputBuffers
  | .blocks => m.blockBuffers

/-- A place where a discipline's own code runs. -/
inductive Hook
  | properties
  | initialise
  | setOptions
  | configure
  | setup
  | setupPartials
  | compute (c : Computation)
  deriving DecidableEq, Inhabited

def Hook.all : List Hook :=
  [.properties, .initialise, .setOptions, .configure, .setup, .setupPartials] ++
    Computation.all.map .compute

def Hook.name : Hook → String
  | .properties => "properties"
  | .initialise => "initialize"
  | .setOptions => "set_options"
  | .configure => "configure"
  | .setup => "setup"
  | .setupPartials => "setup_partials"
  | .compute .function => "compute"
  | .compute .gradient => "compute_partials"
  | .compute .residuals => "compute_residuals"
  | .compute .solve => "solve_residuals"
  | .compute .residualGradients => "compute_residual_gradients"

inductive Fault
  | failed (text : String)
  /-- It broke off. What it said last may not be a text. -/
  | panicked (text : Option String)
  deriving DecidableEq, Inhabited

namespace Fault

def text : Fault → String
  | .failed text => text
  | .panicked (some text) => s!"panicked: {text}"
  | .panicked none => "panicked: unknown panic payload"

def toError (hook : Hook) (f : Fault) : Error := .callback hook.name f.text

end Fault

/-- A hook that declares things. It ends with a result, or makes a declaration and goes on when it
knows whether the declaration was accepted. -/
inductive Declaring (α : Type)
  | done (result : α)
  | declare (d : Declaration) (next : Except Error Unit → Declaring α)

namespace Declaring

variable {α β : Type}

def map (f : α → β) : Declaring α → Declaring β
  | .done a => .done (f a)
  | .declare d next => .declare d fun answer => (next answer).map f

def run : Declaring α → Metadata → α × Metadata
  | .done a, m => (a, m)
  | .declare d next, m =>
    let (answer, m) := m.record d
    (next answer).run m

end Declaring

end RemoteDiscipline
