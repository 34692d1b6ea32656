import RemoteDiscipline.Options
import RemoteDiscipline.Variable
/-!
What is known about a discipline without running it: its properties, its variables, its Jacobian
blocks and its options.
-/

namespace RemoteDiscipline

structure Properties where
  name : String := ""
  version : String := ""
  continuous : Bool := true
  differentiable : Bool := true
  providesGradients : Bool := true
  deriving DecidableEq, Inhabited

structure VariableInfo where
  name : String
  role : Role
  shape : Shape
  units : String
  deriving DecidableEq, Inhabited

/-- A declared Jacobian block d(name)/d(inputName). -/
structure BlockInfo where
  name : String
  inputName : String
  shape : Shape
  deriving DecidableEq, Inhabited

structure OptionInfo where
  name : String
  type : OptionType
  deriving DecidableEq, Inhabited

def BlockInfo.key (b : BlockInfo) : BlockKey := ⟨b.name, b.inputName⟩

def VariableInfo.zeros (v : VariableInfo) : Variable := .zeros v.role v.shape

def VariableInfo.residual (v : VariableInfo) : Variable := .zeros .residual v.shape

def BlockInfo.zeros (b : BlockInfo) : Variable := .zeros .jacobian b.shape

/-- How many values a chunk carries, unless a client asks for another number. -/
def defaultChunkSize : Nat := 1000

def checkChunkSize (size : Nat) : Except Error Nat :=
  if size = 0 then .error (.config "stream chunk size must be > 0") else .ok size

end RemoteDiscipline
