import RemoteDiscipline.Discipline
import RemoteDiscipline.Message
/-!
How the chunks of a request become the arguments of a compute hook.

The arguments start as zeros, sized by the declarations. Every chunk has to name a declared
variable, to carry its role, and to have a role that the computation takes; it is then written over
what came before. The first chunk that breaks a rule ends the call.
-/

namespace RemoteDiscipline

namespace Arguments

def zeros (m : Metadata) (c : Computation) : Arguments where
  inputs := m.inputBuffers
  outputs := if c.takesOutputs then m.outputBuffers else ∅

def unknown (name : String) : Error := .protocol s!"Variable not found: {name}"

/-- `values` with a chunk written into the variable that it names. -/
def write (values : Variables) (c : Chunk) : Except Error Variables :=
  match values.find? c.name with
  | none => .error (unknown c.name)
  | some v => (v.assign c).map fun v => values.insert c.name v

def accept (m : Metadata) (computation : Computation) (a : Arguments) (c : Chunk) :
    Except Error Arguments :=
  match m.lookup c.name with
  | none => .error (unknown c.name)
  | some declared =>
    if c.role ≠ declared.role then
      .error (.protocol
        (s!"Type mismatch for variable '{c.name}': chunk is {c.role.text} " ++
          s!"but it is declared {declared.role.text}"))
    else if declared.role = .input then
      (write a.inputs c).map fun inputs => { a with inputs }
    else if declared.role = .output ∧ computation.takesOutputs then
      (write a.outputs c).map fun outputs => { a with outputs }
    else
      .error (.protocol
        (s!"{computation.name} does not accept {declared.role.text} variable " ++ s!"'{c.name}'"))

def receive (m : Metadata) (computation : Computation) (a : Arguments) (message : Message) :
    Except Error Arguments :=
  match message.expectChunk with
  | .error e => .error e
  | .ok c => a.accept m computation c

end Arguments

end RemoteDiscipline
