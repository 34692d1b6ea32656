import RemoteDiscipline.Info
/-!
What a discipline has declared: variables, Jacobian blocks and options.

Declarations are kept in the order in which they were made. An index leads from a name to the
position of its first declaration, so a second declaration of a name is recorded but never looked
up; `Metadata.validate` finds it.
-/

namespace RemoteDiscipline

/-- How a discipline defines its outputs. -/
inductive Kind
  /-- Outputs are computed from inputs. -/
  | explicit
  /-- Outputs are where the residuals vanish. -/
  | implicit
  deriving DecidableEq, Inhabited

namespace Kind

def all : List Kind := [.explicit, .implicit]

theorem mem_all (k : Kind) : k ∈ all := by cases k <;> decide

def text : Kind → String
  | .explicit => "explicit"
  | .implicit => "implicit"

/-- Whether a Jacobian block may be taken with respect to an output. -/
def allowsOutputAsInput : Kind → Bool
  | .explicit => false
  | .implicit => true

end Kind

inductive Declaration
  | input (name : String) (shape : Shape) (units : String)
  | output (name : String) (shape : Shape) (units : String)
  | option (name : String) (type : OptionType)
  | block (output input : String)
  deriving DecidableEq, Inhabited

structure Metadata where
  kind : Kind
  variableList : List VariableInfo
  blockList : List BlockInfo
  /-- The position of the first declaration of every name. -/
  index : Table String Nat
  options : Table String OptionType
  deriving Inhabited

namespace Metadata

def fresh (kind : Kind) : Metadata := ⟨kind, [], [], ∅, ∅⟩

/-! ### Looking up -/

/-- The first declaration of a variable. -/
def lookup (m : Metadata) (name : String) : Option VariableInfo :=
  match m.index.find? name with
  | some i => m.variableList[i]?
  | none => none

def inputs (m : Metadata) : List VariableInfo := m.variableList.filter fun v => v.role = .input

def outputs (m : Metadata) : List VariableInfo := m.variableList.filter fun v => v.role = .output

/-- The accepted options, in the order of their names. -/
def optionList (m : Metadata) : List OptionInfo := m.options.entries.map fun e => ⟨e.1, e.2⟩

/-- The first declaration of a variable, when it has one of the given roles. -/
def lookupRole (m : Metadata) (name : String) (roles : List Role) : Option VariableInfo :=
  (m.lookup name).filter fun v => roles.contains v.role

/-! ### Declaring

A declaration gives a result and the declarations after it, also when it is refused.
-/

def addVariable (m : Metadata) (role : Role) (name : String) (shape : Shape) (units : String) :
    Except Error Unit × Metadata :=
  if name.isEmpty then (.error (.config s!"{role.text} name must not be empty"), m)
  else (.ok (), { m with
    variableList := m.variableList ++ [⟨name, role, shape, units⟩]
    index :=
      match m.index.find? name with
      | some _ => m.index
      | none => m.index.insert name m.variableList.length })

/-- Records the type of an option, over what was recorded before. -/
def addOption (m : Metadata) (name : String) (type : OptionType) :
    Except Error Unit × Metadata :=
  if name.isEmpty then (.error (.config "option name must not be empty"), m)
  else (.ok (), { m with options := m.options.insert name type })

/-- The shape of the block d(output)/d(input). The first has to be a declared output and the second
a declared input, or an output where that is allowed. -/
def blockShape (m : Metadata) (output input : String) (allowOutputAsInput : Bool) :
    Except Error Shape :=
  match m.lookupRole output [.output] with
  | none => .error (.notFound s!"output '{output}' is not declared")
  | some f =>
    match m.lookupRole input (if allowOutputAsInput then [.input, .output] else [.input]) with
    | none =>
      let wanted := if allowOutputAsInput then "input or output" else "input"
      .error (.notFound s!"{wanted} '{input}' is not declared")
    | some x => .ok (.jacobian f.shape x.shape)

def addBlock (m : Metadata) (output input : String) : Except Error Unit × Metadata :=
  match m.blockShape output input m.kind.allowsOutputAsInput with
  | .error e => (.error e, m)
  | .ok shape => (.ok (), { m with blockList := m.blockList ++ [⟨output, input, shape⟩] })

def record (m : Metadata) : Declaration → Except Error Unit × Metadata
  | .input name shape units => m.addVariable .input name shape units
  | .output name shape units => m.addVariable .output name shape units
  | .option name type => m.addOption name type
  | .block output input => m.addBlock output input

/-- What a declaration leads to when it is accepted. -/
def declare (m : Metadata) (d : Declaration) : Except Error Metadata :=
  (m.record d).1.map fun _ => (m.record d).2

def clearVariables (m : Metadata) : Metadata := { m with variableList := [], index := ∅ }

def clearBlocks (m : Metadata) : Metadata := { m with blockList := [] }

/-! ### Validating -/

/-- The first element that occurs among the ones before it, which are `seen` at the start. -/
def firstRepeated {α : Type} [DecidableEq α] (seen : List α) : List α → Option α
  | [] => none
  | a :: rest => if a ∈ seen then some a else firstRepeated (a :: seen) rest

def validate (m : Metadata) : Except Error Unit :=
  match firstRepeated [] (m.variableList.map (·.name)) with
  | some name => .error (.config s!"variable '{name}' is declared more than once")
  | none =>
    match firstRepeated [] (m.blockList.map (·.key)) with
    | some key =>
      .error (.config s!"partials d{key.output}/d{key.input} are declared more than once")
    | none => .ok ()

/-! ### Buffers -/

def inputBuffers (m : Metadata) : Variables := .ofList (m.inputs.map fun v => (v.name, v.zeros))

def outputBuffers (m : Metadata) : Variables := .ofList (m.outputs.map fun v => (v.name, v.zeros))

def residualBuffers (m : Metadata) : Variables :=
  .ofList (m.outputs.map fun v => (v.name, v.residual))

def blockBuffers (m : Metadata) : Blocks := .ofList (m.blockList.map fun b => (b.key, b.zeros))

end Metadata

end RemoteDiscipline
