import RemoteDiscipline.Script.Edit
/-!
The actions that a scripted hook takes, and how each kind of hook takes them.

Actions run in order, up to the first that fails. A hook passes over actions that are meant for
hooks of another kind.
-/

namespace RemoteDiscipline.Script

/-- An extent of a shape: a number, or an option that holds one. -/
inductive Extent
  | size (n : Nat)
  | option (name : String)
  deriving Inhabited

inductive Units
  | text (s : String)
  | option (name : String)
  deriving Inhabited

inductive Draft
  | variable (role : Role) (name : String) (shape : List Extent) (units : Units)
  | option (name : String) (type : OptionType)
  | block (output input : String)
  deriving Inhabited

inductive Action
  /-- Fails with a message and the contexts around it, the innermost first. -/
  | fail (message : String) (contexts : List String)
  | panic (text : Option String)
  | declare (d : Draft)
  /-- Changes the result with this name and, for a block, this input. -/
  | edit (name input : String) (e : Edit)
  deriving Inhabited

def Extent.resolve (options : Options) : Extent → Except Fault Nat
  | .size n => .ok n
  | .option name =>
    match (options.find? name).bind OptionValue.asInt? with
    | some (.ofNat n) => .ok n
    | _ => .error (.failed s!"option '{name}' is not a size")

/-- The units, which are empty when the option does not hold a text. -/
def Units.resolve (options : Options) : Units → String
  | .text s => s
  | .option name => ((options.find? name).bind OptionValue.asString?).getD ""

def Draft.resolve (options : Options) : Draft → Except Fault Declaration
  | .variable role name shape units => do
    let shape ← shape.mapM (Extent.resolve options)
    if role = .input then return .input name shape (units.resolve options)
    else return .output name shape (units.resolve options)
  | .option name type => .ok (.option name type)
  | .block output input => .ok (.block output input)

def Action.fault? : Action → Option Fault
  | .fail message contexts =>
    some (.failed (String.intercalate ": " (contexts.reverse ++ [message])))
  | .panic text => some (.panicked text)
  | _ => none

def perform : List Action → Except Fault Unit
  | [] => .ok ()
  | a :: rest =>
    match a.fault? with
    | some f => .error f
    | none => perform rest

/-- The actions of a hook that cannot fail, but can break off. -/
def performSilently : List Action → Except Fault Unit
  | [] => .ok ()
  | .panic text :: _ => .error (.panicked text)
  | _ :: rest => performSilently rest

/-- The actions of a hook that declares things. A refused declaration fails the hook. -/
def performDeclaring (options : Options) : List Action → Declaring (Except Fault Unit)
  | [] => .done (.ok ())
  | a :: rest =>
    match a.fault? with
    | some f => .done (.error f)
    | none =>
      match a with
      | .declare draft =>
        match draft.resolve options with
        | .error f => .done (.error f)
        | .ok d => .declare d fun
          | .ok () => performDeclaring options rest
          | .error e => .done (.error (.failed e.text))
      | _ => performDeclaring options rest

def performEditing {κ : Type} [Key κ] (find : String → Option Variable)
    (key : String → String → κ) :
    List Action → Table κ Variable → Except Fault (Table κ Variable)
  | [], values => .ok values
  | a :: rest, values =>
    match a.fault? with
    | some f => .error f
    | none =>
      match a with
      | .edit name input e =>
        match e.apply find (key name input) name values with
        | .error f => .error f
        | .ok values => performEditing find key rest values
      | _ => performEditing find key rest values

end RemoteDiscipline.Script
