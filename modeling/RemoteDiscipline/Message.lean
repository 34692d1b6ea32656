import RemoteDiscipline.Chunk
import RemoteDiscipline.Info
import RemoteDiscipline.Method
/-!
The messages that flow on a call, and what a receiver expects them to be.
-/

namespace RemoteDiscipline

inductive Message
  | empty
  | properties (p : Properties)
  /-- A chunk size, checked by the receiver. -/
  | streamOptions (chunkSize : Nat)
  | options (values : Options)
  | variableInfo (v : VariableInfo)
  | blockInfo (b : BlockInfo)
  | optionList (l : List OptionInfo)
  | chunk (c : Chunk)
  deriving DecidableEq, Inhabited

namespace Message

def kindName : Message → String
  | .empty => "empty"
  | .properties _ => "properties"
  | .streamOptions _ => "stream options"
  | .options _ => "options"
  | .variableInfo _ => "variable metadata"
  | .blockInfo _ => "partials metadata"
  | .optionList _ => "option list"
  | .chunk _ => "chunk"

def unexpected (wanted : String) (m : Message) : Error :=
  .protocol s!"expected {wanted} message, got {m.kindName}"

def expectEmpty : Message → Except Error Unit
  | .empty => .ok ()
  | m => .error (m.unexpected "empty")

def expectProperties : Message → Except Error Properties
  | .properties p => .ok p
  | m => .error (m.unexpected "properties")

def expectStreamOptions : Message → Except Error Nat
  | .streamOptions size => .ok size
  | m => .error (m.unexpected "stream options")

def expectOptions : Message → Except Error Options
  | .options values => .ok values
  | m => .error (m.unexpected "options")

def expectVariableInfo : Message → Except Error VariableInfo
  | .variableInfo v => .ok v
  | m => .error (m.unexpected "variable metadata")

def expectBlockInfo : Message → Except Error BlockInfo
  | .blockInfo b => .ok b
  | m => .error (m.unexpected "partials metadata")

def expectOptionList : Message → Except Error (List OptionInfo)
  | .optionList l => .ok l
  | m => .error (m.unexpected "option list")

def expectChunk : Message → Except Error Chunk
  | .chunk c => .ok c
  | m => .error (m.unexpected "chunk")

end Message

end RemoteDiscipline
