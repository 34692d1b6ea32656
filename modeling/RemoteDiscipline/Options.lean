import RemoteDiscipline.Binary64
import RemoteDiscipline.Table
/-!
Options that a client sends to a discipline, and the types a discipline announces for them.
-/

namespace RemoteDiscipline

/-- The announced type of an option. -/
inductive OptionType
  | bool
  | int
  | double
  | string
  deriving DecidableEq, Inhabited

namespace OptionType

def all : List OptionType := [.bool, .int, .double, .string]

theorem mem_all (t : OptionType) : t ∈ all := by cases t <;> decide

def text : OptionType → String
  | .bool => "bool"
  | .int => "int"
  | .double => "double"
  | .string => "string"

/-- The type with some name. A name that is not known stands for text. -/
def ofName : String → OptionType
  | "bool" => .bool
  | "int" => .int
  | "double" => .double
  | "float" => .double
  | _ => .string

end OptionType

/-- The value of an option. Integers are signed and 64 bits wide. -/
inductive OptionValue
  | bool (b : Bool)
  | int (i : Int)
  | double (x : Binary64)
  | string (s : String)
  deriving DecidableEq, Inhabited

namespace OptionValue

def type : OptionValue → OptionType
  | .bool _ => .bool
  | .int _ => .int
  | .double _ => .double
  | .string _ => .string

def asBool? : OptionValue → Option Bool
  | .bool b => some b
  | _ => none

def asInt? : OptionValue → Option Int
  | .int i => some i
  | _ => none

/-- The value as a floating-point number; an integer counts as the nearest one. -/
def asDouble? : OptionValue → Option Binary64
  | .double x => some x
  | .int i => some (.ofInt i)
  | _ => none

def asString? : OptionValue → Option String
  | .string s => some s
  | _ => none

end OptionValue

abbrev Options := Table String OptionValue

end RemoteDiscipline
