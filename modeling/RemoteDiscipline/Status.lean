/-!
The status that ends a call: a code and a text.
-/

namespace RemoteDiscipline

inductive StatusCode
  | ok
  | cancelled
  | invalidArgument
  | deadlineExceeded
  | failedPrecondition
  | unimplemented
  | internal
  | unavailable
  deriving DecidableEq, Inhabited

namespace StatusCode

/-- Every code, in the order in which the wire numbers them. -/
def all : List StatusCode :=
  [.ok, .cancelled, .invalidArgument, .deadlineExceeded, .failedPrecondition, .unimplemented,
    .internal, .unavailable]

theorem mem_all (c : StatusCode) : c ∈ all := by cases c <;> decide

def text : StatusCode → String
  | .ok => "ok"
  | .cancelled => "cancelled"
  | .invalidArgument => "invalid-argument"
  | .deadlineExceeded => "deadline-exceeded"
  | .failedPrecondition => "failed-precondition"
  | .unimplemented => "unimplemented"
  | .internal => "internal"
  | .unavailable => "unavailable"

end StatusCode

structure Status where
  code : StatusCode
  message : String
  deriving DecidableEq, Inhabited

namespace Status

def ok : Status := ⟨.ok, ""⟩

def cancelled (message : String) : Status := ⟨.cancelled, message⟩

def invalidArgument (message : String) : Status := ⟨.invalidArgument, message⟩

def deadlineExceeded (message : String) : Status := ⟨.deadlineExceeded, message⟩

def failedPrecondition (message : String) : Status := ⟨.failedPrecondition, message⟩

def unimplemented (message : String) : Status := ⟨.unimplemented, message⟩

def internal (message : String) : Status := ⟨.internal, message⟩

def unavailable (message : String) : Status := ⟨.unavailable, message⟩

def isOk (s : Status) : Bool := s.code = .ok

def text (s : Status) : String := s!"[{s.code.text}] {s.message}"

end Status

end RemoteDiscipline
