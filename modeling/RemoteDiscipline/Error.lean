import RemoteDiscipline.Duration
import RemoteDiscipline.Status
/-!
What can go wrong, on either side of a call.

Every failure that can cross a call has one kind of error and, from there, one status code. A
client turns the status of a failed call back into an error; the code decides which kind.
-/

namespace RemoteDiscipline

inductive Error
  /-- The other side broke the rules of the conversation. -/
  | protocol (message : String)
  | notFound (message : String)
  /-- An index or a length does not fit. -/
  | bounds (message : String)
  /-- The discipline is not in a state that allows the request. -/
  | precondition (message : String)
  | config (message : String)
  /-- A hook of the discipline failed. -/
  | callback (hook message : String)
  | transport (message : String)
  | serialization (message : String)
  /-- A call ran out of the time it was given. -/
  | timeout (milliseconds : Nat) (message : String)
  | cancelled (message : String)
  /-- The other side ended the call with a status of no other kind. -/
  | remote (code : StatusCode) (message : String)
  deriving DecidableEq, Inhabited

namespace Error

def text : Error → String
  | .protocol message => s!"protocol error: {message}"
  | .notFound message => s!"not found: {message}"
  | .bounds message => s!"bounds error: {message}"
  | .precondition message => s!"precondition failed: {message}"
  | .config message => s!"configuration error: {message}"
  | .callback hook message => s!"{hook} failed: {message}"
  | .transport message => s!"transport error: {message}"
  | .serialization message => s!"serialization error: {message}"
  | .timeout milliseconds message => s!"RPC timeout after {milliseconds}ms: {message}"
  | .cancelled message => s!"cancelled: {message}"
  | .remote code message => s!"RPC failed [{code.text}]: {message}"

def code : Error → StatusCode
  | .protocol _ | .notFound _ | .bounds _ | .config _ => .invalidArgument
  | .precondition _ => .failedPrecondition
  | .callback _ _ | .transport _ | .serialization _ => .internal
  | .timeout _ _ => .deadlineExceeded
  | .cancelled _ => .cancelled
  | .remote code _ => code

/-- The status that reports an error: its code and its whole text. -/
def toStatus (e : Error) : Status := ⟨e.code, e.text⟩

/-- The error of a call that ended with `status`, where `timeout` is the time it was given. -/
def ofStatus (status : Status) (timeout : Duration) : Error :=
  match status.code with
  | .deadlineExceeded => .timeout timeout.announced status.message
  | .cancelled => .cancelled status.message
  | .unavailable => .transport status.message
  | code => .remote code status.message

end Error

end RemoteDiscipline
