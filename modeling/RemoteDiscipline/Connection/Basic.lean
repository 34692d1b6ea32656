import RemoteDiscipline.Config
import RemoteDiscipline.Service.Basic
import RemoteDiscipline.Wire.Reading
/-!
The server's end of a connection, which carries one call.

The first frame opens the call. From then on a reader puts what the client sends into the call's
inbox, a service answers the call, and a writer puts what is in the outbox on the stream; at the end
one closing frame with the status follows. A stream that breaks off is never mistaken for one that
has ended: the reader leaves an error in the inbox and tells the call to stop. A writer that fails,
because the client is gone or a message is too long, is not replaced: what is left in the outbox is
lost, and no status is written. The server is patient with a client that goes on sending after the
end; a client whose writer has failed is not kept waiting here for that.
-/

namespace RemoteDiscipline

/-- How many bytes wait in one direction of a connection within a process: 64 KiB. -/
def pipeBytes : Nat := 64 * 1024

/-- What the reader of a connection is doing. -/
inductive Reader
  | reading
  /-- A message waits for room in the inbox. -/
  | holding (m : Message)
  /-- The error that ends the inbox waits for room. -/
  | failing (e : Error)
  /-- Nothing goes to the inbox any more, but the end of the stream still tells the call to stop. -/
  | draining
  | stopped

/-- The time that a client gives to its call, and when it is over. -/
structure Deadline where
  time : Nat
  timeout : Nat

inductive Phase (τ : Type)
  /-- The first frame is awaited. -/
  | opening
  | serving (reader : Reader) (call : Served τ) (deadline : Option Deadline)
  /-- All is written; what the client still sends is passed over. -/
  | lingering
  | closed

/-- The server's end of a connection. -/
structure Connection (τ : Type) where
  limits : Limits
  /-- What has arrived and not been read. -/
  input : List UInt8
  /-- Whether nothing more arrives. -/
  inputEnded : Bool
  /-- What has been written and not been taken, the latest first. -/
  output : List (List UInt8)
  /-- Whether nobody takes the output any more. -/
  abandoned : Bool
  phase : Phase τ

namespace Connection

variable {ω τ : Type}

def fresh (limits : Limits) : Connection τ where
  limits := limits
  input := []
  inputEnded := false
  output := []
  abandoned := false
  phase := .opening

def isEnded (c : Connection τ) : Bool :=
  match c.phase with
  | .lingering | .closed => true
  | _ => false

/-- Whether whatever arrives is taken off the stream. -/
def isTaking (c : Connection τ) : Bool :=
  match c.phase with
  | .serving (.holding _) _ _ | .serving (.failing _) _ _ => false
  | _ => true

def backlog (c : Connection τ) : Nat := c.output.flatten.length

def write (f : Frame) (c : Connection τ) : Connection τ :=
  { c with output := match f.pack with
      | .ok bytes => bytes :: c.output
      | .error _ => c.output }

/-! ### Opening -/

/-- Reads the first frame. A stream that ends before it gets no answer. -/
def openCall (s : Service ω τ) (now : Nat) (c : Connection τ) : Option (Connection τ) :=
  match Frame.read c.limits.maxFrameBytes c.inputEnded c.input with
  | .waiting => none
  | .ended | .fault _ _ => some { c with phase := .closed }
  | .frame f rest =>
    let refuse (status : Status) : Option (Connection τ) :=
      some { c.write (.close status) with input := rest, phase := .closed }
    match f with
    | .opening version method timeout =>
      if version = protocolVersion then
        let deadline := if timeout = 0 then none
          else some ⟨Duration.deadline now timeout, timeout⟩
        let call := Served.begin s (.fresh method c.limits.channelCapacity true)
        some { c with input := rest, phase := .serving .reading call deadline }
      else
        refuse (.unimplemented
          (s!"protocol version {version} not supported " ++
            s!"(server speaks {protocolVersion})"))
    | f => refuse (.invalidArgument s!"expected open frame, got {f.name}")

/-! ### Reading -/

/-- What the reader makes of a frame, or of the lack of one. -/
inductive Heard
  | message (m : Message)
  | halfClose
  /-- The client has given up, or makes no sense. -/
  | failure (e : Error)

def hear (c : Connection τ) : Option (Heard × List UInt8) :=
  match Frame.read c.limits.maxFrameBytes c.inputEnded c.input with
  | .waiting => none
  | .ended => some (.failure (.cancelled "client closed the stream"), c.input)
  | .fault f rest => some (.failure (.transport s!"reading client stream: {f.text}"), rest)
  | .frame (.message m) rest => some (.message m, rest)
  | .frame .halfClose rest => some (.halfClose, rest)
  | .frame .cancel rest => some (.failure (.cancelled "call cancelled by client"), rest)
  | .frame f rest => some (.failure (.protocol s!"unexpected {f.name} frame from client"), rest)

def isListening (call : Served τ) : Bool := call.status?.isNone

def hasRoom (c : Connection τ) (call : Served τ) : Bool := call.unread < c.limits.channelCapacity

def readStep (c : Connection τ) (reader : Reader) (call : Served τ) :
    Option (Reader × Served τ × List UInt8) :=
  match reader with
  | .reading =>
    c.hear.map fun
      | (.message m, rest) => (.holding m, call, rest)
      | (.halfClose, rest) => (.draining, call.onCall Call.halfClose, rest)
      | (.failure e, rest) => (.failing e, call.onCall Call.cancel, rest)
  | .holding m =>
    if !isListening call then some (.draining, call, c.input)
    else if c.hasRoom call then some (.reading, call.onCall (·.feed [.ok m]), c.input)
    else none
  | .failing e =>
    if !isListening call then some (.stopped, call, c.input)
    else if c.hasRoom call then
      some (.stopped, call.onCall fun k => (k.feed [.error e]).halfClose, c.input)
    else none
  | .draining =>
    c.hear.map fun
      | (.failure _, rest) => (.stopped, call.onCall Call.cancel, rest)
      | (_, rest) => (.draining, call, rest)
  | .stopped => none

/-! ### Writing -/

/-- Whether the writer can begin with a frame, when `waiting` bytes lie before a client that does
not read. A client that reads is given as `none`. -/
def canWrite (c : Connection τ) (waiting : Option Nat) : Bool :=
  match waiting with
  | none => true
  | some n => n + c.backlog ≤ pipeBytes

def isRefused (c : Connection τ) (f : Frame) : Bool := c.abandoned || !f.isAnnounceable

/-- One step of the writer: a message of the outbox, or the closing frame when the call has ended.
After the first message that cannot be written nothing is written any more. -/
def writeStep (c : Connection τ) (waiting : Option Nat) (reader : Reader) (call : Served τ)
    (deadline : Option Deadline) : Option (Connection τ) :=
  match call.outbox.items with
  | m :: rest =>
    if c.isRefused (.message m) then
      some { c with phase := .serving reader (call.onCall Call.dropReader) deadline }
    else if c.canWrite waiting then
      some { c.write (.message m) with
        phase := .serving reader { call with outbox := { call.outbox with items := rest } } deadline }
    else none
  | [] =>
    match call.progress with
    | .running _ => none
    | .ended status =>
      if c.isRefused (.close status) || !call.outbox.isOpen then some { c with phase := .lingering }
      else if c.canWrite waiting then some { c.write (.close status) with phase := .lingering }
      else none

/-! ### Steps -/

/-- One step of a connection: the reader goes first, then the service, then the writer. -/
def step (s : Service ω τ) (now : Nat) (waiting : Option Nat) (w : ω) (c : Connection τ) :
    Option (ω × Connection τ) :=
  match c.phase with
  | .opening => (c.openCall s now).map fun c => (w, c)
  | .serving reader call deadline =>
    match c.readStep reader call with
    | some (reader, call, rest) =>
      some (w, { c with input := rest, phase := .serving reader call deadline })
    | none =>
      match call.advance s w with
      | some (w, call) => some (w, { c with phase := .serving reader call deadline })
      | none => (c.writeStep waiting reader call deadline).map fun c => (w, c)
  | .lingering | .closed => none

def deadline? (c : Connection τ) : Option Deadline :=
  match c.phase with
  | .serving _ ⟨_, .running _⟩ deadline => deadline
  | _ => none

def expire (s : Service ω τ) (w : ω) (c : Connection τ) : ω × Connection τ :=
  match c.phase with
  | .serving reader ⟨call, .running t⟩ (some d) =>
    let status := Status.deadlineExceeded
      s!"{call.method.name} did not finish within {d.timeout}ms"
    (s.abandon w t, { c with phase := .serving reader ⟨call.cancel, .ended status⟩ (some d) })
  | _ => (w, c)

def arrive (bytes : List UInt8) (c : Connection τ) : Connection τ :=
  { c with input := c.input ++ bytes }

def endInput (c : Connection τ) : Connection τ := { c with inputEnded := true }

/-- The client is gone: nothing more arrives, and nobody takes the output. -/
def hangUp (c : Connection τ) : Connection τ := { c with inputEnded := true, abandoned := true }

def takeOutput (c : Connection τ) : List UInt8 × Connection τ :=
  (c.output.reverse.flatten, { c with output := [] })

end Connection

end RemoteDiscipline
