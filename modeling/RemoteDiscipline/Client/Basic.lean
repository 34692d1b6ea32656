import RemoteDiscipline.Client.Call
import RemoteDiscipline.Config
/-!
A client of a discipline: what it knows, and how it asks for more.

A client keeps the answers of its negotiation. Each of them is replaced only by a whole new answer,
so a request that fails leaves the client as it was.
-/

namespace RemoteDiscipline

structure Client where
  config : ClientConfig
  /-- The time from which on computations are given up. -/
  called : Option Nat := none
  properties : Option Properties := none
  variableList : List VariableInfo := []
  blockList : List BlockInfo := []
  /-- Whether the variables have been asked for. -/
  hasDefinitions : Bool := false

namespace Client

variable {ω τ α : Type}

/-! ### Settings -/

def setStreamOptions (chunkSize : Nat) (c : Client) : Except Error Unit × Client :=
  match checkChunkSize chunkSize with
  | .error e => (.error e, c)
  | .ok size => (.ok (), { c with config := { c.config with chunkSize := size } })

def setTimeout (timeout : Duration) (c : Client) : Client :=
  { c with config := { c.config with timeout := timeout } }

def variableInfo (name : String) (c : Client) : Except Error VariableInfo :=
  match c.variableList.find? fun v => v.name = name with
  | some v => .ok v
  | none => .error (.notFound s!"Variable not found: {name}")

/-! ### Requests -/

/-- A unary call, and what the response is expected to hold. -/
def unary (s : Service ω τ) (m : Negotiation) (request : Message)
    (expect : Message → Except Error α) (c : Client) (n : Network ω) :
    Except Error α × Network ω :=
  let (r, n) := ClientCall.unary s n (.negotiate m) request c.config.timeout c.config.maxFrameBytes
  (r.bind expect, n)

def stream (s : Service ω τ) (m : Negotiation) (expect : Message → Except Error α) (c : Client)
    (n : Network ω) : Except Error (List α) × Network ω :=
  let (r, n) := ClientCall.request s n (.negotiate m) .empty c.config.timeout c.config.maxFrameBytes
  (r.bind fun ms => ms.mapM expect, n)

def getInfo (s : Service ω τ) (c : Client) (n : Network ω) :
    Except Error Properties × Client × Network ω :=
  match c.unary s .getInfo .empty Message.expectProperties n with
  | (.ok p, n) => (.ok p, { c with properties := some p }, n)
  | (.error e, n) => (.error e, c, n)

def sendStreamOptions (s : Service ω τ) (c : Client) (n : Network ω) :
    Except Error Unit × Network ω :=
  c.unary s .setStreamOptions (.streamOptions c.config.chunkSize) Message.expectEmpty n

def sendOptions (s : Service ω τ) (values : Options) (c : Client) (n : Network ω) :
    Except Error Unit × Network ω :=
  c.unary s .setOptions (.options values) Message.expectEmpty n

def setup (s : Service ω τ) (c : Client) (n : Network ω) : Except Error Unit × Network ω :=
  c.unary s .setup .empty Message.expectEmpty n

def getVariables (s : Service ω τ) (c : Client) (n : Network ω) :
    Except Error (List VariableInfo) × Client × Network ω :=
  match c.stream s .getVariableDefinitions Message.expectVariableInfo n with
  | (.ok l, n) => (.ok l, { c with variableList := l, hasDefinitions := true }, n)
  | (.error e, n) => (.error e, c, n)

def getBlocks (s : Service ω τ) (c : Client) (n : Network ω) :
    Except Error (List BlockInfo) × Client × Network ω :=
  match c.stream s .getPartialDefinitions Message.expectBlockInfo n with
  | (.ok l, n) => (.ok l, { c with blockList := l }, n)
  | (.error e, n) => (.error e, c, n)

def getOptions (s : Service ω τ) (c : Client) (n : Network ω) :
    Except Error (List OptionInfo) × Network ω :=
  c.unary s .getAvailableOptions .empty Message.expectOptionList n

/-- The whole negotiation: the properties, the stream options, the options if there are any, the
setup, and then what it declared. The first failure ends it. -/
def negotiate (s : Service ω τ) (values : Options) (c : Client) (n : Network ω) :
    Except Error Unit × Client × Network ω :=
  match c.getInfo s n with
  | (.error e, c, n) => (.error e, c, n)
  | (.ok _, c, n) =>
    match c.sendStreamOptions s n with
    | (.error e, n) => (.error e, c, n)
    | (.ok (), n) =>
      match (if values.isEmpty then (.ok (), n) else c.sendOptions s values n) with
      | (.error e, n) => (.error e, c, n)
      | (.ok (), n) =>
        match c.setup s n with
        | (.error e, n) => (.error e, c, n)
        | (.ok (), n) =>
          match c.getVariables s n with
          | (.error e, c, n) => (.error e, c, n)
          | (.ok _, c, n) =>
            match c.getBlocks s n with
            | (.error e, c, n) => (.error e, c, n)
            | (.ok _, c, n) => (.ok (), c, n)

end Client

end RemoteDiscipline
