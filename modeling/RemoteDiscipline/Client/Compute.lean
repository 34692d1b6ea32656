import RemoteDiscipline.Client.Assembly
import RemoteDiscipline.Client.Basic
import RemoteDiscipline.Discipline
import RemoteDiscipline.Plan
/-!
Computations as a client makes them.

Of the given values those are sent that were declared with the right role; they have to have the
declared lengths. Then the results are put together. A client that is called away stops sending,
tells the server to give up, and returns no values.
-/

namespace RemoteDiscipline

namespace Client

variable {ω τ : Type}

/-- The declared variables of a role that are among some values, in the order of their declarations.
-/
def selected (c : Client) (role : Role) (values : Variables) :
    Except Error (List (Tag × Variable)) :=
  if !c.hasDefinitions then .error (.precondition "variable definitions have not been fetched")
  else select (c.variableList.filter fun v => v.role = role)
where
  /-- The values of some declared variables. -/
  select : List VariableInfo → Except Error (List (Tag × Variable))
    | [] => .ok []
    | info :: rest =>
      match values.find? info.name with
      | none => select rest
      | some v =>
        if v.length = info.shape.count then
          (select rest).map fun l => (.ofVariable info.name role, v) :: l
        else .error (.bounds
          (s!"{role.text} '{info.name}' holds {v.length} values " ++
            s!"but is declared with shape {info.shape.text}"))

def outgoing (c : Client) (k : Computation) (a : Arguments) :
    Except Error (List (Tag × Variable)) :=
  match c.selected .input a.inputs with
  | .error e => .error e
  | .ok inputs =>
    if k.takesOutputs then (c.selected .output a.outputs).map fun outputs => inputs ++ outputs
    else .ok inputs

/-! ### Requests -/

/-- A call, the frames of the request that have been written on it, and what came of each. -/
structure Transcript (ω τ : Type) where
  call : ClientCall ω τ
  written : List (Frame × Except Error Unit)

namespace Transcript

variable (s : Service ω τ) (meanwhile : Nat → Line ω τ → Line ω τ)

/-- A frame has been written, and then the line changes for other reasons. -/
def note (f : Frame) (r : Except Error Unit) (x : Transcript ω τ) : Transcript ω τ where
  call := { x.call with line := meanwhile x.written.length x.call.line }
  written := x.written ++ [(f, r)]

def write (f : Frame) (x : Transcript ω τ) : Except Error Unit × Transcript ω τ :=
  let (r, call) := x.call.write s f
  (r, { x with call }.note meanwhile f r)

def cancel (x : Transcript ω τ) : Transcript ω τ :=
  if x.call.finished then x else (x.write s meanwhile .cancel).2

def opened (call : ClientCall ω τ) : Transcript ω τ :=
  Transcript.note meanwhile (.opening protocolVersion call.method call.timeout.announced) (.ok ())
    ⟨call, []⟩

end Transcript

/-- Carries out a plan on a call, while the line changes after each frame. A client that is called
away tells the server to give up. -/
def transmitAmid (s : Service ω τ) (meanwhile : Nat → Line ω τ → Line ω τ) (c : Client) (p : Plan)
    (x : Transcript ω τ) : Except Error Unit × Transcript ω τ :=
  match p.transmit (fun x => x.call.line.isDue c.called)
      (fun k x => x.write s meanwhile (.message (.chunk k))) x with
  | (.error (.cancelled m), x) => (.error (.cancelled m), x.cancel s meanwhile)
  | r => r

def collect (s : Service ω τ) (c : Client) (y : Yield) (call : ClientCall ω τ) :
    Except Error y.Values × ClientCall ω τ :=
  let accept (m : Message) (a : Assembly y) : Except Error (Assembly y) :=
    match m.expectChunk with
    | .error e => .error e
    | .ok k => a.accept k
  let (r, call) := call.receiveAll s c.called accept (.start c.variableList c.blockList y)
  (r.bind fun a => a.finish, call)

/-- Sends what is planned, while the line changes after each frame, and puts the results together. -/
def exchangeAmid (s : Service ω τ) (meanwhile : Nat → Line ω τ → Line ω τ) (c : Client) (p : Plan)
    (y : Yield) (x : Transcript ω τ) : Except Error y.Values × Transcript ω τ :=
  match c.transmitAmid s meanwhile p x with
  | (.error e, x) => (.error e, x)
  | (.ok (), x) =>
    match x.write s meanwhile .halfClose with
    | (.error e, x) => (.error e, x)
    | (.ok (), x) =>
      let (r, call) := c.collect s y x.call
      (r, { x with call })

def transmit (s : Service ω τ) (c : Client) (p : Plan) (call : ClientCall ω τ) :
    Except Error Unit × ClientCall ω τ :=
  let (r, x) := c.transmitAmid s (fun _ => id) p (.opened (fun _ => id) call)
  (r, x.call)

def exchange (s : Service ω τ) (c : Client) (p : Plan) (y : Yield) (call : ClientCall ω τ) :
    Except Error y.Values × ClientCall ω τ :=
  let (r, x) := c.exchangeAmid s (fun _ => id) p y (.opened (fun _ => id) call)
  (r, x.call)

/-! ### Computations -/

def compute (s : Service ω τ) (k : Computation) (a : Arguments) (c : Client) (n : Network ω) :
    Except Error k.Values × Network ω :=
  match c.outgoing k a with
  | .error e => (.error e, n)
  | .ok l =>
    let plan := Plan.ofVariables l c.config.chunkSize
    ClientCall.within s n (.compute k) c.config.timeout c.config.maxFrameBytes
      (c.exchange s plan k.yield)

end Client

end RemoteDiscipline
