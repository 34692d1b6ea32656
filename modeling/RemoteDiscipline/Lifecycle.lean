import RemoteDiscipline.Discipline
/-!
The life of a discipline: from its registration to the point where it can compute.

A discipline is initialised once. After that options can be set and it can be set up, in any order
and any number of times; only a setup that went well makes it ready, and setting options afterwards
takes that back. Every operation gives a result and the lifecycle after it, also when it fails. The
generation counts the setups, so that a call can tell whether the declarations it has seen are still
the current ones.
-/

namespace RemoteDiscipline

/-- How far a discipline has come. A setup that goes well passes at once from its declared blocks to
the last state, so these have no state of their own. -/
inductive LifecycleState
  /-- Registered. -/
  | created
  /-- The options are declared. -/
  | initialised
  /-- Options are set. -/
  | configured
  | variablesDeclared
  /-- The declarations are valid, and computations are accepted. -/
  | ready
  deriving DecidableEq, Inhabited

namespace LifecycleState

def text : LifecycleState → String
  | .created => "Created"
  | .initialised => "Initialized"
  | .configured => "Configured"
  | .variablesDeclared => "VariablesDeclared"
  | .ready => "Ready"

def rank : LifecycleState → Nat
  | .created => 0
  | .initialised => 1
  | .configured => 2
  | .variablesDeclared => 3
  | .ready => 4

def earlier (a b : LifecycleState) : LifecycleState := if a.rank ≤ b.rank then a else b

end LifecycleState

structure Lifecycle (σ : Type) where
  discipline : Discipline σ
  memory : σ
  metadata : Metadata
  /-- How many values a chunk carries on the way to a client. -/
  chunkSize : Nat
  state : LifecycleState
  generation : Nat

namespace Lifecycle

variable {σ : Type}

def register (d : Discipline σ) (memory : σ) : Lifecycle σ where
  discipline := d
  memory := memory
  metadata := .fresh d.kind
  chunkSize := defaultChunkSize
  state := .created
  generation := 0

def kind (l : Lifecycle σ) : Kind := l.discipline.kind

def isReady (l : Lifecycle σ) : Bool := l.state = .ready

/-! ### Running hooks -/

/-- Keeps what a plain hook has left in the memory, and names the hook if it failed. -/
def afterHook {α : Type} (l : Lifecycle σ) (hook : Hook) (r : Except Fault α × σ) :
    Except Error α × Lifecycle σ :=
  (r.1.mapError (Fault.toError hook), { l with memory := r.2 })

def runDeclaring (l : Lifecycle σ) (hook : Hook)
    (program : σ → Declaring (Except Fault Unit × σ)) : Except Error Unit × Lifecycle σ :=
  let (r, m) := (program l.memory).run l.metadata
  { l with metadata := m }.afterHook hook r

/-- Runs a hook that declares things, and then looks for declarations that were made twice. -/
def runValidated (l : Lifecycle σ) (hook : Hook)
    (program : σ → Declaring (Except Fault Unit × σ)) : Except Error Unit × Lifecycle σ :=
  match l.runDeclaring hook program with
  | (.error e, l) => (.error e, l)
  | (.ok (), l) => (l.metadata.validate.mapError fun e => .callback hook.name e.text, l)

/-! ### Operations -/

def properties (l : Lifecycle σ) : Except Error Properties × Lifecycle σ :=
  l.afterHook .properties (l.discipline.properties l.memory)

def refuse (l : Lifecycle σ) (action : String) : Error :=
  .precondition s!"cannot {action} a discipline in state {l.state.text}"

/-- Runs the hook that declares the options. This happens once. -/
def initialise (l : Lifecycle σ) : Except Error Unit × Lifecycle σ :=
  if l.state = .created then
    match l.runDeclaring .initialise l.discipline.initialise with
    | (.error e, l) => (.error e, l)
    | (.ok (), l) => (.ok (), { l with state := .initialised })
  else (.error (l.refuse "initialize"), l)

def setStreamOptions (l : Lifecycle σ) (chunkSize : Nat) : Except Error Unit × Lifecycle σ :=
  match checkChunkSize chunkSize with
  | .error e => (.error e, l)
  | .ok size => (.ok (), { l with chunkSize := size })

/-- Hands options to the discipline and lets it take them in. It has to be set up again before it
computes. -/
def setOptions (l : Lifecycle σ) (values : Options) : Except Error Unit × Lifecycle σ :=
  if l.state = .created then (.error (l.refuse "set options"), l)
  else
    match l.afterHook .setOptions (l.discipline.setOptions values l.memory) with
    | (.error e, l) => (.error e, l)
    | (.ok (), l) =>
      match l.afterHook .configure (l.discipline.configure l.memory) with
      | (.error e, l) => (.error e, l)
      | (.ok (), l) => (.ok (), { l with state := .configured })

/-- Forgets the declared variables and blocks, as the start of a new setup. -/
def beginSetup (l : Lifecycle σ) : Lifecycle σ :=
  { l with
    metadata := l.metadata.clearVariables.clearBlocks
    state := l.state.earlier .configured
    generation := l.generation + 1 }

/-- Declares the variables and blocks anew. When it fails the state tells how far it came. -/
def setup (l : Lifecycle σ) : Except Error Unit × Lifecycle σ :=
  if l.state = .created then (.error (l.refuse "set up"), l)
  else
    match l.beginSetup.runValidated .setup l.discipline.setup with
    | (.error e, l) => (.error e, l)
    | (.ok (), l) =>
      match { l with state := .variablesDeclared }.runValidated .setupPartials
          l.discipline.setupPartials with
      | (.error e, l) => (.error e, l)
      | (.ok (), l) => (.ok (), { l with state := .ready })

def requireReady (l : Lifecycle σ) : Except Error Unit :=
  if l.state = .ready then .ok ()
  else .error (.precondition s!"discipline is not set up (state {l.state.text})")

end Lifecycle

end RemoteDiscipline
