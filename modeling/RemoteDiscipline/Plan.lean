import RemoteDiscipline.Chunk
import RemoteDiscipline.Hook
/-!
What there is to send, and how sending it ends.

A plan lists the chunks of one variable or of several, and the outcome when all of them are on
their way. Whoever carries it out looks before each chunk whether it has been told to stop. Replies
are planned from what a hook has left: up to the first result that is missing or has another length
than declared, which is then the hook's fault.
-/

namespace RemoteDiscipline

/-- A chunk, and how many chunks of the same variable come before it. -/
structure Parcel where
  chunk : Chunk
  position : Nat
  deriving DecidableEq, Inhabited

/-- Chunks to send in order, and the outcome when all are sent. -/
structure Plan where
  parcels : List Parcel
  ending : Except Error Unit

namespace Parcel

/-- The error of a sender that was told to stop before this chunk. -/
def stopped (p : Parcel) : Error :=
  .cancelled s!"stopped sending {p.chunk.role.text} '{p.chunk.name}' after {p.position} chunks"

end Parcel

namespace Plan

def empty : Plan := ⟨[], .ok ()⟩

def failed (e : Error) : Plan := ⟨[], .error e⟩

/-- One plan after the other, unless the first one ends in an error. -/
def append (p q : Plan) : Plan :=
  match p.ending with
  | .ok () => ⟨p.parcels ++ q.parcels, q.ending⟩
  | .error _ => p

def concat (plans : List Plan) : Plan := plans.foldr append empty

def ofVariable (tag : Tag) (v : Variable) (size : Nat) : Plan :=
  match v.chunks tag size with
  | .ok cs => ⟨cs.zipIdx.map fun c => ⟨c.1, c.2⟩, .ok ()⟩
  | .error e => failed e

def ofVariables (vs : List (Tag × Variable)) (size : Nat) : Plan :=
  concat (vs.map fun v => ofVariable v.1 v.2 size)

/-- Carries out a plan. Before each chunk the sender looks whether it has been told to stop; the
chunks go to `send`, and the first error ends it. -/
def transmit {s : Type} (stop : s → Bool) (send : Chunk → s → Except Error Unit × s) (p : Plan) :
    s → Except Error Unit × s :=
  go p.parcels
where
  /-- Sends the rest of the chunks. -/
  go : List Parcel → s → Except Error Unit × s
    | [], st => (p.ending, st)
    | c :: rest, st =>
      if stop st then (.error c.stopped, st)
      else
        match send c.chunk st with
        | (.error e, st) => (.error e, st)
        | (.ok (), st) => go rest st

end Plan

/-! ### Replies -/

/-- A declared result, and what the hook has left for it. -/
structure Outcome where
  tag : Tag
  /-- What explanations call it. -/
  label : String
  shape : Shape
  value : Option Variable

namespace Outcome

/-- The value, if it is there and has the declared length. -/
def checked (hook : Hook) (o : Outcome) : Except Error Variable :=
  match o.value with
  | none => .error (.callback hook.name s!"'{o.label}' was removed")
  | some v =>
    if v.length = o.shape.count then .ok v
    else .error (.callback hook.name
      (s!"'{o.label}' holds {v.length} values " ++
        s!"but its shape {o.shape.text} needs {o.shape.count}"))

def plan (hook : Hook) (size : Nat) (o : Outcome) : Plan :=
  match o.checked hook with
  | .ok v => .ofVariable o.tag v size
  | .error e => .failed e

end Outcome

def Metadata.outcomes (m : Metadata) : (y : Yield) → y.Values → List Outcome
  | .vectors role, values => m.outputs.map fun v =>
    ⟨.ofVariable v.name role, v.name, v.shape, Table.find? (κ := String) values v.name⟩
  | .blocks, values => m.blockList.map fun b =>
    ⟨.ofBlock b.key, b.key.text, b.shape, Table.find? (κ := BlockKey) values b.key⟩

/-- The chunks that answer a computation, given what its hook has left. -/
def Plan.reply (m : Metadata) (size : Nat) (c : Computation) (values : c.Values) : Plan :=
  .concat ((m.outcomes c.yield values).map (Outcome.plan (.compute c) size))

end RemoteDiscipline
