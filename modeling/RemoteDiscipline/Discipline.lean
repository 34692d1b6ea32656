import RemoteDiscipline.Hook
/-!
Disciplines: a kind, and a hook for everything that a discipline is asked to do.

The hooks share a memory of any type, which each of them may change, also when it fails. A
discipline only gives the hooks that it needs; the others do nothing and succeed. A record of the
hooks that ran can be kept beside the memory.
-/

namespace RemoteDiscipline

/-- The values that a compute hook starts from. -/
structure Arguments where
  inputs : Variables
  /-- Candidate outputs, for the computations that take them. -/
  outputs : Variables
  deriving DecidableEq, Inhabited

/-- A discipline with memory `σ`. -/
structure Discipline (σ : Type) where
  kind : Kind
  properties : σ → Except Fault Properties × σ := fun s => (.ok {}, s)
  /-- Runs once, and declares the accepted options. -/
  initialise : σ → Declaring (Except Fault Unit × σ) := fun s => .done (.ok (), s)
  setOptions : Options → σ → Except Fault Unit × σ := fun _ s => (.ok (), s)
  /-- Runs after the options have been set. -/
  configure : σ → Except Fault Unit × σ := fun s => (.ok (), s)
  /-- Declares the variables. -/
  setup : σ → Declaring (Except Fault Unit × σ) := fun s => .done (.ok (), s)
  /-- Declares the blocks, when all variables are known. -/
  setupPartials : σ → Declaring (Except Fault Unit × σ) := fun s => .done (.ok (), s)
  /-- Fills in the values of a computation, which are zeros at the start. -/
  compute : (c : Computation) → Arguments → c.Values → σ → Except Fault c.Values × σ :=
    fun _ _ values s => (.ok values, s)

/-- A run of a hook, with what it was given. -/
inductive HookCall
  | properties
  | initialise
  | setOptions (values : Options)
  | configure
  | setup
  | setupPartials
  | compute (c : Computation) (arguments : Arguments) (values : c.Values)

namespace Discipline

variable {σ : Type}

def recorded (d : Discipline σ) : Discipline (σ × List HookCall) where
  kind := d.kind
  properties s :=
    let (r, s') := d.properties s.1
    (r, s', s.2 ++ [.properties])
  initialise s := (d.initialise s.1).map fun r => (r.1, r.2, s.2 ++ [.initialise])
  setOptions values s :=
    let (r, s') := d.setOptions values s.1
    (r, s', s.2 ++ [.setOptions values])
  configure s :=
    let (r, s') := d.configure s.1
    (r, s', s.2 ++ [.configure])
  setup s := (d.setup s.1).map fun r => (r.1, r.2, s.2 ++ [.setup])
  setupPartials s := (d.setupPartials s.1).map fun r => (r.1, r.2, s.2 ++ [.setupPartials])
  compute c arguments values s :=
    let (r, s') := d.compute c arguments values s.1
    (r, s', s.2 ++ [.compute c arguments values])

end Discipline

end RemoteDiscipline
