import RemoteDiscipline.Discipline
import RemoteDiscipline.Script.Action
/-!
Disciplines that are given by data: for every hook, the actions that it takes.

A scripted discipline keeps the options it is given and remembers which hooks have run, so that an
action can be meant for one run of its hook only.
-/

namespace RemoteDiscipline

namespace Script

/-- An action, and the run of its hook in which it is taken, counted from one. -/
structure Step where
  action : Action
  run : Option Nat
  deriving Inhabited

structure Memory where
  options : Options := ∅
  /-- The hooks that have run. -/
  runs : List Hook := []
  deriving Inhabited

end Script

structure Script where
  kind : Kind
  properties : Properties
  steps : Hook → List Script.Step

namespace Script

def Memory.enter (hook : Hook) (m : Memory) : Memory := { m with runs := m.runs ++ [hook] }

def actions (s : Script) (hook : Hook) (m : Memory) : List Action :=
  let n := m.runs.count hook
  ((s.steps hook).filter fun step => step.run.all (· = n)).map (·.action)

/-- Where a compute hook finds its sources: among the inputs and then among the outputs, if it is
given any. -/
def sources (c : Computation) (a : Arguments) (name : String) : Option Variable :=
  match a.inputs.find? name with
  | some v => some v
  | none => if c.takesOutputs then a.outputs.find? name else none

def compute (find : String → Option Variable) (actions : List Action) :
    (y : Yield) → y.Values → Except Fault y.Values
  | .vectors _, values => performEditing (κ := String) find (fun name _ => name) actions values
  | .blocks, values => performEditing (κ := BlockKey) find BlockKey.mk actions values

def declaring (s : Script) (hook : Hook) (m : Memory) : Declaring (Except Fault Unit × Memory) :=
  let m := m.enter hook
  (performDeclaring m.options (s.actions hook m)).map fun r => (r, m)

def discipline (s : Script) : Discipline Memory where
  kind := s.kind
  properties m :=
    let m := m.enter .properties
    ((performSilently (s.actions .properties m)).map fun _ => s.properties, m)
  initialise := s.declaring .initialise
  setOptions values m :=
    let m := { m.enter .setOptions with options := m.options.union values }
    (perform (s.actions .setOptions m), m)
  configure m :=
    let m := m.enter .configure
    (perform (s.actions .configure m), m)
  setup := s.declaring .setup
  setupPartials := s.declaring .setupPartials
  compute c arguments values m :=
    let m := m.enter (.compute c)
    (compute (sources c arguments) (s.actions (.compute c) m) c.yield values, m)

end Script

end RemoteDiscipline
