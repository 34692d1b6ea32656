import RemoteDiscipline.Hook
/-!
Small programs that fill in the values of a computation.

An edit changes one entry of a table of variables. The entry has to be there, unless the edit puts
it in or takes it out; then the sources it reads are looked up. Where the lengths differ, only the
positions that all of them have are written.
-/

namespace RemoteDiscipline.Script

inductive Edit
  /-- The entry goes away. -/
  | remove
  /-- A variable takes its place. -/
  | insert (role : Role) (shape : Shape) (data : List Binary64)
  | fill (value : Binary64)
  | set (position : Nat) (value : Binary64)
  /-- Values are written between two positions, both included. -/
  | segment (start stop : Nat) (values : List Binary64)
  /-- `scale * x + offset` for every value `x` of a source. -/
  | affine (source : String) (scale offset : Binary64)
  | add (a b : String)
  | sub (a b : String)
  | mul (a b : String)
  /-- The sum of a source in the first position. -/
  | sum (source : String)
  deriving Inhabited

/-- `values` over the front of `data`, as far as both reach. -/
def overwrite (data values : List Binary64) : List Binary64 :=
  values.take data.length ++ data.drop values.length

theorem length_overwrite (data values : List Binary64) :
    (overwrite data values).length = data.length := by
  simp only [overwrite, List.length_append, List.length_take, List.length_drop]
  omega

def overwriteVariable (v : Variable) (values : List Binary64) : Variable :=
  v.withData (overwrite v.data values) (length_overwrite v.data values)

def setChecked (v : Variable) (position : Nat) (value : Binary64) : Except Fault Variable :=
  if position < v.length then .ok (v.set position value)
  else .error (.panicked (some
    s!"index out of bounds: the len is {v.length} but the index is {position}"))

def source (find : String → Option Variable) (name : String) : Except Fault (List Binary64) :=
  match find name with
  | some v => .ok v.data
  | none => .error (.failed s!"no source '{name}'")

def combine (find : String → Option Variable) (f : Binary64 → Binary64 → Binary64) (a b : String)
    (v : Variable) : Except Fault Variable := do
  let x ← source find a
  let y ← source find b
  return overwriteVariable v (List.zipWith f x y)

namespace Edit

/-- What an edit makes of the variable that is there. Those that do not look at it leave it. -/
def revise (find : String → Option Variable) (v : Variable) : Edit → Except Fault Variable
  | .remove | .insert _ _ _ => .ok v
  | .fill value => .ok (v.fill value)
  | .set position value => setChecked v position value
  | .segment start stop values =>
    (v.setSegment start stop values).mapError fun e => .failed e.text
  | .affine name scale offset => do
    let x ← source find name
    return overwriteVariable v (x.map fun x => scale * x + offset)
  | .add a b => combine find (· + ·) a b v
  | .sub a b => combine find (· - ·) a b v
  | .mul a b => combine find (· * ·) a b v
  | .sum name => do
    let x ← source find name
    setChecked v 0 (x.foldl (· + ·) .zero)

def apply {κ : Type} [Key κ] (find : String → Option Variable) (key : κ) (name : String) (e : Edit)
    (values : Table κ Variable) : Except Fault (Table κ Variable) :=
  match e with
  | .remove => .ok (values.erase key)
  | .insert role shape data =>
    match Variable.ofData role shape data with
    | .ok v => .ok (values.insert key v)
    | .error e => .error (.failed e.text)
  | e =>
    match values.find? key with
    | none => .error (.failed s!"no target '{name}'")
    | some v => (e.revise find v).map fun v => values.insert key v

end Edit

end RemoteDiscipline.Script
