import RemoteDiscipline.Binary64
import RemoteDiscipline.Error
import RemoteDiscipline.Shape
import RemoteDiscipline.Table
/-!
Shaped buffers of values.

A variable holds exactly the values that its shape calls for, and every operation keeps it so.
Ranges of a variable are inclusive at both ends, and a range that does not fit changes nothing.
-/

namespace RemoteDiscipline

inductive Role
  | input
  | output
  | residual
  | jacobian
  deriving DecidableEq, Inhabited

namespace Role

/-- Every role, in the order in which the wire numbers them. -/
def all : List Role := [.input, .output, .residual, .jacobian]

theorem mem_all (r : Role) : r ∈ all := by cases r <;> decide

def text : Role → String
  | .input => "input"
  | .output => "output"
  | .residual => "residual"
  | .jacobian => "partial"

end Role

/-- A role, a shape and as many values as the shape calls for. -/
structure Variable where
  role : Role
  shape : Shape
  data : List Binary64
  length_eq : data.length = shape.count
  deriving DecidableEq

/-- The name of a Jacobian block: d(output)/d(input). -/
structure BlockKey where
  output : String
  input : String
  deriving DecidableEq, Inhabited

def BlockKey.text (k : BlockKey) : String := s!"{k.output}/{k.input}"

/-- Blocks are ordered by output, then by input. -/
instance : Key BlockKey where
  lt a b := a.output < b.output ∨ (a.output = b.output ∧ a.input < b.input)
  decidableLT _ _ := inferInstanceAs (Decidable (_ ∨ _))
  irrefl a h := by
    rcases h with h | h
    · exact String.lt_irrefl _ h
    · exact String.lt_irrefl _ h.2
  trans {a b c} hab hbc := by
    rcases hab with hab | ⟨hab, hab'⟩
    · rcases hbc with hbc | ⟨hbc, _⟩
      · exact .inl (String.lt_trans hab hbc)
      · exact .inl (hbc ▸ hab)
    · rcases hbc with hbc | ⟨hbc, hbc'⟩
      · exact .inl (hab ▸ hbc)
      · exact .inr ⟨hab.trans hbc, String.lt_trans hab' hbc'⟩
  connected {a b} hab hba := by
    have ho : a.output = b.output :=
      String.le_antisymm (String.not_lt.mp fun h => hba (.inl h))
        (String.not_lt.mp fun h => hab (.inl h))
    have hi : a.input = b.input :=
      String.le_antisymm (String.not_lt.mp fun h => hba (.inr ⟨ho.symm, h⟩))
        (String.not_lt.mp fun h => hab (.inr ⟨ho, h⟩))
    cases a
    cases b
    simp_all

abbrev Variables := Table String Variable

abbrev Blocks := Table BlockKey Variable

namespace Variable

def zeros (role : Role) (shape : Shape) : Variable :=
  ⟨role, shape, List.replicate shape.count .zero, by simp⟩

/-- The variable that holds `data`, which has to be as long as the shape says. -/
def ofData (role : Role) (shape : Shape) (data : List Binary64) : Except Error Variable :=
  if h : data.length = shape.count then .ok ⟨role, shape, data, h⟩
  else .error (.bounds
    s!"shape {shape.text} needs {shape.count} values, got {data.length}")

def scalar (role : Role) (value : Binary64) : Variable := ⟨role, .scalar, [value], rfl⟩

def length (v : Variable) : Nat := v.data.length

def isEmpty (v : Variable) : Bool := v.data.isEmpty

def withData (v : Variable) (data : List Binary64) (h : data.length = v.data.length) : Variable :=
  { v with data := data, length_eq := h.trans v.length_eq }

def fill (v : Variable) (value : Binary64) : Variable :=
  v.withData (v.data.map fun _ => value) (by simp)

/-- `v` with `value` at position `i`, or unchanged when there is no such position. -/
def set (v : Variable) (i : Nat) (value : Binary64) : Variable :=
  v.withData (v.data.set i value) (by simp)

/-- Equality of role, shape and values, where values are compared as numbers. -/
def equals (v w : Variable) : Bool :=
  v.role = w.role && v.shape = w.shape && v.data.length = w.data.length &&
    (v.data.zip w.data).all fun p => p.1.equals p.2

/-! ### Segments -/

/-- `values` written over a buffer from position `start` on. -/
def overlay (data : List Binary64) (start : Nat) (values : List Binary64) : List Binary64 :=
  data.take start ++ values ++ data.drop (start + values.length)

theorem length_overlay {data values : List Binary64} {start : Nat}
    (h : start + values.length ≤ data.length) :
    (overlay data start values).length = data.length := by
  simp only [overlay, List.length_append, List.length_take, List.length_drop]
  omega

/-- Whether the inclusive range from `start` to `stop` lies in a buffer of `length` values. -/
def checkRange (length start stop : Nat) : Except Error Unit :=
  if start > stop then
    .error (.bounds s!"start index {start} greater than end index {stop}")
  else if stop ≥ length then
    .error (.bounds s!"end index {stop} out of range for length {length}")
  else .ok ()

theorem checkRange_eq_ok {length start stop : Nat} :
    checkRange length start stop = .ok () ↔ start ≤ stop ∧ stop < length := by
  unfold checkRange
  split
  · simp; omega
  · split
    · simp; omega
    · simp; omega

def segment (v : Variable) (start stop : Nat) : Except Error (List Binary64) :=
  match checkRange v.length start stop with
  | .error e => .error e
  | .ok () => .ok ((v.data.drop start).take (stop - start + 1))

def setSegment (v : Variable) (start stop : Nat) (values : List Binary64) :
    Except Error Variable :=
  match h : checkRange v.length start stop with
  | .error e => .error e
  | .ok () =>
    if hl : values.length = stop - start + 1 then
      .ok (v.withData (overlay v.data start values) (length_overlay (by
        have := checkRange_eq_ok.mp h
        simp only [length] at this
        omega)))
    else .error (.bounds
      s!"segment [{start}, {stop}] needs {stop - start + 1} values, got {values.length}")

end Variable

end RemoteDiscipline
