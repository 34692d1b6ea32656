import RemoteDiscipline.Variable
/-!
Chunks: the bounded pieces in which a variable travels.

A variable of `n` values sent in pieces of `size` values travels as `max 1 ⌈n / size⌉` chunks, in
order of their positions. A variable without values still sends one chunk with an empty payload, so
that every variable shows up on the stream. A received chunk is written only when its range lies in
the buffer and its payload fills the range; otherwise the buffer stays as it is.
-/

namespace RemoteDiscipline

/-- One piece of a variable. Both ends of the range are included; they are signed, so that a
malformed offset can be told apart and refused. -/
structure Chunk where
  /-- The variable, or the output of a Jacobian block. -/
  name : String
  /-- The input of a Jacobian block. -/
  inputName : Option String
  start : Int
  stop : Int
  role : Role
  data : List Binary64
  deriving DecidableEq, Inhabited

namespace Chunk

/-- The chunk that stands for a variable without values. -/
def isFraming (c : Chunk) : Bool := c.data.isEmpty && c.start = 0 && c.stop = 0

/-- The half-open range of a buffer of `length` values that `c` writes. -/
def targetRange (c : Chunk) (length : Nat) : Except Error (Nat × Nat) :=
  if c.start < 0 then
    .error (.bounds s!"start index cannot be negative ({c.start}) for variable '{c.name}'")
  else if c.stop < 0 then
    .error (.bounds s!"end index cannot be negative ({c.stop}) for variable '{c.name}'")
  else
    let start := c.start.toNat
    let stop := c.stop.toNat
    if start > stop then
      .error (.bounds
        s!"start index {start} greater than end index {stop} for variable '{c.name}'")
    else if stop ≥ length then
      .error (.bounds
        s!"end index {stop} out of range for variable '{c.name}' of length {length}")
    else if c.data.length ≠ stop - start + 1 then
      .error (.bounds
        (s!"chunk for variable '{c.name}' carries {c.data.length} values " ++
          s!"but range [{start}, {stop}] needs {stop - start + 1}"))
    else .ok (start, stop + 1)

theorem targetRange_eq_ok {c : Chunk} {length a b : Nat} :
    c.targetRange length = .ok (a, b) ↔
      c.start = a ∧ c.stop + 1 = b ∧ a < b ∧ b ≤ length ∧ c.data.length = b - a := by
  unfold targetRange
  split
  · simp; omega
  · split
    · simp; omega
    · dsimp only
      split
      · simp; omega
      · split
        · simp; omega
        · split
          · simp; omega
          · simp; omega

/-! ### Cutting a buffer -/

/-- How many chunks `length` values need, which is never less than one. -/
def count (length size : Nat) : Except Error Nat :=
  if size = 0 then .error (.bounds "chunk size must be > 0")
  else .ok (max 1 ((length + size - 1) / size))

def ranges (length size : Nat) : Except Error (List (Nat × Nat)) :=
  (count length size).map fun n =>
    (List.range n).map fun i => (min (i * size) length, min ((i + 1) * size) length)

end Chunk

/-- Whose chunks are on the way: the name, the input of a block, and the role. -/
structure Tag where
  name : String
  inputName : Option String
  role : Role
  deriving DecidableEq, Inhabited

namespace Tag

def ofVariable (name : String) (role : Role) : Tag := ⟨name, none, role⟩

def ofBlock (key : BlockKey) : Tag := ⟨key.output, some key.input, .jacobian⟩

/-- The chunk with this tag at a half-open range, which ends where it starts when it is empty. -/
def chunk (tag : Tag) (start stop : Nat) (data : List Binary64) : Chunk where
  name := tag.name
  inputName := tag.inputName
  start := start
  stop := if stop ≤ start then start else stop - 1
  role := tag.role
  data := data

end Tag

namespace Variable

def chunks (v : Variable) (tag : Tag) (size : Nat) : Except Error (List Chunk) :=
  (Chunk.ranges v.length size).map fun rs =>
    rs.map fun r => tag.chunk r.1 r.2 ((v.data.drop r.1).take (r.2 - r.1))

/-- The chunk of the inclusive range from `start` to `stop`. A variable without values has only the
chunk that stands for it, at `0`. -/
def createChunk (v : Variable) (tag : Tag) (start stop : Nat) : Except Error Chunk :=
  let make (data : List Binary64) : Chunk :=
    { name := tag.name, inputName := tag.inputName, start := start, stop := stop,
      role := tag.role, data := data }
  if v.isEmpty && start = 0 && stop = 0 then .ok (make [])
  else (v.segment start stop).map make

def assign (v : Variable) (c : Chunk) : Except Error Variable :=
  if v.isEmpty && c.isFraming then .ok v
  else
    match h : c.targetRange v.length with
    | .error e => .error e
    | .ok (a, b) => .ok (v.withData (overlay v.data a c.data) (length_overlay (by
        have := Chunk.targetRange_eq_ok.mp h
        simp only [length] at this
        omega)))

end Variable

end RemoteDiscipline
