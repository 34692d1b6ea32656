/-!
Floating-point values as they travel: 64 bits, kept exactly.

Buffers, chunks and frames only move values, so they see the bits alone. Arithmetic happens inside
a discipline's hooks and goes through the machine's own operations.
-/

namespace RemoteDiscipline

/-- A double-precision value, given by its bits. -/
structure Binary64 where
  bits : UInt64
  deriving DecidableEq, Inhabited

namespace Binary64

def ofFloat (x : Float) : Binary64 := ⟨x.toBits⟩

def toFloat (x : Binary64) : Float := Float.ofBits x.bits

/-- Positive zero, the value that fresh buffers hold. -/
def zero : Binary64 := ⟨0⟩

def ofInt (n : Int) : Binary64 := ofFloat (Float.ofInt n)

def magnitude (x : Binary64) : UInt64 := x.bits &&& 0x7fffffffffffffff

def isNaN (x : Binary64) : Bool := 0x7ff0000000000000 < x.magnitude

def isZero (x : Binary64) : Bool := x.magnitude = 0

/-- Numerical equality: a NaN differs from everything, and the two zeros are equal. -/
def equals (x y : Binary64) : Bool :=
  !x.isNaN && !y.isNaN && (x = y || (x.isZero && y.isZero))

instance : Add Binary64 := ⟨fun x y => ofFloat (x.toFloat + y.toFloat)⟩

instance : Sub Binary64 := ⟨fun x y => ofFloat (x.toFloat - y.toFloat)⟩

instance : Mul Binary64 := ⟨fun x y => ofFloat (x.toFloat * y.toFloat)⟩

end Binary64

end RemoteDiscipline
