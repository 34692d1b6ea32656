/-!
Shapes of arrays, and the shape of a Jacobian block.

A shape lists the extent of each dimension. The scalar shape is `[1]`; the shape without dimensions
holds nothing.
-/

namespace RemoteDiscipline

/-- The extents of an array, outermost dimension first. -/
abbrev Shape := List Nat

namespace Shape

/-- How many values an array of this shape holds: the product of the extents, and none without
dimensions. -/
def count : Shape → Nat
  | [] => 0
  | extents => extents.foldl (· * ·) 1

def scalar : Shape := [1]

def isScalar (s : Shape) : Bool := s = scalar

/-- The shape of the block d(f)/d(x): a scalar on either side leaves the other's shape, and two
arrays give a dense block with the dimensions of `f` first. -/
def jacobian (f x : Shape) : Shape :=
  if f.isScalar then x
  else if x.isScalar then f
  else f ++ x

def text (s : Shape) : String := "[" ++ String.intercalate ", " (s.map toString) ++ "]"

end Shape

end RemoteDiscipline
