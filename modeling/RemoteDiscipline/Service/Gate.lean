/-!
A waiting line for something that one at a time may have.

Whoever comes takes a number and stands at the end of the line. The one in front has its turn until
it leaves, and one that waits may leave, too.
-/

namespace RemoteDiscipline

/-- A waiting line of numbers, and the next number to hand out. -/
structure Gate where
  line : List Nat
  next : Nat

namespace Gate

def free : Gate := ⟨[], 0⟩

def join (g : Gate) : Nat × Gate := (g.next, ⟨g.line ++ [g.next], g.next + 1⟩)

def admits (g : Gate) (ticket : Nat) : Bool := g.line.head? = some ticket

/-- Leaves the line, from wherever in it. -/
def leave (g : Gate) (ticket : Nat) : Gate := { g with line := g.line.filter (· ≠ ticket) }

end Gate

end RemoteDiscipline
