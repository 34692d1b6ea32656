import RemoteDiscipline.Plan
/-!
A recipient of chunks that records them.

It may have room for some chunks only, and it may tell the sender to stop when it has recorded a
certain number.
-/

namespace RemoteDiscipline.Script

structure Recorder where
  recorded : List Chunk := []
  /-- Whether the sender is told to stop. -/
  stopped : Bool := false
  /-- The number of chunks after which the sender is told to stop. -/
  stopAfter : Option Nat := none
  /-- The number of chunks after which every other one is refused, and how. -/
  room : Option (Nat × Error) := none

namespace Recorder

def take (c : Chunk) (r : Recorder) : Except Error Unit × Recorder :=
  let record : Except Error Unit × Recorder :=
    let recorded := r.recorded ++ [c]
    (.ok (), { r with
      recorded := recorded
      stopped := r.stopped || r.stopAfter = some recorded.length })
  match r.room with
  | some (n, e) => if n ≤ r.recorded.length then (.error e, r) else record
  | none => record

/-- Sends a variable to a recorder. The answer is the number of chunks. -/
def sendVariable (tag : Tag) (v : Variable) (size : Nat) (r : Recorder) :
    Except Error Nat × Recorder :=
  let plan := Plan.ofVariable tag v size
  let (result, r) := plan.transmit stopped take r
  (result.map fun _ => plan.parcels.length, r)

end Recorder

end RemoteDiscipline.Script
