import RemoteDiscipline.Message
/-!
The server's end of a call.

What the client sends waits in an inbox until it is taken; what the server sends waits in an outbox
until somebody reads it. Taking from an inbox that is empty but may still grow has to wait, and so
has putting into an outbox that is full.
-/

namespace RemoteDiscipline

/-- What has arrived and not been taken yet. -/
structure Inbox where
  items : List (Except Error Message)
  /-- Whether more may arrive. -/
  isOpen : Bool

/-- What has been sent and not been read yet. -/
structure Outbox where
  items : List Message
  /-- How many messages may wait, if that is limited. -/
  capacity : Option Nat
  /-- Whether there is a reader. -/
  isOpen : Bool

namespace Inbox

/-- Takes the next item: a message, an error in its place, or `none` when nothing more arrives.
There is no answer while it has to wait. -/
def take (i : Inbox) : Option (Except Error (Option Message) × Inbox) :=
  match i.items with
  | .ok m :: rest => some (.ok (some m), { i with items := rest })
  | .error e :: rest => some (.error e, { i with items := rest })
  | [] => if i.isOpen then none else some (.ok none, i)

def add (i : Inbox) (items : List (Except Error Message)) : Inbox :=
  { i with items := i.items ++ items }

def close (i : Inbox) : Inbox := { i with isOpen := false }

theorem length_of_take_some {i i' : Inbox} {m : Message}
    (h : i.take = some (.ok (some m), i')) : i'.items.length < i.items.length := by
  unfold take at h
  split at h
  · rename_i heq
    cases h
    simp [heq]
  · cases h
  · split at h <;> cases h

theorem length_of_take_error {i i' : Inbox} {e : Error}
    (h : i.take = some (.error e, i')) : i'.items.length < i.items.length := by
  unfold take at h
  split at h
  · cases h
  · rename_i heq
    cases h
    simp [heq]
  · split at h <;> cases h

theorem eq_of_take_none {i i' : Inbox} (h : i.take = some (.ok none, i')) : i' = i := by
  unfold take at h
  split at h
  · cases h
  · cases h
  · split at h
    · cases h
    · cases h
      rfl

end Inbox

namespace Outbox

def isFull (o : Outbox) : Bool :=
  match o.capacity with
  | some n => n ≤ o.items.length
  | none => false

/-- Puts a message in. The answer tells whether there is a reader; there is none while it has to
wait. -/
def put (o : Outbox) (m : Message) : Option (Bool × Outbox) :=
  if !o.isOpen then some (false, o)
  else if o.isFull then none
  else some (true, { o with items := o.items ++ [m] })

end Outbox

structure Call where
  method : Method
  inbox : Inbox
  outbox : Outbox
  /-- Whether the call has been told to stop. -/
  cancelled : Bool

namespace Call

/-- A call on which nothing has been said, with room for some responses; a call can always hold one.
There may be nobody who reads them. -/
def fresh (method : Method) (capacity : Nat) (hasReader : Bool) : Call where
  method := method
  inbox := ⟨[], true⟩
  outbox := ⟨[], some (max 1 capacity), hasReader⟩
  cancelled := false

/-- The next message of the client, or `none` when it has sent its last one. -/
def receive (c : Call) : Option (Except Error (Option Message) × Call) :=
  c.inbox.take.map fun r => (r.1, { c with inbox := r.2 })

def send (c : Call) (m : Message) : Option (Except Error Unit × Call) :=
  (c.outbox.put m).map fun r =>
    (if r.1 then .ok () else .error (.transport s!"{c.method.name} response stream closed"),
      { c with outbox := r.2 })

def missingRequest (method : Method) : Error :=
  .protocol s!"{method.name} call closed without a request"

def extraMessage (method : Method) (m : Message) : Error :=
  .protocol s!"{method.name} expects one request, got an extra {m.kindName} message"

/-- What was received in place of a request. -/
def requestOf (method : Method) : Except Error (Option Message) → Except Error Message
  | .ok (some m) => .ok m
  | .ok none => .error (missingRequest method)
  | .error e => .error e

def endOf (method : Method) : Except Error (Option Message) → Except Error Unit
  | .ok none => .ok ()
  | .ok (some m) => .error (extraMessage method m)
  | .error e => .error e

def receiveRequest (c : Call) : Option (Except Error Message × Call) := do
  let (first, c) ← c.receive
  match requestOf c.method first with
  | .error e => return (.error e, c)
  | .ok m =>
    let (second, c) ← c.receive
    return ((endOf c.method second).map fun _ => m, c)

def cancel (c : Call) : Call := { c with cancelled := true }

def feed (c : Call) (items : List (Except Error Message)) : Call :=
  { c with inbox := c.inbox.add items }

def halfClose (c : Call) : Call := { c with inbox := c.inbox.close }

def dropReader (c : Call) : Call := { c with outbox := { c.outbox with items := [], isOpen := false } }

def readAll (c : Call) : Call := { c with outbox := { c.outbox with capacity := none } }

end Call

end RemoteDiscipline
