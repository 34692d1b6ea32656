import RemoteDiscipline.Connection.Peer
import RemoteDiscipline.Connection.Settle
/-!
The far end of a client's connection: a peer with a script, or a server in the same process.
-/

namespace RemoteDiscipline

/-- What is at the other end of a client's connection. -/
inductive FarEnd (τ : Type)
  | scripted (p : PeerEnd)
  | hosted (c : Connection τ)

namespace FarEnd

variable {ω τ : Type}

/-- Whether it has hung up, so that nothing can be sent to it. -/
def isGone : FarEnd τ → Bool
  | .scripted p =>
    match p.phase with
    | .gone => true
    | _ => false
  | .hosted c =>
    match c.phase with
    | .closed => true
    | _ => false

def isEnded (f : FarEnd τ) : Bool :=
  match f with
  | .scripted _ => f.isGone
  | .hosted c => c.isEnded

def isTaking : FarEnd τ → Bool
  | .scripted p => p.isReading
  | .hosted c => c.isTaking

/-- Whether it can go on as soon as the client takes what there is. -/
def isReplying : FarEnd τ → Bool
  | .scripted p => p.isReplying
  | .hosted _ => false

/-- How much of a reply that is fixed has not been written. -/
def unwritten : FarEnd τ → Nat
  | .scripted p => p.unwritten
  | .hosted _ => 0

def unread : FarEnd τ → Nat
  | .scripted p => p.input.length
  | .hosted c => c.input.length

def arrive (bytes : List UInt8) : FarEnd τ → FarEnd τ
  | .scripted p => .scripted { p with input := p.input ++ bytes }
  | .hosted c => .hosted (c.arrive bytes)

/-- Lets it go on until it waits. A client that does not read has `waiting` bytes before it. -/
def settle (s : Service ω τ) (now : Nat) (waiting : Option Nat) (w : ω) : FarEnd τ → ω × FarEnd τ
  | .scripted p => (w, .scripted (p.settle (peerBytes - waiting.getD 0)))
  | .hosted c =>
    let (w, c) := c.settle s now waiting w
    (w, .hosted c)

def takeOutput : FarEnd τ → List UInt8 × FarEnd τ
  | .scripted p => (p.output, .scripted { p with output := [] })
  | .hosted c =>
    let (bytes, c) := c.takeOutput
    (bytes, .hosted c)

/-- When the client reads, a far end that has to wait with its reply has written some of it. -/
theorem unwritten_settle_lt {s : Service ω τ} {now : Nat} {w : ω} {f : FarEnd τ}
    (h : (f.settle s now none w).2.isReplying) :
    (f.settle s now none w).2.unwritten < f.unwritten := by
  cases f with
  | scripted p => exact PeerEnd.unwritten_settle_lt (by decide) h
  | hosted c => cases h

theorem isReplying_takeOutput (f : FarEnd τ) : f.takeOutput.2.isReplying = f.isReplying := by
  cases f <;> rfl

theorem unwritten_takeOutput (f : FarEnd τ) : f.takeOutput.2.unwritten = f.unwritten := by
  cases f <;> rfl

theorem unwritten_arrive (bytes : List UInt8) (f : FarEnd τ) :
    (f.arrive bytes).unwritten = f.unwritten := by
  cases f <;> rfl

def hangUp : FarEnd τ → FarEnd τ
  | .scripted p => .scripted { p with inputEnded := true }
  | .hosted c => .hosted c.hangUp

def report : FarEnd τ → Report
  | .scripted p => p.report
  | .hosted _ => .absent

end FarEnd

end RemoteDiscipline
