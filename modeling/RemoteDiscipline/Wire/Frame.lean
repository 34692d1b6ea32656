import RemoteDiscipline.Wire.Payload
/-!
Frames: the units on the stream of a call.

A client sends an opening frame, any number of messages, and then says that no more follow or that
it gives up. A server sends any number of messages and then one closing frame with the status. On
the stream a frame is its length, in four bytes with the highest one first, and its payload. A
payload whose length does not go into four bytes cannot be written.
-/

namespace RemoteDiscipline

def protocolVersion : Nat := 1

inductive Frame
  /-- Starts a call. The timeout is in milliseconds, and zero for none. -/
  | opening (version : Nat) (method : Method) (timeout : Nat)
  | message (m : Message)
  /-- The client has sent its last message. -/
  | halfClose
  /-- The client abandons the call. -/
  | cancel
  /-- The status of the call, after which nothing follows. -/
  | close (status : Status)
  deriving DecidableEq, Inhabited

namespace Frame

def name : Frame → String
  | .opening _ _ _ => "open"
  | .message _ => "message"
  | .halfClose => "half-close"
  | .cancel => "cancel"
  | .close _ => "close"

end Frame

namespace Wire

open Format

def frame : Format Frame where
  write
    | .opening version m timeout =>
      caseNumber.write 0 ++ ((natural 2).write version ++ (method.write m ++ size.write timeout))
    | .message m => caseNumber.write 1 ++ message.write m
    | .halfClose => caseNumber.write 2
    | .cancel => caseNumber.write 3
    | .close s => caseNumber.write 4 ++ status.write s
  read bs :=
    match caseNumber.read bs with
    | some (0, bs) =>
      ((pair (natural 2) (pair method size)).read bs).map fun r =>
        (.opening r.1.1 r.1.2.1 r.1.2.2, r.2)
    | some (1, bs) => (message.read bs).map fun r => (.message r.1, r.2)
    | some (2, bs) => some (.halfClose, bs)
    | some (3, bs) => some (.cancel, bs)
    | some (4, bs) => (status.read bs).map fun r => (.close r.1, r.2)
    | _ => none

/-- The four bytes that announce a payload of `n` bytes, the highest one first. -/
def lengthBytes (n : Nat) : List UInt8 :=
  [(n / 0x100_0000).toUInt8, (n / 0x1_0000).toUInt8, (n / 0x100).toUInt8, n.toUInt8]

def announcedLength (a b c d : UInt8) : Nat :=
  ((a.toNat * 256 + b.toNat) * 256 + c.toNat) * 256 + d.toNat

end Wire

inductive WriteFault
  /-- The length of a payload cannot be announced. -/
  | oversized (length : Nat)
  /-- The stream does not take anything. -/
  | stream (reason : String)
  deriving DecidableEq

namespace WriteFault

def text : WriteFault → String
  | .oversized length => s!"payload exceeds u32::MAX: {length} bytes"
  | .stream reason => reason

/-- Whether what was to be written is to blame, and not the stream. -/
def isInvalidData : WriteFault → Bool
  | .oversized _ => true
  | .stream _ => false

end WriteFault

namespace Frame

/-- Whether four bytes can hold the length of the payload. -/
def isAnnounceable (f : Frame) : Bool := (Wire.frame.write f).length < 0x1_0000_0000

def encode (f : Frame) : List UInt8 :=
  Wire.lengthBytes (Wire.frame.write f).length ++ Wire.frame.write f

@[irreducible] def pack (f : Frame) : Except WriteFault (List UInt8) :=
  if f.isAnnounceable then .ok f.encode else .error (.oversized (Wire.frame.write f).length)

theorem pack_of_isAnnounceable {f : Frame} (h : f.isAnnounceable = true) : f.pack = .ok f.encode := by
  rw [pack, if_pos h]

end Frame

end RemoteDiscipline
