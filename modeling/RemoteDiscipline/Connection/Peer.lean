import RemoteDiscipline.Wire.Reading
/-!
Peers that follow a script, at the far end of a client's connection.

A peer that answers reads what the client sends up to the half-close, writes a reply that was fixed
beforehand, and hangs up or listens on. While the reply is longer than what can wait for the client,
the peer is busy writing: it has not hung up, and it does not read. Others never read, are gone
before the client says a word, or cannot be reached at all.
-/

namespace RemoteDiscipline

/-- How many bytes wait in one direction of a connection to a scripted peer: 1 MiB. -/
def peerBytes : Nat := 1024 * 1024

/-- What a client meets when it connects. -/
inductive Peer
  /-- Connecting fails. -/
  | refuse (reason : String)
  /-- Connecting never ends. -/
  | never
  /-- The peer has written its reply and has hung up. -/
  | early (reply : List UInt8)
  /-- The peer never reads, and so many bytes can wait for it. -/
  | stall (room : Nat)
  /-- The peer replies to the half-close; then it hangs up, or listens to the end. -/
  | answer (reply : List UInt8) (hold : Bool)
  deriving Inhabited

inductive PeerPhase
  /-- It reads up to the half-close. -/
  | attending (reply : List UInt8) (hold : Bool)
  /-- It writes its reply, of which so much is left. -/
  | replying (rest : List UInt8) (hold : Bool)
  /-- It reads to the end of the stream. -/
  | listening
  | deaf
  | gone

/-- What becomes of the record of a peer. -/
inductive Report
  /-- There is none. -/
  | absent
  /-- The peer has read nothing that it could tell. -/
  | unread
  | heard (frames : List Frame)
  deriving DecidableEq

def Report.add (f : Frame) : Report → Report
  | .heard frames => .heard (frames ++ [f])
  | r => r

structure PeerEnd where
  /-- What has arrived and not been read. -/
  input : List UInt8
  /-- Whether nothing more arrives. -/
  inputEnded : Bool
  /-- What has been written and not been taken. -/
  output : List UInt8
  report : Report
  phase : PeerPhase

namespace PeerEnd

/-- The limit on frames that a peer accepts: whatever can be announced. -/
def limit : Nat := 0x1_0000_0000

/-- A peer that is gone already. What it has written is on its way. -/
def early : PeerEnd := ⟨[], false, [], .absent, .gone⟩

def deaf : PeerEnd := ⟨[], false, [], .unread, .deaf⟩

def attending (reply : List UInt8) (hold : Bool) : PeerEnd :=
  ⟨[], false, [], .heard [], .attending reply hold⟩

def hear (f : Frame) (p : PeerEnd) : PeerEnd :=
  let p := { p with report := p.report.add f }
  match p.phase, f with
  | .attending reply hold, .halfClose => { p with phase := .replying reply hold }
  | _, _ => p

def isReading (p : PeerEnd) : Bool :=
  match p.phase with
  | .attending _ _ | .listening => true
  | .replying _ _ | .deaf | .gone => false

def isReplying (p : PeerEnd) : Bool :=
  match p.phase with
  | .replying _ _ => true
  | _ => false

/-- Lets a peer read until it waits, replies or hangs up. It hangs up when the stream ends. -/
def listen (p : PeerEnd) : PeerEnd :=
  if p.isReading then
    match _h : Frame.read limit p.inputEnded p.input with
    | .frame f rest => listen { hear f p with input := rest }
    | .ended | .fault _ _ => { p with phase := .gone }
    | .waiting => p
  else p
termination_by p.input.length
decreasing_by exact Frame.length_lt_of_read_frame _h

/-- Writes as much of the reply as there is room for; with all of it written, a peer hangs up or
listens on. To a peer it does not matter whether anybody still takes the reply. -/
def reply (room : Nat) (p : PeerEnd) : PeerEnd :=
  match p.phase with
  | .replying rest hold =>
    if p.inputEnded || rest.length ≤ room then
      listen { p with output := p.output ++ rest, phase := if hold then .listening else .gone }
    else
      { p with output := p.output ++ rest.take room, phase := .replying (rest.drop room) hold }
  | _ => p

/-- Lets a peer go on until it waits. So many bytes can be written: `room`. -/
def settle (room : Nat) (p : PeerEnd) : PeerEnd := p.listen.reply room

/-! ### Why a reply ends -/

def unwritten (p : PeerEnd) : Nat :=
  match p.phase with
  | .attending rest _ | .replying rest _ => rest.length
  | .listening | .deaf | .gone => 0

def isSilent (p : PeerEnd) : Bool :=
  match p.phase with
  | .attending _ _ | .replying _ _ => false
  | .listening | .deaf | .gone => true

theorem unwritten_hear (f : Frame) (p : PeerEnd) : (p.hear f).unwritten = p.unwritten := by
  obtain ⟨input, ended, output, report, phase⟩ := p
  cases phase <;> cases f <;> rfl

theorem isSilent_hear (f : Frame) (p : PeerEnd) : (p.hear f).isSilent = p.isSilent := by
  obtain ⟨input, ended, output, report, phase⟩ := p
  cases phase <;> cases f <;> rfl

theorem unwritten_listen_le (p : PeerEnd) : p.listen.unwritten ≤ p.unwritten := by
  fun_induction listen p with
  | case1 p _ f rest _ ih => exact Nat.le_trans ih (Nat.le_of_eq (unwritten_hear f p))
  | case2 => exact Nat.zero_le _
  | case3 => exact Nat.zero_le _
  | case4 => exact Nat.le_refl _
  | case5 => exact Nat.le_refl _

theorem isSilent_listen {p : PeerEnd} (h : p.isSilent) : p.listen.isSilent := by
  fun_induction listen p with
  | case1 p _ f rest _ ih => exact ih ((isSilent_hear f p).trans h)
  | case2 => rfl
  | case3 => rfl
  | case4 => exact h
  | case5 => exact h

theorem isReplying_eq_false_of_isSilent {p : PeerEnd} (h : p.isSilent) : p.isReplying = false := by
  unfold isSilent at h
  unfold isReplying
  split at h <;> simp_all

theorem unwritten_reply_lt {room : Nat} {p : PeerEnd} (hroom : 0 < room)
    (h : (p.reply room).isReplying) : (p.reply room).unwritten < p.unwritten := by
  unfold reply at h ⊢
  split at h
  · rename_i rest hold hp
    split at h
    · rw [isReplying_eq_false_of_isSilent (isSilent_listen (by cases hold <;> rfl))] at h
      cases h
    · rename_i hfit
      simp only [Bool.or_eq_true, decide_eq_true_eq, not_or, Nat.not_le] at hfit
      simp only [hp, hfit, Nat.not_le.mpr, unwritten, decide_false, Bool.or_self,
        Bool.false_eq_true, if_false, List.length_drop]
      omega
  · rename_i hp
    unfold isReplying at h
    split at h
    · rename_i heq
      exact absurd heq (hp _ _)
    · cases h

theorem unwritten_settle_lt {room : Nat} {p : PeerEnd} (hroom : 0 < room)
    (h : (p.settle room).isReplying) : (p.settle room).unwritten < p.unwritten :=
  Nat.lt_of_lt_of_le (unwritten_reply_lt hroom h) (unwritten_listen_le p)

end PeerEnd

end RemoteDiscipline
