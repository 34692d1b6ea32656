import RemoteDiscipline.Connection.FarEnd
/-!
The client's end of a connection, and the time that passes there.

The clock stands still as long as anything can go on. The far end goes on when the client has to
wait for it; when there is nothing that it could still do, the clock moves to the client's deadline,
or to the time at which somebody calls the client away. What a client has begun to read when its
time is over is lost.
-/

namespace RemoteDiscipline

/-- What a client can connect to. -/
inductive Remote
  /-- One peer for each connection, in order. -/
  | peers (rest : List Peer)
  /-- A server in the same process. -/
  | inProcess (limits : Limits)
  /-- Connecting fails. -/
  | unreachable (reason : String)

/-- The surroundings of a client: the time, the world of a server in the same process, what it can
connect to, and what the peers of earlier connections have to tell. -/
structure Network (ω : Type) where
  clock : Nat
  world : ω
  remote : Remote
  reports : List Report

structure Line (ω τ : Type) extends Network ω where
  far : FarEnd τ
  /-- What has been sent since the far end last went on, the latest first. -/
  sent : List (List UInt8)
  /-- What has come back and not been read. -/
  incoming : List UInt8
  /-- How many bytes can wait on the way to the far end. -/
  capacity : Nat
  /-- How many more bytes can be sent before the far end has to go on. -/
  window : Nat
  /-- Whether the far end may have something to do. -/
  isStirred : Bool

namespace Line

variable {ω τ : Type}

def ofFarEnd (n : Network ω) (far : FarEnd τ) (capacity : Nat) : Line ω τ where
  toNetwork := n
  far := far
  sent := []
  incoming := []
  capacity := capacity
  window := capacity
  isStirred := true

/-- Lets the far end go on until it waits. The client is reading, or it is not. -/
def letRun (s : Service ω τ) (reading : Bool) (l : Line ω τ) : Line ω τ :=
  let far := l.far.arrive l.sent.reverse.flatten
  let waiting := if reading then none else some l.incoming.length
  let (world, far) := far.settle s l.clock waiting l.world
  let (bytes, far) := far.takeOutput
  { l with
    world := world
    far := far
    sent := []
    incoming := l.incoming ++ bytes
    window := if far.isTaking then l.capacity else l.capacity - far.unread
    isStirred := far.isReplying }

def hangUp (s : Service ω τ) (l : Line ω τ) : Network ω :=
  let l := { l with far := (l.far.arrive l.sent.reverse.flatten).hangUp, sent := [] }.letRun s true
  { l.toNetwork with
    reports := match l.far.report with
      | .absent => l.reports
      | r => l.reports ++ [r] }

/-! ### Sending -/

inductive Sending
  | done
  | broken (e : WriteFault)
  /-- The time was over before they were on their way. -/
  | late
  deriving DecidableEq

def hungUp : Sending := .broken (.stream "broken pipe")

def push (bytes : List UInt8) (l : Line ω τ) : Line ω τ :=
  { l with sent := bytes :: l.sent, window := l.window - bytes.length, isStirred := true }

/-- Sends bytes when there is no room for them: the far end has to make some. -/
def sendRest (s : Service ω τ) (deadline : Nat) (bytes : List UInt8) (l : Line ω τ) :
    Sending × Line ω τ :=
  if _hb : bytes = [] then (.done, l)
  else if deadline ≤ l.clock then (.late, l)
  else
    let l := l.letRun s false
    if l.far.isGone then (hungUp, l)
    else if _hw : l.window = 0 then (.late, { l with clock := deadline })
    else sendRest s deadline (bytes.drop l.window) (l.push (bytes.take l.window))
termination_by bytes.length
decreasing_by
  have : 0 < bytes.length := List.length_pos_iff.mpr _hb
  rw [List.length_drop]
  exact Nat.sub_lt this (Nat.pos_of_ne_zero _hw)

def send (s : Service ω τ) (deadline : Nat) (bytes : List UInt8) (l : Line ω τ) :
    Sending × Line ω τ :=
  if l.far.isGone then (hungUp, l)
  else sendRest s deadline (bytes.drop l.window) (l.push (bytes.take l.window))

def sendFrame (s : Service ω τ) (deadline : Nat) (f : Frame) (l : Line ω τ) : Sending × Line ω τ :=
  match f.pack with
  | .ok bytes => l.send s deadline bytes
  | .error e => (.broken e, l)

/-! ### Receiving -/

inductive Arrival
  | frame (f : Frame)
  /-- The far end has hung up. -/
  | ended
  | fault (e : ReadFault)
  /-- The time was over. -/
  | late
  /-- The client was called away. -/
  | called
  deriving DecidableEq

/-- Waits for a time to come, unless the client is called away before. -/
def await (deadline : Nat) (call : Option Nat) (l : Line ω τ) : Arrival × Line ω τ :=
  match call with
  | some t =>
    if t < deadline then (.called, { l with clock := max l.clock t, incoming := [] })
    else (.late, { l with clock := max l.clock deadline, incoming := [] })
  | none => (.late, { l with clock := max l.clock deadline, incoming := [] })

def isDue (l : Line ω τ) (time : Option Nat) : Bool := time.any (· ≤ l.clock)

def pick (limit : Nat) (l : Line ω τ) : Option (Arrival × Line ω τ) :=
  match Frame.read limit l.far.isEnded l.incoming with
  | .frame f rest => some (.frame f, { l with incoming := rest })
  | .ended => some (.ended, l)
  | .fault e rest => some (.fault e, { l with incoming := rest })
  | .waiting => none

def rank (l : Line ω τ) : Nat := if l.isStirred then 1 + l.far.unwritten else 0

/-- As long as the client reads, the far end comes to an end. -/
theorem rank_letRun_lt {s : Service ω τ} {l : Line ω τ} (h : l.isStirred) :
    (l.letRun s true).rank < l.rank := by
  simp only [rank, letRun, h, if_true, FarEnd.isReplying_takeOutput, FarEnd.unwritten_takeOutput]
  split
  · rename_i hr
    have := FarEnd.unwritten_settle_lt hr
    rw [FarEnd.unwritten_arrive] at this
    omega
  · omega

def receive (s : Service ω τ) (limit deadline : Nat) (call : Option Nat) (l : Line ω τ) :
    Arrival × Line ω τ :=
  match l.pick limit with
  | some r => r
  | none =>
    if l.isDue call then (.called, { l with incoming := [] })
    else if deadline ≤ l.clock then (.late, { l with incoming := [] })
    else if _h : l.isStirred then receive s limit deadline call (l.letRun s true)
    else l.await deadline call
termination_by l.rank
decreasing_by exact rank_letRun_lt _h

/-! ### Why calls end -/

theorem pick_frame {limit : Nat} {l l' : Line ω τ} {f : Frame}
    (h : l.pick limit = some (.frame f, l')) :
    l'.rank = l.rank ∧ l'.incoming.length < l.incoming.length := by
  unfold pick at h
  split at h
  · rename_i hr
    cases h
    exact ⟨rfl, Frame.length_lt_of_read_frame hr⟩
  · cases h
  · cases h
  · cases h

theorem await_ne_frame {deadline : Nat} {call : Option Nat} {l l' : Line ω τ} {f : Frame} :
    l.await deadline call ≠ (.frame f, l') := by
  unfold await
  split
  · split <;> simp
  · simp

theorem receive_frame {s : Service ω τ} {limit deadline : Nat} {call : Option Nat}
    {l l' : Line ω τ} {f : Frame} (h : l.receive s limit deadline call = (.frame f, l')) :
    l'.rank < l.rank ∨ l'.rank = l.rank ∧ l'.incoming.length < l.incoming.length := by
  fun_induction receive s limit deadline call l with
  | case1 l r hr =>
    subst h
    exact .inr (pick_frame hr)
  | case2 => cases h
  | case3 => cases h
  | case4 l _ _ _ hst ih =>
    have := rank_letRun_lt (s := s) hst
    rcases ih h with hlt | ⟨heq, _⟩
    · exact .inl (Nat.lt_trans hlt this)
    · exact .inl (heq ▸ this)
  | case5 => exact absurd h await_ne_frame

/-! ### Connecting -/

inductive Dialled (ω τ : Type)
  | connected (l : Line ω τ)
  | refused (reason : String) (n : Network ω)
  /-- The time was over before. -/
  | late (n : Network ω)

def dial (n : Network ω) (deadline : Nat) : Dialled ω τ :=
  match n.remote with
  | .unreachable reason => .refused reason n
  | .inProcess limits => .connected (ofFarEnd n (.hosted (.fresh limits)) pipeBytes)
  | .peers [] => .refused "no more peers" n
  | .peers (p :: rest) =>
    let n := { n with remote := .peers rest }
    let connected (far : PeerEnd) (capacity : Nat) : Dialled ω τ :=
      .connected (ofFarEnd n (.scripted far) capacity)
    match p with
    | .refuse reason => .refused reason n
    | .never => .late { n with clock := max n.clock deadline }
    | .early reply =>
      .connected { ofFarEnd n (.scripted .early) peerBytes with incoming := reply }
    | .stall room => connected .deaf room
    | .answer reply hold => connected (.attending reply hold) peerBytes

end Line

end RemoteDiscipline
