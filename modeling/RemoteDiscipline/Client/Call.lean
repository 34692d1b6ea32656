import RemoteDiscipline.Connection.Line
/-!
The client's end of a call.

Everything a client does with a call is bounded by the call's deadline, which starts with
connecting. The server's closing frame ends the call: with nothing when it went well, and otherwise
with the error that its status stands for. When something cannot be sent because the server has hung
up, its status tells more than the broken stream, so it is looked for.
-/

namespace RemoteDiscipline

structure ClientCall (ω τ : Type) where
  method : Method
  timeout : Duration
  deadline : Nat
  /-- The largest frame accepted from the server. -/
  limit : Nat
  /-- Whether the server's closing frame has been read. -/
  finished : Bool
  line : Line ω τ

namespace ClientCall

variable {ω τ : Type}

def classify (c : ClientCall ω τ) (status : Status) : Error := .ofStatus status c.timeout

def overdue (c : ClientCall ω τ) : Error :=
  c.classify (.deadlineExceeded s!"{c.method.name} deadline exceeded")

def streamError (c : ClientCall ω τ) (isInvalidData : Bool) (text : String) : Error :=
  let text := s!"{c.method.name}: {text}"
  if isInvalidData then .serialization text else .transport text

def unreadable (c : ClientCall ω τ) (e : ReadFault) : Error := c.streamError e.isInvalidData e.text

def unwritten (c : ClientCall ω τ) (e : WriteFault) : Error := c.streamError e.isInvalidData e.text

def read (s : Service ω τ) (called : Option Nat) (c : ClientCall ω τ) :
    Line.Arrival × ClientCall ω τ :=
  let (a, line) := c.line.receive s c.limit c.deadline called
  (a, { c with line })

/-- How far the far end may still go, and how much there is to read. -/
def work (c : ClientCall ω τ) : Nat × Nat := (c.line.rank, c.line.incoming.length)

theorem work_lt_of_read {s : Service ω τ} {called : Option Nat} {c c' : ClientCall ω τ} {f : Frame}
    (h : c.read s called = (.frame f, c')) :
    Prod.Lex (· < ·) (· < ·) c'.work c.work := by
  simp only [read, Prod.mk.injEq] at h
  obtain ⟨ha, rfl⟩ := h
  have := Line.receive_frame (Prod.ext ha rfl)
  simp only [work, Prod.lex_def]
  exact this

/-! ### Sending -/

/-- The error that explains why something could not be sent: the server's status, if it left one
behind its messages, and otherwise that of the write itself. -/
def explainBroken (s : Service ω τ) (e : WriteFault) (c : ClientCall ω τ) : Error × ClientCall ω τ :=
  match _h : c.read s none with
  | (.frame (.close status), c') =>
    if status.isOk then (c.unwritten e, c') else (c.classify status, { c' with finished := true })
  | (.frame (.message _), c') => explainBroken s e c'
  | (.late, c') => (c.overdue, c')
  | (_, c') => (c.unwritten e, c')
termination_by c.work
decreasing_by exact work_lt_of_read _h

def write (s : Service ω τ) (f : Frame) (c : ClientCall ω τ) : Except Error Unit × ClientCall ω τ :=
  let (sending, line) := c.line.sendFrame s c.deadline f
  let c := { c with line }
  match sending with
  | .done => (.ok (), c)
  | .late => (.error c.overdue, c)
  | .broken e =>
    let (e, c) := c.explainBroken s e
    (.error e, c)

def send (s : Service ω τ) (m : Message) (c : ClientCall ω τ) : Except Error Unit × ClientCall ω τ :=
  c.write s (.message m)

def halfClose (s : Service ω τ) (c : ClientCall ω τ) : Except Error Unit × ClientCall ω τ :=
  c.write s .halfClose

/-- Tells the server to give up, unless the call is over. Whether that arrives does not matter. -/
def cancel (s : Service ω τ) (c : ClientCall ω τ) : ClientCall ω τ :=
  if c.finished then c else (c.write s .cancel).2

/-! ### Receiving -/

/-- What a client gets when it waits for the next message. -/
inductive Received
  | message (m : Message)
  /-- The call went well and is over. -/
  | ended
  | failed (e : Error)
  /-- The client was called away. -/
  | called

def receiveUnless (s : Service ω τ) (called : Option Nat) (c : ClientCall ω τ) :
    Received × ClientCall ω τ :=
  if c.finished then (.ended, c)
  else
    match c.read s called with
    | (.frame (.message m), c) => (.message m, c)
    | (.frame (.close status), c) =>
      let c := { c with finished := true }
      (if status.isOk then .ended else .failed (c.classify status), c)
    | (.frame f, c) => (.failed (.protocol s!"unexpected {f.name} frame from server"), c)
    | (.ended, c) => (.failed (.transport s!"{c.method.name} stream ended without a status"), c)
    | (.fault e, c) => (.failed (c.unreadable e), c)
    | (.late, c) => (.failed c.overdue, c)
    | (.called, c) => (.called, c)

/-- Waits for the next message, which is `none` when the call went well and is over. -/
def receive (s : Service ω τ) (c : ClientCall ω τ) :
    Except Error (Option Message) × ClientCall ω τ :=
  match c.receiveUnless s none with
  | (.message m, c) => (.ok (some m), c)
  | (.ended, c) => (.ok none, c)
  | (.failed e, c) => (.error e, c)
  | (.called, c) => (.ok none, c)

theorem work_lt_of_receive {s : Service ω τ} {called : Option Nat} {c c' : ClientCall ω τ}
    {m : Message} (h : c.receiveUnless s called = (.message m, c')) :
    Prod.Lex (· < ·) (· < ·) c'.work c.work := by
  unfold receiveUnless at h
  split at h
  · cases h
  · split at h
    · rename_i hr
      cases h
      exact work_lt_of_read hr
    · split at h <;> cases h
    all_goals cases h

def receiveAll {α : Type} (s : Service ω τ) (called : Option Nat)
    (accept : Message → α → Except Error α) (a : α) (c : ClientCall ω τ) :
    Except Error α × ClientCall ω τ :=
  match _h : c.receiveUnless s called with
  | (.message m, c') =>
    match accept m a with
    | .error e => (.error e, c')
    | .ok a => receiveAll s called accept a c'
  | (.ended, c') => (.ok a, c')
  | (.failed e, c') => (.error e, c')
  | (.called, c') =>
    (.error (.cancelled s!"{c.method.name} cancelled while awaiting results"), c'.cancel s)
termination_by c.work
decreasing_by exact work_lt_of_receive _h

/-! ### Beginning and end -/

/-- Connects and opens a call. When that fails, the surroundings are given back. -/
def dial (s : Service ω τ) (n : Network ω) (method : Method) (timeout : Duration) (limit : Nat) :
    Except (Error × Network ω) (ClientCall ω τ) :=
  let deadline := Duration.deadline n.clock timeout
  match (Line.dial n deadline : Line.Dialled ω τ) with
  | .refused reason n =>
    .error (.transport s!"{method.name}: connect failed: {reason}", n)
  | .late n =>
    .error (.ofStatus (.deadlineExceeded s!"{method.name}: connect timed out") timeout, n)
  | .connected line =>
    let call : ClientCall ω τ := ⟨method, timeout, deadline, limit, false, line⟩
    match call.write s (.opening protocolVersion method timeout.announced) with
    | (.ok (), call) => .ok call
    | (.error e, call) => .error (e, call.line.hangUp s)

def hangUp (s : Service ω τ) (c : ClientCall ω τ) : Network ω := c.line.hangUp s

def within {α : Type} (s : Service ω τ) (n : Network ω) (method : Method) (timeout : Duration)
    (limit : Nat) (body : ClientCall ω τ → Except Error α × ClientCall ω τ) :
    Except Error α × Network ω :=
  match dial s n method timeout limit with
  | .error (e, n) => (.error e, n)
  | .ok call =>
    let (r, call) := body call
    (r, call.hangUp s)

/-! ### Requests -/

/-- Sends a request, and collects all responses. -/
def ask (s : Service ω τ) (request : Message) (c : ClientCall ω τ) :
    Except Error (List Message) × ClientCall ω τ :=
  match c.send s request with
  | (.error e, c) => (.error e, c)
  | (.ok (), c) =>
    match c.halfClose s with
    | (.error e, c) => (.error e, c)
    | (.ok (), c) => c.receiveAll s none (fun m ms => .ok (ms ++ [m])) []

def request (s : Service ω τ) (n : Network ω) (method : Method) (m : Message) (timeout : Duration)
    (limit : Nat) : Except Error (List Message) × Network ω :=
  within s n method timeout limit (ask s m)

def single (method : Method) : List Message → Except Error Message
  | [m] => .ok m
  | ms => .error (.protocol s!"{method.name} returned {ms.length} responses, expected 1")

def unary (s : Service ω τ) (n : Network ω) (method : Method) (m : Message) (timeout : Duration)
    (limit : Nat) : Except Error Message × Network ω :=
  let (r, n) := request s n method m timeout limit
  (r.bind (single method), n)

end ClientCall

end RemoteDiscipline
