import RemoteDiscipline.Arguments
import RemoteDiscipline.Config
import RemoteDiscipline.Lifecycle
import RemoteDiscipline.Plan
import RemoteDiscipline.Service.Basic
import RemoteDiscipline.Service.Gate
/-!
The service of a discipline.

A host answers all methods for one discipline. Negotiation asks about its lifecycle or moves it on.
A computation waits for its turn if the host serves one at a time, keeps a snapshot of the
declarations, collects its arguments, and runs the hook if the discipline has not been set up again
since the snapshot; then it sends what the hook has left. A host that is unlinked refuses new calls,
while those that have begun go on.
-/

namespace RemoteDiscipline

structure Host (σ : Type) where
  /-- Whether new calls are let in. -/
  linked : Bool
  lifecycle : Lifecycle σ
  /-- Where computations wait, if they are served one at a time. -/
  gate : Option Gate

/-- What a computation keeps of the lifecycle at its beginning. -/
structure Snapshot where
  metadata : Metadata
  chunkSize : Nat
  generation : Nat

namespace Host

variable {σ : Type}

/-- Hosts a discipline, which is initialised first. The lifecycle is kept also if that fails. -/
def register (d : Discipline σ) (memory : σ) (concurrency : Concurrency) :
    Except Error Unit × Host σ :=
  let (r, lifecycle) := (Lifecycle.register d memory).initialise
  let gate := match concurrency with
    | .concurrent => none
    | .serialized => some Gate.free
  (r, ⟨true, lifecycle, gate⟩)

def unlink (h : Host σ) : Host σ := { h with linked := false }

def state? (h : Host σ) : Option LifecycleState :=
  if h.linked then some h.lifecycle.state else none

def after {α : Type} (h : Host σ) (r : Except Error α × Lifecycle σ) : Except Error α × Host σ :=
  (r.1, { h with lifecycle := r.2 })

/-! ### Negotiation -/

/-- The answer to a request that is answered with an empty message, if it goes well. -/
def acknowledge (r : Except Error Unit × Host σ) : Except Error (List Message) × Host σ :=
  (r.1.map fun _ => [.empty], r.2)

/-- Answers a request. One that is not of the method's kind changes nothing. -/
def negotiate (h : Host σ) (m : Negotiation) (request : Message) :
    Except Error (List Message) × Host σ :=
  let l := h.lifecycle
  match m with
  | .setStreamOptions =>
    match request.expectStreamOptions with
    | .error e => (.error e, h)
    | .ok size => acknowledge (h.after (l.setStreamOptions size))
  | .setOptions =>
    match request.expectOptions with
    | .error e => (.error e, h)
    | .ok values => acknowledge (h.after (l.setOptions values))
  | m =>
    match request.expectEmpty with
    | .error e => (.error e, h)
    | .ok () =>
      match m with
      | .getInfo =>
        let (r, h) := h.after l.properties
        (r.map fun p => [.properties p], h)
      | .setup => acknowledge (h.after l.setup)
      | .getVariableDefinitions => (.ok (l.metadata.variableList.map .variableInfo), h)
      | .getPartialDefinitions => (.ok (l.metadata.blockList.map .blockInfo), h)
      | _ => (.ok [.optionList l.metadata.optionList], h)

/-! ### Computations -/

def unserved (kind : Kind) (c : Computation) : Error :=
  .remote .unimplemented s!"{c.name} is not served by an {kind.text} discipline"

def snapshot (h : Host σ) (c : Computation) : Except Error Snapshot :=
  if !c.servedBy h.lifecycle.kind then .error (unserved h.lifecycle.kind c)
  else
    match h.lifecycle.requireReady with
    | .error e => .error e
    | .ok () => .ok ⟨h.lifecycle.metadata, h.lifecycle.chunkSize, h.lifecycle.generation⟩

def requireCurrent (h : Host σ) (s : Snapshot) : Except Error Unit :=
  match h.lifecycle.requireReady with
  | .error e => .error e
  | .ok () =>
    if h.lifecycle.generation = s.generation then .ok ()
    else .error (.precondition "discipline was set up again while the call was in flight")

def evaluate (h : Host σ) (c : Computation) (s : Snapshot) (a : Arguments) :
    Except Error Plan × Host σ :=
  match h.requireCurrent s with
  | .error e => (.error e, h)
  | .ok () =>
    let l := h.lifecycle
    let zeros := s.metadata.buffers c.yield
    let (r, h) := h.after (l.afterHook (.compute c) (l.discipline.compute c a zeros l.memory))
    (r.map (Plan.reply s.metadata s.chunkSize c), h)

/-! ### Tasks -/

/-- How far the host is with a call. The number of a computation that had to wait is kept until it
leaves. -/
inductive Task
  | arrived (m : Method)
  /-- The request is awaited. -/
  | awaiting (m : Negotiation)
  /-- The request is there, and nothing should follow. -/
  | closing (m : Negotiation) (request : Message)
  | applying (m : Negotiation) (request : Message)
  | responding (messages : List Message)
  | queued (c : Computation) (ticket : Option Nat)
  /-- Arguments are collected. -/
  | draining (c : Computation) (ticket : Option Nat) (s : Snapshot) (a : Arguments)
  | evaluating (c : Computation) (ticket : Option Nat) (s : Snapshot) (a : Arguments)
  | sending (ticket : Option Nat) (plan : Plan)
  /-- A chunk is sent in any case, and then the rest of the plan. -/
  | committed (ticket : Option Nat) (chunk : Chunk) (rest : Plan)
  | leaving (ticket : Option Nat) (status : Status)

namespace Task

def failing (ticket : Option Nat) (e : Error) : Task := .leaving ticket e.toStatus

def ticket : Task → Option Nat
  | .queued _ t | .draining _ t _ _ | .evaluating _ t _ _ | .sending t _ | .committed t _ _
  | .leaving t _ => t
  | _ => none

def ofRequest (m : Negotiation) (r : Except Error (Option Message)) : Task :=
  match Call.requestOf (.negotiate m) r with
  | .ok request => .closing m request
  | .error e => .failing none e

def ofEnd (m : Negotiation) (request : Message) (r : Except Error (Option Message)) : Task :=
  match Call.endOf (.negotiate m) r with
  | .ok () => .applying m request
  | .error e => .failing none e

def ofArgument (c : Computation) (ticket : Option Nat) (s : Snapshot) (a : Arguments) :
    Except Error (Option Message) → Task
  | .ok none => .evaluating c ticket s a
  | .ok (some m) =>
    match a.receive s.metadata c m with
    | .ok a => .draining c ticket s a
    | .error e => .failing ticket e
  | .error e => .failing ticket e

def ofResponse (rest : List Message) : Except Error Unit → Task
  | .ok () => .responding rest
  | .error e => .failing none e

def ofChunk (ticket : Option Nat) (rest : Plan) : Except Error Unit → Task
  | .ok () => .sending ticket rest
  | .error e => .failing ticket e

def stage : Task → Nat
  | .arrived _ => 5
  | .awaiting _ | .queued _ _ => 4
  | .closing _ _ | .draining _ _ _ _ => 3
  | .applying _ _ | .evaluating _ _ _ _ => 2
  | .responding _ | .sending _ _ | .committed _ _ _ => 1
  | .leaving _ _ => 0

def load : Task → Nat
  | .responding messages => messages.length
  | .sending _ plan => 2 * plan.parcels.length
  | .committed _ _ rest => 2 * rest.parcels.length + 1
  | _ => 0

end Task

def letIn (h : Host σ) (m : Method) : Host σ × Task :=
  if !h.linked then (h, .failing none (.precondition "Discipline is not linked"))
  else
    match m, h.gate with
    | .negotiate m, _ => (h, .awaiting m)
    | .compute c, none => (h, .queued c none)
    | .compute c, some gate =>
      let (ticket, gate) := gate.join
      ({ h with gate := some gate }, .queued c (some ticket))

def hasTurn (h : Host σ) (ticket : Option Nat) : Bool :=
  match h.gate, ticket with
  | some gate, some ticket => gate.admits ticket
  | _, _ => true

def release (h : Host σ) (ticket : Option Nat) : Host σ :=
  match h.gate, ticket with
  | some gate, some ticket => { h with gate := some (gate.leave ticket) }
  | _, _ => h

def demand (h : Host σ) (cancelled : Bool) : Task → Demand (Host σ) Task
  | .arrived m =>
    let (h, t) := h.letIn m
    .proceed h t
  | .awaiting m => .receive (Task.ofRequest m)
  | .closing m request => .receive (Task.ofEnd m request)
  | .applying m request =>
    match h.negotiate m request with
    | (.ok messages, h) => .proceed h (.responding messages)
    | (.error e, h) => .proceed h (.failing none e)
  | .responding [] => .proceed h (.leaving none .ok)
  | .responding (m :: rest) => .send m (Task.ofResponse rest)
  | .queued c ticket =>
    if h.hasTurn ticket then
      match h.snapshot c with
      | .ok s => .proceed h (.draining c ticket s (.zeros s.metadata c))
      | .error e => .proceed h (.failing ticket e)
    else .wait
  | .draining c ticket s a => .receive (Task.ofArgument c ticket s a)
  | .evaluating c ticket s a =>
    match h.evaluate c s a with
    | (.ok plan, h) => .proceed h (.sending ticket plan)
    | (.error e, h) => .proceed h (.failing ticket e)
  | .sending ticket ⟨[], .ok ()⟩ => .proceed h (.leaving ticket .ok)
  | .sending ticket ⟨[], .error e⟩ => .proceed h (.failing ticket e)
  | .sending ticket ⟨p :: rest, ending⟩ =>
    if cancelled then .proceed h (.failing ticket p.stopped)
    else .proceed h (.committed ticket p.chunk ⟨rest, ending⟩)
  | .committed ticket chunk rest => .send (.chunk chunk) (Task.ofChunk ticket rest)
  | .leaving ticket status => .finish (h.release ticket) status

/-! ### Why calls settle -/

theorem stage_ofRequest_lt (m : Negotiation) (r : Except Error (Option Message)) :
    (Task.ofRequest m r).stage < 4 := by
  unfold Task.ofRequest
  split <;> simp [Task.stage, Task.failing]

theorem stage_ofEnd_lt (m : Negotiation) (request : Message) (r : Except Error (Option Message)) :
    (Task.ofEnd m request r).stage < 3 := by
  unfold Task.ofEnd
  split <;> simp [Task.stage, Task.failing]

theorem stage_ofArgument_le (c : Computation) (ticket : Option Nat) (s : Snapshot) (a : Arguments)
    (r : Except Error (Option Message)) : (Task.ofArgument c ticket s a r).stage ≤ 3 := by
  unfold Task.ofArgument
  split
  · simp [Task.stage]
  · split <;> simp [Task.stage, Task.failing]
  · simp [Task.stage, Task.failing]

theorem stage_letIn (h : Host σ) (m : Method) : (h.letIn m).2.stage < 5 := by
  unfold letIn
  split
  · simp [Task.stage, Task.failing]
  · split <;> simp [Task.stage]

theorem demand_eq_receive {h : Host σ} {b : Bool} {t : Task}
    {next : Except Error (Option Message) → Task} (hd : demand h b t = .receive next) :
    (∃ m, t = .awaiting m ∧ next = Task.ofRequest m) ∨
      (∃ m request, t = .closing m request ∧ next = Task.ofEnd m request) ∨
      ∃ c ticket s a, t = .draining c ticket s a ∧ next = Task.ofArgument c ticket s a := by
  unfold demand at hd
  split at hd
  case h_2 => cases hd; exact .inl ⟨_, rfl, rfl⟩
  case h_3 => cases hd; exact .inr (.inl ⟨_, _, rfl, rfl⟩)
  case h_8 => cases hd; exact .inr (.inr ⟨_, _, _, _, rfl, rfl⟩)
  all_goals first | cases hd | (split at hd <;> first | cases hd | (split at hd <;> cases hd))

theorem demand_eq_send {h : Host σ} {b : Bool} {t : Task} {m : Message}
    {next : Except Error Unit → Task} (hd : demand h b t = .send m next) :
    (∃ rest, t = .responding (m :: rest) ∧ next = Task.ofResponse rest) ∨
      ∃ ticket chunk rest, t = .committed ticket chunk rest ∧ m = .chunk chunk ∧
        next = Task.ofChunk ticket rest := by
  unfold demand at hd
  split at hd
  case h_6 => cases hd; exact .inl ⟨_, rfl, rfl⟩
  case h_13 => cases hd; exact .inr ⟨_, _, _, rfl, rfl, rfl⟩
  all_goals first | cases hd | (split at hd <;> first | cases hd | (split at hd <;> cases hd))

/-- A task that goes on by itself enters a later stage, or commits itself to a chunk. -/
theorem demand_eq_proceed {h h' : Host σ} {b : Bool} {t t' : Task}
    (hd : demand h b t = .proceed h' t') :
    t'.stage < t.stage ∨ t'.stage = t.stage ∧ t'.load < t.load := by
  unfold demand at hd
  split at hd
  case h_1 =>
    cases hd
    exact .inl (stage_letIn h _)
  case h_4 => split at hd <;> cases hd <;> exact .inl (by simp [Task.stage, Task.failing])
  case h_5 =>
    cases hd
    exact .inl (by simp [Task.stage])
  case h_7 =>
    split at hd
    · split at hd <;> cases hd <;> exact .inl (by simp [Task.stage, Task.failing])
    · cases hd
  case h_9 => split at hd <;> cases hd <;> exact .inl (by simp [Task.stage, Task.failing])
  case h_10 | h_11 =>
    cases hd
    exact .inl (by simp [Task.stage, Task.failing])
  case h_12 =>
    split at hd
    · cases hd
      exact .inl (by simp [Task.stage, Task.failing])
    · cases hd
      exact .inr ⟨rfl, by simp only [Task.load, List.length_cons]; omega⟩
  all_goals cases hd

def service : Service (Host σ) Task where
  start := .arrived
  demand := demand
  abandon h t := h.release t.ticket
  stage := Task.stage
  load := Task.load
  proceed_lt := demand_eq_proceed
  receive_le hd r := by
    rcases demand_eq_receive hd with ⟨m, rfl, rfl⟩ | ⟨m, request, rfl, rfl⟩ | ⟨c, k, s, a, rfl, rfl⟩
    · exact Nat.le_of_lt (stage_ofRequest_lt m r)
    · exact Nat.le_of_lt (stage_ofEnd_lt m request r)
    · exact stage_ofArgument_le c k s a r
  receive_end_lt hd := by
    rcases demand_eq_receive hd with ⟨m, rfl, rfl⟩ | ⟨m, request, rfl, rfl⟩ | ⟨c, k, s, a, rfl, rfl⟩
    · exact stage_ofRequest_lt m _
    · exact stage_ofEnd_lt m request _
    · simp [Task.ofArgument, Task.stage]
  send_lt hd r := by
    rcases demand_eq_send hd with ⟨rest, rfl, rfl⟩ | ⟨k, chunk, rest, rfl, rfl, rfl⟩ <;> cases r
    · exact .inl Nat.zero_lt_one
    · exact .inr ⟨rfl, Nat.lt_succ_self _⟩
    · exact .inl Nat.zero_lt_one
    · exact .inr ⟨rfl, Nat.lt_succ_self _⟩

end Host

end RemoteDiscipline
