import RemoteDiscipline.Proofs.Delivery
import RemoteDiscipline.Proofs.Errands
import RemoteDiscipline.Proofs.Plans
import RemoteDiscipline.Proofs.Snapshots
/-!
Computations that a host carries out.

While the request of a computation is arriving, the task only collects its arguments
(`Evaluation.Asking`). When all of them are there the hook runs, once, and what it has left is sent
(`Evaluation.Answering`); behind the hook no move does anything to the host but leave it
(`Evaluation.Concluding`). So the computation is an errand (`Evaluation.errand`).
-/

namespace RemoteDiscipline

def Plan.status : Except Error Unit → Status
  | .ok () => .ok
  | .error e => e.toStatus

/-- A computation that a host takes in, with the messages of its request and what they amount to. -/
structure Evaluation (σ : Type) where
  host : Host σ
  computation : Computation
  ticket : Option Nat
  snapshot : Snapshot
  messages : List Message
  arguments : Arguments
  letIn : (host.letIn (.compute computation)).2 = .queued computation ticket
  turn : (host.letIn (.compute computation)).1.hasTurn ticket
  taken : (host.letIn (.compute computation)).1.snapshot computation = .ok snapshot
  collected : (Arguments.zeros snapshot.metadata computation).receiveAll snapshot.metadata computation
    messages = .ok arguments

namespace Evaluation

variable {σ : Type}

section Outcome

variable (e : Evaluation σ)

def inside : Host σ := (e.host.letIn (.compute e.computation)).1

def outcome : Except Error Plan × Host σ :=
  e.inside.evaluate e.computation e.snapshot e.arguments

def chunks : List Chunk :=
  match e.outcome.1 with
  | .ok p => p.chunks
  | .error _ => []

def replies : List Message := e.chunks.map .chunk

def status : Status :=
  match e.outcome.1 with
  | .ok p => Plan.status p.ending
  | .error err => err.toStatus

end Outcome

/-! ### The invariant -/

inductive Asking (e : Evaluation σ) : List Message → Host σ → Host.Task → Prop
  | arrived : Asking e [] e.host (.arrived (.compute e.computation))
  | queued : Asking e [] e.inside (.queued e.computation e.ticket)
  | draining {taken : List Message} {a : Arguments} :
      (Arguments.zeros e.snapshot.metadata e.computation).receiveAll e.snapshot.metadata
        e.computation taken = .ok a →
      Asking e taken e.inside (.draining e.computation e.ticket e.snapshot a)

inductive Answering (e : Evaluation σ) : List Message → Host σ → Progress Host.Task → Prop
  | evaluating :
      Answering e [] e.inside
        (.running (.evaluating e.computation e.ticket e.snapshot e.arguments))
  | sending {p : Plan} {said : List Message} :
      said ++ p.chunks.map .chunk = e.replies → Plan.status p.ending = e.status →
      Answering e said e.outcome.2 (.running (.sending e.ticket p))
  | committed {c : Chunk} {p : Plan} {said : List Message} :
      said ++ .chunk c :: p.chunks.map .chunk = e.replies → Plan.status p.ending = e.status →
      Answering e said e.outcome.2 (.running (.committed e.ticket c p))
  | leaving : Answering e e.replies e.outcome.2 (.running (.leaving e.ticket e.status))
  | ended : Answering e e.replies (e.outcome.2.release e.ticket) (.ended e.status)

inductive Concluding (e : Evaluation σ) : Host σ → Progress Host.Task → Prop
  | sending {p : Plan} : Concluding e e.outcome.2 (.running (.sending e.ticket p))
  | committed {c : Chunk} {p : Plan} :
      Concluding e e.outcome.2 (.running (.committed e.ticket c p))
  | leaving {status : Status} : Concluding e e.outcome.2 (.running (.leaving e.ticket status))
  | ended {status : Status} : Concluding e (e.outcome.2.release e.ticket) (.ended status)

/-! ### Moves -/

section Moves

variable {e : Evaluation σ} {taken said : List Message} {w w' : Host σ} {t : Host.Task}
  {c c' : Call} {progress : Progress Host.Task}

theorem Asking.move (h : Asking e taken w t) (hm : Host.Move w c t w' c' progress) :
    (c' = c ∧ ∃ t', progress = .running t' ∧ Asking e taken w' t') ∨
      ∃ r inbox, c.inbox.take = some (r, inbox) ∧ c' = { c with inbox := inbox } ∧
        (∀ x rest, r = .ok (some x) → e.messages = taken ++ x :: rest →
          ∃ t', progress = .running t' ∧ Asking e (taken ++ [x]) w' t') ∧
        (r = .ok none → e.messages = taken → Answering e [] w' progress) := by
  cases h with
  | arrived =>
      cases hm with
      | letIn m =>
          refine .inl ⟨rfl, _, rfl, ?_⟩
          rw [e.letIn]
          exact .queued
  | queued =>
      cases hm with
      | start hturn hs =>
          -- Nothing has happened to the host, so this is the snapshot of the errand.
          have hsnapshot := e.taken.symm.trans hs
          cases hsnapshot
          exact .inl ⟨rfl, _, rfl, .draining rfl⟩
      | refuse hturn hs => cases e.taken.symm.trans hs
  | @draining _ a hcollected =>
      cases hm with
      | drain hr =>
          obtain ⟨inbox, ht, rfl⟩ := Call.receive_eq_some hr
          refine .inr ⟨_, inbox, ht, rfl, ?_, ?_⟩
          -- The whole request can be received, so the next message can.
          · rintro x rest rfl hmessages
            obtain ⟨a', ha'⟩ : ∃ a', a.receive e.snapshot.metadata e.computation x = .ok a' := by
              have hall := e.collected
              rw [hmessages, Arguments.receiveAll_append, hcollected] at hall
              change a.receiveAll _ _ (x :: rest) = _ at hall
              rw [Arguments.receiveAll_cons] at hall
              obtain ⟨a', ha', -⟩ := exists_of_bind_eq_ok hall
              exact ⟨a', ha'⟩
            refine ⟨.draining e.computation e.ticket e.snapshot a', ?_, ?_⟩
            · rw [Host.Task.ofArgument, ha']
            · exact .draining ((Arguments.receiveAll_concat hcollected x).trans ha')
          -- All messages have been taken, and what they amount to is known.
          · rintro rfl hmessages
            have hsame := e.collected
            rw [hmessages, hcollected] at hsame
            cases hsame
            exact .evaluating

/-- A move of a task whose request is there: what it sends goes to the outbox. -/
theorem Answering.move (h : Answering e said w (.running t)) (hc : c.Attended)
    (hm : Host.Move w c t w' c' progress) :
    ∃ new, Answering e (said ++ new) w' progress ∧ c'.Attended ∧
      c'.outbox.items = c.outbox.items ++ new := by
  have hnothing : c.outbox.items = c.outbox.items ++ [] := by simp
  cases h with
  | evaluating =>
      cases hm with
      | @evaluate _ _ _ _ plan _ heval =>
          -- This is the one time that the hook runs.
          have houtcome : e.outcome = (.ok plan, w') := heval
          refine ⟨[], ?_, hc, hnothing⟩
          have hworld : w' = e.outcome.2 := by rw [houtcome]
          rw [hworld]
          refine .sending ?_ ?_
          · rw [replies, chunks, houtcome]
            rfl
          · rw [status, houtcome]
      | @abort _ _ _ _ err _ heval =>
          have houtcome : e.outcome = (.error err, w') := heval
          refine ⟨[], ?_, hc, hnothing⟩
          have hworld : w' = e.outcome.2 := by rw [houtcome]
          have hreplies : e.replies = [] := by
            rw [replies, chunks, houtcome]
            rfl
          have hstatus : e.status = err.toStatus := by rw [status, houtcome]
          rw [hworld, Host.Task.failing, ← hstatus, List.append_nil, ← hreplies]
          exact .leaving
  | sending hchunks hstatus =>
      cases hm with
      | sent =>
          have hsaid : said = e.replies := (List.append_nil said).symm.trans hchunks
          have hok : Status.ok = e.status := hstatus
          refine ⟨[], ?_, hc, hnothing⟩
          rw [List.append_nil, hsaid, hok]
          exact .leaving
      | @cut _ err =>
          have hsaid : said = e.replies := (List.append_nil said).symm.trans hchunks
          have herror : err.toStatus = e.status := hstatus
          refine ⟨[], ?_, hc, hnothing⟩
          rw [List.append_nil, hsaid, Host.Task.failing, herror]
          exact .leaving
      | stop hcancelled =>
          rw [hc.cancelled] at hcancelled
          cases hcancelled
      | commit => exact ⟨[], .committed (by rw [List.append_nil]; exact hchunks) hstatus, hc, hnothing⟩
  | @committed chunk p _ hchunks hstatus =>
      cases hm with
      | put hsend =>
          obtain ⟨rfl, hc', hitems⟩ := hc.send hsend
          refine ⟨[.chunk chunk], ?_, hc', hitems⟩
          exact .sending (by rw [List.append_assoc]; exact hchunks) hstatus
  | leaving =>
      cases hm with
      | leave => exact ⟨[], by rw [List.append_nil]; exact .ended, hc, hnothing⟩

theorem Answering.mem_replies (h : Answering e said w progress) {x : Message} (hx : x ∈ said) :
    x ∈ e.replies := by
  cases h with
  | evaluating => cases hx
  | sending hchunks | committed hchunks => exact hchunks ▸ List.mem_append_left _ hx
  | leaving | ended => exact hx

theorem Answering.concluding (h : Answering e said w progress) (hne : said ≠ []) :
    Concluding e w progress := by
  cases h with
  | evaluating => exact absurd rfl hne
  | sending => exact .sending
  | committed => exact .committed
  | leaving => exact .leaving
  | ended => exact .ended

theorem Concluding.move (h : Concluding e w (.running t))
    (hclosed : c.outbox.isOpen = false) (hm : Host.Move w c t w' c' progress) :
    Concluding e w' progress ∧ c' = c := by
  cases h with
  | sending =>
      cases hm with
      | sent => exact ⟨.leaving, rfl⟩
      | cut | stop => exact ⟨.leaving, rfl⟩
      | commit => exact ⟨.committed, rfl⟩
  | committed =>
      cases hm with
      | @put _ _ _ r _ hsend =>
          obtain ⟨r', hclosed'⟩ := Call.send_of_isClosed hclosed _
          rw [hclosed'] at hsend
          cases hsend
          refine ⟨?_, rfl⟩
          cases r with
          | ok u => exact .sending
          | error err => exact .leaving
  | leaving =>
      cases hm with
      | leave => exact ⟨.ended, rfl⟩

theorem Concluding.exists_move (h : Concluding e w (.running t))
    (hclosed : c.outbox.isOpen = false) : ∃ w' c' progress, Host.Move w c t w' c' progress := by
  cases h with
  | @sending p =>
      obtain ⟨parcels, ending⟩ := p
      cases parcels with
      | nil =>
          cases ending with
          | ok u => exact ⟨_, _, _, .sent⟩
          | error err => exact ⟨_, _, _, .cut⟩
      | cons parcel parcels =>
          cases hcancelled : c.cancelled with
          | true => exact ⟨_, _, _, .stop hcancelled⟩
          | false => exact ⟨_, _, _, .commit hcancelled⟩
  | @committed chunk =>
      obtain ⟨r, hsend⟩ := Call.send_of_isClosed hclosed (.chunk chunk)
      exact ⟨_, _, _, .put hsend⟩
  | leaving => exact ⟨_, _, _, .leave⟩

/-- A task that can take something has a move, and so has one that has not begun to take. -/
theorem Asking.exists_move (h : Asking e taken w t)
    {r : Except Error (Option Message) × Inbox} (hr : c.inbox.take = some r) :
    ∃ w' c' progress, Host.Move w c t w' c' progress := by
  cases h with
  | arrived => exact ⟨_, _, _, .letIn _⟩
  | queued => exact ⟨_, _, _, .start e.turn e.taken⟩
  | draining => exact ⟨_, _, _, .drain (Call.receive_of_take hr)⟩

theorem Answering.exists_move (h : Answering e said w (.running t)) (hc : c.Attended)
    (hitems : c.outbox.items = []) : ∃ w' c' progress, Host.Move w c t w' c' progress := by
  cases h with
  | evaluating =>
      cases heval : e.inside.evaluate e.computation e.snapshot e.arguments with
      | mk r w' =>
          cases r with
          | ok plan => exact ⟨_, _, _, .evaluate heval⟩
          | error err => exact ⟨_, _, _, .abort heval⟩
  | @sending p =>
      obtain ⟨parcels, ending⟩ := p
      cases parcels with
      | nil =>
          cases ending with
          | ok u => exact ⟨_, _, _, .sent⟩
          | error err => exact ⟨_, _, _, .cut⟩
      | cons parcel parcels => exact ⟨_, _, _, .commit hc.cancelled⟩
  | committed => exact ⟨_, _, _, .put (hc.send_of_empty hitems _)⟩
  | leaving => exact ⟨_, _, _, .leave⟩

end Moves

def errand (e : Evaluation σ) : Errand σ where
  host := e.host
  method := .compute e.computation
  messages := e.messages
  replies := e.replies
  status := e.status
  left := e.outcome.2.release e.ticket
  Asking := e.Asking
  Answering := e.Answering
  Concluding := e.Concluding
  arrived := .arrived
  ask := Asking.move
  exists_ask h := h.exists_move
  answer := Answering.move
  exists_answer := Answering.exists_move
  mem_replies h := h.mem_replies
  answered h := by
    cases h
    exact ⟨rfl, rfl, rfl⟩
  concluding := Answering.concluding
  conclude := Concluding.move
  exists_conclude := Concluding.exists_move
  concluded h := by
    cases h
    rfl

end Evaluation

end RemoteDiscipline
