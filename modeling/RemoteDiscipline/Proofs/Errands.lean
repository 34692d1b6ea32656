import RemoteDiscipline.Connection.Basic
import RemoteDiscipline.Proofs.Frames
import RemoteDiscipline.Proofs.Moves
/-!
Calls that go well, as the server sees them.

An errand is a call that a host can carry out, with the messages of its request and of its reply. While
the request is arriving the task only takes it in (`Errand.Asking`), out of messages that have arrived
in the inbox, lie with the reader, or are still to come (`Errand.Arriving`). When all of them are there
it sends the reply (`Errand.Answering`), or comes to its end if nobody listens to that any more
(`Errand.Concluding`). Every move of the task leads from one of these to the same or to the next, and
the task can move unless it has to wait for the other end.
-/

namespace RemoteDiscipline

/-- A call that goes well so far, and that somebody listens to. -/
structure Call.Attended (c : Call) : Prop where
  cancelled : c.cancelled = false
  isOpen : c.outbox.isOpen = true
  capacity : ∃ n, c.outbox.capacity = some (n + 1)

/-- Whatever is sent goes to the outbox. -/
theorem Call.Attended.send {c c' : Call} (hc : c.Attended) {x : Message} {r : Except Error Unit}
    (h : c.send x = some (r, c')) :
    r = .ok () ∧ c'.Attended ∧ c'.outbox.items = c.outbox.items ++ [x] := by
  obtain ⟨rfl, rfl⟩ := Call.send_of_isOpen hc.isOpen h
  exact ⟨rfl, ⟨hc.cancelled, hc.isOpen, hc.capacity⟩, rfl⟩

theorem Call.Attended.send_of_empty {c : Call} (hc : c.Attended) (hitems : c.outbox.items = [])
    (x : Message) :
    c.send x = some (.ok (), { c with outbox := { c.outbox with items := c.outbox.items ++ [x] } }) := by
  obtain ⟨n, hn⟩ := hc.capacity
  exact Call.send_of_room hc.isOpen (by simp [Outbox.isFull, hn, hitems]) x

/-- A call that a host can carry out, with what is to be known of its task. -/
structure Errand (σ : Type) where
  host : Host σ
  method : Method
  messages : List Message
  replies : List Message
  status : Status
  /-- The host when the call is over. -/
  left : Host σ
  /-- The request is arriving, and these messages have been taken. -/
  Asking : List Message → Host σ → Host.Task → Prop
  /-- The request is there, and these messages of the reply have been sent. -/
  Answering : List Message → Host σ → Progress Host.Task → Prop
  /-- Some of the reply has been sent, and nobody listens to it. -/
  Concluding : Host σ → Progress Host.Task → Prop
  arrived : Asking [] host (.arrived method)
  /-- A move goes on by itself, or with what it takes from the inbox: the next message, or the end when
  all have been taken. -/
  ask {taken : List Message} {w w' : Host σ} {t : Host.Task} {c c' : Call}
    {progress : Progress Host.Task} : Asking taken w t → Host.Move w c t w' c' progress →
      (c' = c ∧ ∃ t', progress = .running t' ∧ Asking taken w' t') ∨
        ∃ r inbox, c.inbox.take = some (r, inbox) ∧ c' = { c with inbox := inbox } ∧
          (∀ x rest, r = .ok (some x) → messages = taken ++ x :: rest →
            ∃ t', progress = .running t' ∧ Asking (taken ++ [x]) w' t') ∧
          (r = .ok none → messages = taken → Answering [] w' progress)
  exists_ask {taken : List Message} {w : Host σ} {t : Host.Task} {c : Call}
    {r : Except Error (Option Message) × Inbox} : Asking taken w t → c.inbox.take = some r →
      ∃ w' c' progress, Host.Move w c t w' c' progress
  answer {said : List Message} {w w' : Host σ} {t : Host.Task} {c c' : Call}
    {progress : Progress Host.Task} : Answering said w (.running t) → c.Attended →
      Host.Move w c t w' c' progress →
      ∃ new, Answering (said ++ new) w' progress ∧ c'.Attended ∧
        c'.outbox.items = c.outbox.items ++ new
  exists_answer {said : List Message} {w : Host σ} {t : Host.Task} {c : Call} :
    Answering said w (.running t) → c.Attended → c.outbox.items = [] →
      ∃ w' c' progress, Host.Move w c t w' c' progress
  mem_replies {said : List Message} {w : Host σ} {progress : Progress Host.Task} {x : Message} :
    Answering said w progress → x ∈ said → x ∈ replies
  answered {said : List Message} {w : Host σ} {s : Status} : Answering said w (.ended s) →
    said = replies ∧ w = left ∧ s = status
  concluding {said : List Message} {w : Host σ} {progress : Progress Host.Task} :
    Answering said w progress → said ≠ [] → Concluding w progress
  conclude {w w' : Host σ} {t : Host.Task} {c c' : Call} {progress : Progress Host.Task} :
    Concluding w (.running t) → c.outbox.isOpen = false → Host.Move w c t w' c' progress →
      Concluding w' progress ∧ c' = c
  exists_conclude {w : Host σ} {t : Host.Task} {c : Call} : Concluding w (.running t) →
    c.outbox.isOpen = false → ∃ w' c' progress, Host.Move w c t w' c' progress
  concluded {w : Host σ} {s : Status} : Concluding w (.ended s) → w = left

namespace Errand

variable {σ : Type}

/-- What the client sends. -/
def request (e : Errand σ) (timeout : Nat) : List Frame :=
  .opening protocolVersion e.method timeout :: (e.messages.map .message ++ [.halfClose])

/-- What the client gets. -/
def reply (e : Errand σ) : List Frame := e.replies.map .message ++ [.close e.status]

/-- How far a request has come: the task has taken some messages, others wait in the inbox or with the
reader, and the rest is among the bytes that have arrived or in those that are still to come. -/
inductive Arriving (e : Errand σ) (more : List UInt8) (taken : List Message) :
    Reader → Inbox → List UInt8 → Prop
  | reading (pending rest : List Message) {input : List UInt8} :
      e.messages = taken ++ (pending ++ rest) →
      input ++ more = Frame.encodeAll (rest.map .message ++ [.halfClose]) →
      Arriving e more taken .reading ⟨pending.map .ok, true⟩ input
  | holding (pending rest : List Message) {x : Message} {input : List UInt8} :
      e.messages = taken ++ (pending ++ x :: rest) →
      input ++ more = Frame.encodeAll (rest.map .message ++ [.halfClose]) →
      Arriving e more taken (.holding x) ⟨pending.map .ok, true⟩ input
  | complete (pending : List Message) :
      e.messages = taken ++ pending → more = [] →
      Arriving e more taken .draining ⟨pending.map .ok, false⟩ []

section Moves

variable {e : Errand σ} {more input : List UInt8} {taken : List Message} {reader : Reader}
  {w w' : Host σ} {t : Host.Task} {c c' : Call} {progress : Progress Host.Task}

theorem Arriving.take {inbox inbox' : Inbox} {r : Except Error (Option Message)}
    (h : Arriving e more taken reader inbox input) (ht : inbox.take = some (r, inbox')) :
    (∃ x rest, r = .ok (some x) ∧ e.messages = taken ++ x :: rest ∧
        Arriving e more (taken ++ [x]) reader inbox' input) ∨
      (r = .ok none ∧ e.messages = taken ∧ reader = .draining ∧ more = [] ∧ input = []) := by
  cases h with
  | reading pending rest hm hb =>
      cases pending with
      | nil => cases ht
      | cons x pending =>
          cases ht
          exact .inl ⟨x, _, rfl, hm, .reading pending rest (by rw [hm]; simp) hb⟩
  | @holding pending rest y input hm hb =>
      cases pending with
      | nil => cases ht
      | cons x pending =>
          cases ht
          exact .inl ⟨x, _, rfl, hm, .holding pending rest (by rw [hm]; simp) hb⟩
  | complete pending hm hmore =>
      cases pending with
      | nil =>
          cases ht
          exact .inr ⟨rfl, by rw [hm, List.append_nil], rfl, hmore, rfl⟩
      | cons x pending =>
          cases ht
          exact .inl ⟨x, _, rfl, hm, .complete pending (by rw [hm]; simp) hmore⟩

/-- A move of a task whose request is arriving: it goes on taking messages, or it has all of them. -/
theorem move_of_asking (h : e.Asking taken w t) (hin : Arriving e more taken reader c.inbox input)
    (hm : Host.Move w c t w' c' progress) :
    (∃ inbox, c' = { c with inbox := inbox }) ∧
      ((∃ t' taken', progress = .running t' ∧ e.Asking taken' w' t' ∧
          Arriving e more taken' reader c'.inbox input) ∨
        (e.Answering [] w' progress ∧ reader = .draining ∧ more = [] ∧ input = [])) := by
  obtain ⟨rfl, t', hrun, h'⟩ | ⟨r, inbox, htake, rfl, hnext, hend⟩ := e.ask h hm
  · exact ⟨⟨_, rfl⟩, .inl ⟨t', taken, hrun, h', hin⟩⟩
  · refine ⟨⟨inbox, rfl⟩, ?_⟩
    obtain ⟨x, rest, hr, hmessages, hin'⟩ | ⟨hr, hmessages, hreader, hmore, hinput⟩ := hin.take htake
    · obtain ⟨t', hrun, h'⟩ := hnext x rest hr hmessages
      exact .inl ⟨t', taken ++ [x], hrun, h', hin'⟩
    · exact .inr ⟨hend hr hmessages, hreader, hmore, hinput⟩

end Moves

end Errand

end RemoteDiscipline
