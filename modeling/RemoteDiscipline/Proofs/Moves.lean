import RemoteDiscipline.Service.Host
/-!
What one step of a call does to a host.

`Host.Move` lists the moves of a task with everything that each of them may change: the host, the ends
of the call, and how far the call has come. `Host.advance_iff_move` says that these are the steps of
the service, so whatever has to be shown of a step is shown move by move and nothing below looks into
`Host.demand` again. Behind the door a move depends on the lifecycle and on whether it is the task's
turn, and on nothing else of the host (`Host.Move.elsewhere`).
-/

namespace RemoteDiscipline

theorem Call.send_of_room {c : Call} (hopen : c.outbox.isOpen = true)
    (hroom : c.outbox.isFull = false) (m : Message) :
    c.send m =
      some (.ok (), { c with outbox := { c.outbox with items := c.outbox.items ++ [m] } }) := by
  simp [Call.send, Outbox.put, hopen, hroom]

theorem Call.send_of_isOpen {c c' : Call} {m : Message} {r : Except Error Unit}
    (hopen : c.outbox.isOpen = true) (h : c.send m = some (r, c')) :
    r = .ok () ∧ c' = { c with outbox := { c.outbox with items := c.outbox.items ++ [m] } } := by
  obtain ⟨⟨b, outbox⟩, hput, he⟩ := Option.map_eq_some_iff.mp h
  unfold Outbox.put at hput
  rw [if_neg (by simp [hopen])] at hput
  split at hput
  · cases hput
  · cases hput
    cases he
    exact ⟨rfl, rfl⟩

theorem Call.send_of_isClosed {c : Call} (hclosed : c.outbox.isOpen = false) (m : Message) :
    ∃ r, c.send m = some (r, c) := by
  simp [Call.send, Outbox.put, hclosed]

theorem Call.receive_eq_some {c c' : Call} {r : Except Error (Option Message)}
    (h : c.receive = some (r, c')) :
    ∃ inbox, c.inbox.take = some (r, inbox) ∧ c' = { c with inbox := inbox } := by
  obtain ⟨⟨r', inbox⟩, ht, he⟩ := Option.map_eq_some_iff.mp h
  cases he
  exact ⟨inbox, ht, rfl⟩

theorem Call.receive_of_take {c : Call} {r : Except Error (Option Message)} {inbox : Inbox}
    (h : c.inbox.take = some (r, inbox)) : c.receive = some (r, { c with inbox := inbox }) := by
  rw [Call.receive, h]
  rfl

namespace Host

variable {σ : Type}

/-- The moves of a task: from a host and the ends of a call to what they are afterwards. -/
inductive Move (h : Host σ) (c : Call) : Task → Host σ → Call → Progress Task → Prop
  | letIn (m : Method) : Move h c (.arrived m) (h.letIn m).1 c (.running (h.letIn m).2)
  | request {m : Negotiation} {r : Except Error (Option Message)} {c' : Call} :
      c.receive = some (r, c') → Move h c (.awaiting m) h c' (.running (.ofRequest m r))
  | close {m : Negotiation} {request : Message} {r : Except Error (Option Message)} {c' : Call} :
      c.receive = some (r, c') →
      Move h c (.closing m request) h c' (.running (.ofEnd m request r))
  | apply {m : Negotiation} {request : Message} {messages : List Message} {h' : Host σ} :
      h.negotiate m request = (.ok messages, h') →
      Move h c (.applying m request) h' c (.running (.responding messages))
  | decline {m : Negotiation} {request : Message} {e : Error} {h' : Host σ} :
      h.negotiate m request = (.error e, h') →
      Move h c (.applying m request) h' c (.running (.failing none e))
  | responded : Move h c (.responding []) h c (.running (.leaving none .ok))
  | respond {m : Message} {rest : List Message} {r : Except Error Unit} {c' : Call} :
      c.send m = some (r, c') →
      Move h c (.responding (m :: rest)) h c' (.running (.ofResponse rest r))
  | start {k : Computation} {ticket : Option Nat} {s : Snapshot} :
      h.hasTurn ticket → h.snapshot k = .ok s →
      Move h c (.queued k ticket) h c (.running (.draining k ticket s (.zeros s.metadata k)))
  | refuse {k : Computation} {ticket : Option Nat} {e : Error} :
      h.hasTurn ticket → h.snapshot k = .error e →
      Move h c (.queued k ticket) h c (.running (.failing ticket e))
  | drain {k : Computation} {ticket : Option Nat} {s : Snapshot} {a : Arguments}
      {r : Except Error (Option Message)} {c' : Call} :
      c.receive = some (r, c') →
      Move h c (.draining k ticket s a) h c' (.running (.ofArgument k ticket s a r))
  | evaluate {k : Computation} {ticket : Option Nat} {s : Snapshot} {a : Arguments} {plan : Plan}
      {h' : Host σ} :
      h.evaluate k s a = (.ok plan, h') →
      Move h c (.evaluating k ticket s a) h' c (.running (.sending ticket plan))
  | abort {k : Computation} {ticket : Option Nat} {s : Snapshot} {a : Arguments} {e : Error}
      {h' : Host σ} :
      h.evaluate k s a = (.error e, h') →
      Move h c (.evaluating k ticket s a) h' c (.running (.failing ticket e))
  | sent {ticket : Option Nat} :
      Move h c (.sending ticket ⟨[], .ok ()⟩) h c (.running (.leaving ticket .ok))
  | cut {ticket : Option Nat} {e : Error} :
      Move h c (.sending ticket ⟨[], .error e⟩) h c (.running (.failing ticket e))
  | stop {ticket : Option Nat} {p : Parcel} {rest : List Parcel} {ending : Except Error Unit} :
      c.cancelled = true →
      Move h c (.sending ticket ⟨p :: rest, ending⟩) h c (.running (.failing ticket p.stopped))
  | commit {ticket : Option Nat} {p : Parcel} {rest : List Parcel} {ending : Except Error Unit} :
      c.cancelled = false →
      Move h c (.sending ticket ⟨p :: rest, ending⟩) h c
        (.running (.committed ticket p.chunk ⟨rest, ending⟩))
  | put {ticket : Option Nat} {chunk : Chunk} {rest : Plan} {r : Except Error Unit} {c' : Call} :
      c.send (.chunk chunk) = some (r, c') →
      Move h c (.committed ticket chunk rest) h c' (.running (.ofChunk ticket rest r))
  | leave {ticket : Option Nat} {status : Status} :
      Move h c (.leaving ticket status) (h.release ticket) c (.ended status)

variable {h h' : Host σ} {c c' : Served Task}

theorem move_of_advance (ha : c.advance service h = some (h', c')) :
    ∃ t, c.progress = .running t ∧ Move h c.toCall t h' c'.toCall c'.progress := by
  obtain ⟨call, progress⟩ := c
  cases progress with
  | ended status => cases ha
  | running t =>
      refine ⟨t, rfl, ?_⟩
      simp only [Served.advance, service] at ha
      cases t with
      | arrived m =>
          cases ha
          exact .letIn m
      | awaiting m =>
          obtain ⟨⟨r, call'⟩, hr, he⟩ := Option.map_eq_some_iff.mp ha
          cases he
          exact .request hr
      | closing m request =>
          obtain ⟨⟨r, call'⟩, hr, he⟩ := Option.map_eq_some_iff.mp ha
          cases he
          exact .close hr
      | applying m request =>
          cases hn : h.negotiate m request with
          | mk r h₁ =>
              cases r with
              | ok messages =>
                  simp only [demand, hn] at ha
                  cases ha
                  exact .apply hn
              | error e =>
                  simp only [demand, hn] at ha
                  cases ha
                  exact .decline hn
      | responding messages =>
          cases messages with
          | nil =>
              cases ha
              exact .responded
          | cons m rest =>
              obtain ⟨⟨r, call'⟩, hr, he⟩ := Option.map_eq_some_iff.mp ha
              cases he
              exact .respond hr
      | queued k ticket =>
          by_cases hturn : h.hasTurn ticket
          · cases hs : h.snapshot k with
            | ok s =>
                simp only [demand, hturn, hs, if_true] at ha
                cases ha
                exact .start hturn hs
            | error e =>
                simp only [demand, hturn, hs, if_true] at ha
                cases ha
                exact .refuse hturn hs
          · simp [demand, hturn] at ha
      | draining k ticket s a =>
          obtain ⟨⟨r, call'⟩, hr, he⟩ := Option.map_eq_some_iff.mp ha
          cases he
          exact .drain hr
      | evaluating k ticket s a =>
          cases hn : h.evaluate k s a with
          | mk r h₁ =>
              cases r with
              | ok plan =>
                  simp only [demand, hn] at ha
                  cases ha
                  exact .evaluate hn
              | error e =>
                  simp only [demand, hn] at ha
                  cases ha
                  exact .abort hn
      | sending ticket plan =>
          obtain ⟨parcels, ending⟩ := plan
          cases parcels with
          | nil =>
              cases ending with
              | ok u =>
                  cases ha
                  exact .sent
              | error e =>
                  cases ha
                  exact .cut
          | cons p rest =>
              cases hb : call.cancelled with
              | true =>
                  simp only [demand, hb, if_true] at ha
                  cases ha
                  exact .stop hb
              | false =>
                  simp only [demand, hb, Bool.false_eq_true, if_false] at ha
                  cases ha
                  exact .commit hb
      | committed ticket chunk rest =>
          obtain ⟨⟨r, call'⟩, hr, he⟩ := Option.map_eq_some_iff.mp ha
          cases he
          exact .put hr
      | leaving ticket status =>
          cases ha
          exact .leave

theorem advance_of_move {call call' : Call} {t : Task} {progress : Progress Task}
    (hm : Move h call t h' call' progress) :
    Served.advance service h ⟨call, .running t⟩ = some (h', ⟨call', progress⟩) := by
  cases hm with
  | letIn m => rfl
  | request hr | close hr | respond hr | drain hr | put hr =>
      simp [Served.advance, service, demand, hr]
  | apply hn | decline hn | evaluate hn | abort hn =>
      simp [Served.advance, service, demand, hn]
  | responded | sent | cut | leave => rfl
  | start hturn hs | refuse hturn hs => simp [Served.advance, service, demand, hturn, hs]
  | stop hb | commit hb => simp [Served.advance, service, demand, hb]

/-- The steps of the service are the moves of its tasks. -/
theorem advance_iff_move {call call' : Call} {t : Task} {progress : Progress Task} :
    Served.advance service h ⟨call, .running t⟩ = some (h', ⟨call', progress⟩) ↔
      Move h call t h' call' progress := by
  constructor
  · intro ha
    obtain ⟨t', ht, hm⟩ := move_of_advance ha
    cases ht
    exact hm
  · exact advance_of_move

/-! ### Moves on other hosts -/

def Task.isArrived : Task → Bool
  | .arrived _ => true
  | _ => false

/-- The host without the place in line that a task gives up with its last step. -/
def leftBy (h : Host σ) : Task → Host σ
  | .leaving ticket _ => h.release ticket
  | _ => h

@[simp] theorem release_none (h : Host σ) : h.release none = h := by
  obtain ⟨linked, lifecycle, _ | gate⟩ := h <;> rfl

theorem negotiate_elsewhere {h h₂ : Host σ} (hl : h₂.lifecycle = h.lifecycle) (m : Negotiation)
    (request : Message) :
    h₂.negotiate m request = ((h.negotiate m request).1,
      { h₂ with lifecycle := (h.negotiate m request).2.lifecycle }) := by
  cases m with
  | setStreamOptions =>
      simp only [negotiate, hl]
      cases request.expectStreamOptions with
      | error e => simp [← hl]
      | ok size => rfl
  | setOptions =>
      simp only [negotiate, hl]
      cases request.expectOptions with
      | error e => simp [← hl]
      | ok values => rfl
  | getInfo | setup | getVariableDefinitions | getPartialDefinitions | getAvailableOptions =>
      simp only [negotiate, hl]
      cases request.expectEmpty with
      | error e => simp [← hl]
      | ok u => simp [acknowledge, after, ← hl]

theorem evaluate_elsewhere {h h₂ : Host σ} (hl : h₂.lifecycle = h.lifecycle) (k : Computation)
    (s : Snapshot) (a : Arguments) :
    h₂.evaluate k s a =
      ((h.evaluate k s a).1, { h₂ with lifecycle := (h.evaluate k s a).2.lifecycle }) := by
  simp only [evaluate, requireCurrent, hl]
  split
  · simp [← hl]
  · rfl

theorem snapshot_elsewhere {h h₂ : Host σ} (hl : h₂.lifecycle = h.lifecycle) (k : Computation) :
    h₂.snapshot k = h.snapshot k := by
  simp only [snapshot, hl]

/-- A task that is past the door can make its move on every host with the same lifecycle, if it has
its turn there, too. Of the host only the lifecycle changes, until the task gives up its place. -/
theorem Move.elsewhere {h h' h₂ : Host σ} {c c' : Call} {t : Task} {progress : Progress Task}
    (hm : Move h c t h' c' progress) (ht : t.isArrived = false)
    (hl : h₂.lifecycle = h.lifecycle)
    (hturn : ∀ k ticket, t = .queued k ticket → h.hasTurn ticket → h₂.hasTurn ticket) :
    Move h₂ c t { h₂.leftBy t with lifecycle := h'.lifecycle } c' progress := by
  -- Most moves leave the host as it is.
  have same (hleft : h₂.leftBy t = h₂) (hkept : h'.lifecycle = h.lifecycle)
      (hm₂ : Move h₂ c t h₂ c' progress) :
      Move h₂ c t { h₂.leftBy t with lifecycle := h'.lifecycle } c' progress := by
    rw [hleft, hkept, ← hl]
    exact hm₂
  cases hm with
  | letIn m => cases ht
  | request hr => exact same rfl rfl (.request hr)
  | close hr => exact same rfl rfl (.close hr)
  | @apply m request messages h' hn =>
      apply Move.apply
      rw [negotiate_elsewhere hl, hn]
      rfl
  | @decline m request e h' hn =>
      apply Move.decline
      rw [negotiate_elsewhere hl, hn]
      rfl
  | responded => exact same rfl rfl .responded
  | respond hs => exact same rfl rfl (.respond hs)
  | start hadmitted hs =>
      exact same rfl rfl (.start (hturn _ _ rfl hadmitted) (snapshot_elsewhere hl _ ▸ hs))
  | refuse hadmitted hs =>
      exact same rfl rfl (.refuse (hturn _ _ rfl hadmitted) (snapshot_elsewhere hl _ ▸ hs))
  | drain hr => exact same rfl rfl (.drain hr)
  | @evaluate k ticket s a plan h' hn =>
      apply Move.evaluate
      rw [evaluate_elsewhere hl, hn]
      rfl
  | @abort k ticket s a e h' hn =>
      apply Move.abort
      rw [evaluate_elsewhere hl, hn]
      rfl
  | sent => exact same rfl rfl .sent
  | cut => exact same rfl rfl .cut
  | stop hb => exact same rfl rfl (.stop hb)
  | commit hb => exact same rfl rfl (.commit hb)
  | put hs => exact same rfl rfl (.put hs)
  | @leave ticket status =>
      have hleft : ({ h₂.release ticket with lifecycle := (h.release ticket).lifecycle } : Host σ) =
          h₂.release ticket := by
        unfold release
        split <;> split <;> simp [← hl]
      rw [leftBy, hleft]
      exact .leave

theorem Move.unique {h h₁ h₂ : Host σ} {c c₁ c₂ : Call} {t : Task} {p₁ p₂ : Progress Task}
    (hm₁ : Move h c t h₁ c₁ p₁) (hm₂ : Move h c t h₂ c₂ p₂) : h₁ = h₂ ∧ c₁ = c₂ ∧ p₁ = p₂ := by
  have ha := (advance_of_move hm₁).symm.trans (advance_of_move hm₂)
  simpa using ha

theorem Move.host_eq {h h' : Host σ} {c c' : Call} {t : Task} {progress : Progress Task}
    (hm : Move h c t h' c' progress) (ht : t.isArrived = false) :
    h' = { h.leftBy t with lifecycle := h'.lifecycle } :=
  (hm.unique (hm.elsewhere ht rfl fun _ _ _ h => h)).1

theorem Move.isArrived_eq_false {h h' : Host σ} {c c' : Call} {t t' : Task}
    (hm : Move h c t h' c' (.running t')) : t'.isArrived = false := by
  cases hm with
  | letIn m =>
      unfold Host.letIn
      split
      · rfl
      · split <;> rfl
  | request hr => unfold Task.ofRequest; split <;> rfl
  | close hr => unfold Task.ofEnd; split <;> rfl
  | drain hr =>
      unfold Task.ofArgument
      split
      · rfl
      · split <;> rfl
      · rfl
  | @respond m rest r c' hr => cases r <;> rfl
  | @put ticket chunk rest r c' hr => cases r <;> rfl
  | apply | decline | responded | start | refuse | evaluate | abort | sent | cut | stop | commit => rfl

/-- A task keeps its number until it leaves. -/
theorem Move.ticket_eq {h h' : Host σ} {c c' : Call} {t t' : Task}
    (hm : Move h c t h' c' (.running t')) (ht : t.isArrived = false) : t'.ticket = t.ticket := by
  cases hm with
  | letIn m => cases ht
  | request hr => unfold Task.ofRequest; split <;> rfl
  | close hr => unfold Task.ofEnd; split <;> rfl
  | drain hr =>
      unfold Task.ofArgument
      split
      · rfl
      · split <;> rfl
      · rfl
  | @respond m rest r c' hr => cases r <;> rfl
  | @put ticket chunk rest r c' hr => cases r <;> rfl
  | apply | decline | responded | start | refuse | evaluate | abort | sent | cut | stop | commit => rfl

end Host

end RemoteDiscipline
