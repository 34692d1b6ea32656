import RemoteDiscipline.Proofs.Inquiries
/-!
Requests that a host answers.

A host that is linked takes in every request of a negotiation, applies it once, and says what came of
it. So a request to it is an errand (`Consultation.errand`), and when all frames can travel the client
gets just what the host says (`ClientCall.request_consultation`).
-/

namespace RemoteDiscipline

@[simp] theorem Host.linked_negotiate {σ : Type} (h : Host σ) (m : Negotiation) (request : Message) :
    (h.negotiate m request).2.linked = h.linked :=
  congrArg (·.2.linked) (negotiate_elsewhere (h := h) rfl m request)

/-- A request to a host that is linked. -/
structure Consultation (σ : Type) where
  host : Host σ
  method : Negotiation
  request : Message
  linked : host.linked = true

namespace Consultation

variable {σ : Type}

section Outcome

variable (i : Consultation σ)

def outcome : Except Error (List Message) × Host σ := i.host.negotiate i.method i.request

def replies : List Message :=
  match i.outcome.1 with
  | .ok messages => messages
  | .error _ => []

def status : Status :=
  match i.outcome.1 with
  | .ok _ => .ok
  | .error e => e.toStatus

end Outcome

inductive Asking (i : Consultation σ) : List Message → Host σ → Host.Task → Prop
  | arrived : Asking i [] i.host (.arrived (.negotiate i.method))
  | awaiting : Asking i [] i.host (.awaiting i.method)
  | closing : Asking i [i.request] i.host (.closing i.method i.request)

inductive Answering (i : Consultation σ) : List Message → Host σ → Progress Host.Task → Prop
  | applying : Answering i [] i.host (.running (.applying i.method i.request))
  | responding {said rest : List Message} :
      said ++ rest = i.replies → i.status = .ok →
      Answering i said i.outcome.2 (.running (.responding rest))
  | leaving : Answering i i.replies i.outcome.2 (.running (.leaving none i.status))
  | ended : Answering i i.replies i.outcome.2 (.ended i.status)

inductive Concluding (i : Consultation σ) : Host σ → Progress Host.Task → Prop
  | responding {rest : List Message} :
      Concluding i i.outcome.2 (.running (.responding rest))
  | leaving {status : Status} : Concluding i i.outcome.2 (.running (.leaving none status))
  | ended {status : Status} : Concluding i i.outcome.2 (.ended status)

/-! ### Moves -/

section Moves

variable {i : Consultation σ} {taken said : List Message} {w w' : Host σ} {t : Host.Task}
  {c c' : Call} {progress : Progress Host.Task}

theorem Asking.move (h : Asking i taken w t) (hm : Host.Move w c t w' c' progress) :
    (c' = c ∧ ∃ t', progress = .running t' ∧ Asking i taken w' t') ∨
      ∃ r inbox, c.inbox.take = some (r, inbox) ∧ c' = { c with inbox := inbox } ∧
        (∀ x rest, r = .ok (some x) → [i.request] = taken ++ x :: rest →
          ∃ t', progress = .running t' ∧ Asking i (taken ++ [x]) w' t') ∧
        (r = .ok none → [i.request] = taken → Answering i [] w' progress) := by
  cases h with
  | arrived =>
      cases hm with
      | letIn m =>
          refine .inl ⟨rfl, .awaiting i.method, ?_, ?_⟩
          · rw [Host.letIn, i.linked]
            rfl
          · rw [Host.letIn, i.linked]
            exact .awaiting
  | awaiting =>
      cases hm with
      | request hr =>
          obtain ⟨inbox, ht, rfl⟩ := Call.receive_eq_some hr
          refine .inr ⟨_, inbox, ht, rfl, ?_, fun _ hmessages => by cases hmessages⟩
          rintro x rest rfl hmessages
          cases hmessages
          exact ⟨_, rfl, .closing⟩
  | closing =>
      cases hm with
      | close hr =>
          obtain ⟨inbox, ht, rfl⟩ := Call.receive_eq_some hr
          refine .inr ⟨_, inbox, ht, rfl, fun x rest _ hmessages => ?_, ?_⟩
          · cases hmessages
          · rintro rfl -
            exact .applying

theorem Asking.exists_move (h : Asking i taken w t)
    {r : Except Error (Option Message) × Inbox} (hr : c.inbox.take = some r) :
    ∃ w' c' progress, Host.Move w c t w' c' progress := by
  cases h with
  | arrived => exact ⟨_, _, _, .letIn _⟩
  | awaiting => exact ⟨_, _, _, .request (Call.receive_of_take hr)⟩
  | closing => exact ⟨_, _, _, .close (Call.receive_of_take hr)⟩

theorem Answering.move (h : Answering i said w (.running t)) (hc : c.Attended)
    (hm : Host.Move w c t w' c' progress) :
    ∃ new, Answering i (said ++ new) w' progress ∧ c'.Attended ∧
      c'.outbox.items = c.outbox.items ++ new := by
  have hnothing : c.outbox.items = c.outbox.items ++ [] := by simp
  cases h with
  | applying =>
      cases hm with
      | @apply _ _ messages _ hn =>
          have houtcome : i.outcome = (.ok messages, w') := hn
          refine ⟨[], ?_, hc, hnothing⟩
          have hworld : w' = i.outcome.2 := by rw [houtcome]
          rw [hworld]
          refine .responding ?_ ?_
          · rw [replies, houtcome]
            rfl
          · rw [status, houtcome]
      | @decline _ _ e _ hn =>
          have houtcome : i.outcome = (.error e, w') := hn
          refine ⟨[], ?_, hc, hnothing⟩
          have hworld : w' = i.outcome.2 := by rw [houtcome]
          have hreplies : i.replies = [] := by rw [replies, houtcome]
          have hstatus : i.status = e.toStatus := by rw [status, houtcome]
          rw [hworld, Host.Task.failing, ← hstatus, List.append_nil, ← hreplies]
          exact .leaving
  | responding hreplies hstatus =>
      cases hm with
      | responded =>
          rw [List.append_nil] at hreplies
          refine ⟨[], ?_, hc, hnothing⟩
          rw [List.append_nil, hreplies, ← hstatus]
          exact .leaving
      | @respond m rest r _ hsend =>
          obtain ⟨rfl, hc', hitems⟩ := hc.send hsend
          refine ⟨[m], ?_, hc', hitems⟩
          exact .responding (by rw [List.append_assoc]; exact hreplies) hstatus
  | leaving =>
      cases hm with
      | leave =>
          refine ⟨[], ?_, hc, hnothing⟩
          rw [List.append_nil, Host.release_none]
          exact .ended

theorem Answering.exists_move (h : Answering i said w (.running t)) (hc : c.Attended)
    (hitems : c.outbox.items = []) : ∃ w' c' progress, Host.Move w c t w' c' progress := by
  cases h with
  | applying =>
      cases hn : i.host.negotiate i.method i.request with
      | mk r w' =>
          cases r with
          | ok messages => exact ⟨_, _, _, .apply hn⟩
          | error e => exact ⟨_, _, _, .decline hn⟩
  | @responding _ rest =>
      cases rest with
      | nil => exact ⟨_, _, _, .responded⟩
      | cons m rest => exact ⟨_, _, _, .respond (hc.send_of_empty hitems m)⟩
  | leaving => exact ⟨_, _, _, .leave⟩

theorem Answering.mem_replies (h : Answering i said w progress) {x : Message} (hx : x ∈ said) :
    x ∈ i.replies := by
  cases h with
  | applying => cases hx
  | responding hreplies => exact hreplies ▸ List.mem_append_left _ hx
  | leaving | ended => exact hx

theorem Answering.concluding (h : Answering i said w progress) (hne : said ≠ []) :
    Concluding i w progress := by
  cases h with
  | applying => exact absurd rfl hne
  | responding => exact .responding
  | leaving => exact .leaving
  | ended => exact .ended

theorem Concluding.move (h : Concluding i w (.running t)) (hclosed : c.outbox.isOpen = false)
    (hm : Host.Move w c t w' c' progress) : Concluding i w' progress ∧ c' = c := by
  cases h with
  | responding =>
      cases hm with
      | responded => exact ⟨.leaving, rfl⟩
      | @respond m _ r _ hsend =>
          obtain ⟨r', hclosed'⟩ := Call.send_of_isClosed hclosed m
          rw [hclosed'] at hsend
          cases hsend
          refine ⟨?_, rfl⟩
          cases r with
          | ok u => exact .responding
          | error e => exact .leaving
  | leaving =>
      cases hm with
      | leave =>
          rw [Host.release_none]
          exact ⟨.ended, rfl⟩

theorem Concluding.exists_move (h : Concluding i w (.running t))
    (hclosed : c.outbox.isOpen = false) : ∃ w' c' progress, Host.Move w c t w' c' progress := by
  cases h with
  | @responding rest =>
      cases rest with
      | nil => exact ⟨_, _, _, .responded⟩
      | cons m rest =>
          obtain ⟨r, hsend⟩ := Call.send_of_isClosed hclosed m
          exact ⟨_, _, _, .respond hsend⟩
  | leaving => exact ⟨_, _, _, .leave⟩

end Moves

def errand (i : Consultation σ) : Errand σ where
  host := i.host
  method := .negotiate i.method
  messages := [i.request]
  replies := i.replies
  status := i.status
  left := i.outcome.2
  Asking := i.Asking
  Answering := i.Answering
  Concluding := i.Concluding
  arrived := .arrived
  ask := Asking.move
  exists_ask h := h.exists_move
  answer := Answering.move
  exists_answer := Answering.exists_move
  mem_replies h := h.mem_replies
  answered h := by
    cases h
    exact ⟨rfl, rfl, rfl⟩
  concluding := Answering.concluding
  conclude := Concluding.move
  exists_conclude := Concluding.exists_move
  concluded h := by
    cases h
    rfl

end Consultation

namespace ClientCall

variable {σ : Type} {limits : Limits} {timeout : Duration} {limit : Nat} {n : Network (Host σ)}

/-- The client gets what the host says. -/
theorem request_consultation {i : Consultation σ} (hp : i.errand.Passes timeout.announced limits)
    (hremote : n.remote = .inProcess limits) (hhost : n.world = i.host) (htimeout : 0 < timeout)
    (hreply : ∀ f ∈ i.errand.reply, f.Travels limit) :
    (request Host.service n (.negotiate i.method) i.request timeout limit).1 =
      ((Ending.closed i.status).verdict (.negotiate i.method) timeout).map fun _ => i.replies := by
  have hall : ∀ f ∈ i.errand.reply, f.isAnnounceable = true := fun f hf =>
    (hreply f hf).isAnnounceable
  have hrequest : (Frame.message i.request).isAnnounceable = true :=
    (hp.travels _ (by simp [Errand.request, Consultation.errand])).isAnnounceable
  obtain ⟨call, hdial, -, -, hunderway⟩ := dial_underway hp limit hremote hhost htimeout
  have hopened : Line.Underway i.errand timeout.announced limits call.deadline
      ((Frame.message i.request).encode ++ Frame.encodeAll [.halfClose]) call.line := hunderway
  obtain ⟨l₁, hsend, hl₁, -⟩ := write_accepting call (Line.accepting_underway hp) hrequest hopened
  obtain ⟨l₂, hclose, hl₂, hstirred⟩ := write_accepting { call with line := l₁ }
    (Line.accepting_underway hp) (f := .halfClose) (by decide) hl₁
  have hawaits : Line.Awaits i.errand timeout.announced limits call.deadline i.errand.reply l₂ :=
    .first hl₂ hstirred
  exact request_of_yields hdial hsend hclose (yields_awaits hp hall hawaits hreply)

theorem request_ok {m : Negotiation} {x : Message} {messages : List Message} {h' : Host σ}
    (hremote : n.remote = .inProcess limits) (hlinked : n.world.linked = true)
    (hroom : 1 ≤ limits.channelCapacity) (htimeout : 0 < timeout)
    (hn : n.world.negotiate m x = (.ok messages, h')) (hx : x.Fits) (hfits : ∀ y ∈ messages, y.Fits)
    (hrequest : ∀ f ∈ requestFrames m x timeout, f.IsAllowed limits.maxFrameBytes)
    (hreply : ∀ f ∈ messages.map Frame.message ++ [.close .ok], f.IsAllowed limit) :
    (request Host.service n (.negotiate m) x timeout limit).1 = .ok messages := by
  let i : Consultation σ := ⟨n.world, m, x, hlinked⟩
  have houtcome : i.outcome = (.ok messages, h') := hn
  have hreplies : i.replies = messages := by rw [Consultation.replies, houtcome]
  have hstatus : i.status = .ok := by rw [Consultation.status, houtcome]
  have hp : i.errand.Passes timeout.announced limits := by
    refine ⟨hroom, fun f hf => ⟨hrequest f hf, ?_⟩⟩
    change f ∈ requestFrames m x timeout at hf
    simp only [requestFrames, List.mem_cons, List.not_mem_nil, or_false] at hf
    obtain rfl | rfl | rfl := hf
    · exact ⟨by decide, timeout.announced_lt⟩
    · exact hx
    · exact trivial
  have htravels : ∀ f ∈ i.errand.reply, f.Travels limit := by
    show ∀ f ∈ i.replies.map Frame.message ++ [.close i.status], f.Travels limit
    rw [hreplies, hstatus]
    refine fun f hf => ⟨hreply f hf, ?_⟩
    obtain hf | hf := List.mem_append.mp hf
    · obtain ⟨y, hy, rfl⟩ := List.mem_map.mp hf
      exact hfits y hy
    · obtain rfl := List.mem_singleton.mp hf
      exact show "".utf8ByteSize < 0x1_0000_0000_0000_0000 by decide
  have hgot := request_consultation hp hremote rfl htimeout htravels
  rw [hreplies, hstatus] at hgot
  exact hgot

end ClientCall

end RemoteDiscipline
