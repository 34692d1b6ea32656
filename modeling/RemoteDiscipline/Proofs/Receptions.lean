import RemoteDiscipline.Proofs.Histories
import RemoteDiscipline.Proofs.Requests
/-!
What a service receives of what a client says.

The reader of a connection puts into the inbox one item for every message, and one for an error that
ends the stream early; then it closes the inbox (`Relayed`). The service takes the items in this
order, and from a closed inbox that is empty it is told that the client has said everything. The
inbox does not tell why it was closed, so the end follows on an error too: this is the only other
way to it (`Connection.end_of_halfClose_or_failure`).
-/

namespace RemoteDiscipline

/-! ### What a stream has to say -/

/-- Whether a stream begins with the opening frame of a call and some messages. -/
def Begins (limit : Nat) (bytes : List UInt8) (m : Method) (messages : List Message) : Prop :=
  ∃ timeout rest, Frame.Starts limit bytes
    (.opening protocolVersion m timeout :: messages.map .message) rest

/-- Whether something other than a message or the half-close follows these messages, and the error
that it leads to. -/
def Breaks (limit : Nat) (bytes : List UInt8) (ended : Bool) (m : Method)
    (messages : List Message) (e : Error) : Prop :=
  ∃ timeout rest, Frame.Starts limit bytes
      (.opening protocolVersion m timeout :: messages.map .message) rest ∧
    (Frame.read limit ended rest).failure? = some e

section Streams

variable {limit : Nat} {bytes : List UInt8} {ended : Bool} {m : Method} {messages : List Message}
  {e : Error}

/-- What the bytes of an open stream fail with, they fail with whatever follows. -/
theorem Frame.failure_append (h : (Frame.read limit false bytes).failure? = some e) (ended : Bool)
    (more : List UInt8) : (Frame.read limit ended (bytes ++ more)).failure? = some e := by
  cases hread : Frame.read limit false bytes with
  | waiting => simp [hread, Reading.failure?] at h
  | ended => exact absurd hread Frame.read_ne_ended
  | fault f rest =>
      rw [Frame.read_append_fault hread ended more]
      rwa [hread] at h
  | frame f rest =>
      rw [Frame.read_append hread ended more]
      rw [hread] at h
      cases f <;> exact h

theorem Begins.of_append {more : List Message} (h : Begins limit bytes m (messages ++ more)) :
    Begins limit bytes m messages := by
  obtain ⟨timeout, rest, hstarts⟩ := h
  have hall := hstarts.readAll_eq
  rw [List.map_append, ← List.cons_append, List.append_assoc] at hall
  obtain ⟨rest', hstarts'⟩ := Frame.exists_starts hall
  exact ⟨timeout, rest', hstarts'⟩

theorem Asks.begins (h : Asks limit bytes m messages) : Begins limit bytes m messages := by
  obtain ⟨timeout, rest, hall⟩ := h
  rw [← List.cons_append] at hall
  obtain ⟨rest', hstarts⟩ := Frame.exists_starts hall
  exact ⟨timeout, rest', hstarts⟩

theorem Breaks.begins (h : Breaks limit bytes ended m messages e) :
    Begins limit bytes m messages := by
  obtain ⟨timeout, rest, hstarts, -⟩ := h
  exact ⟨timeout, rest, hstarts⟩

theorem Breaks.append (h : Breaks limit bytes false m messages e) (more : List UInt8) :
    Breaks limit (bytes ++ more) false m messages e := by
  obtain ⟨timeout, rest, hstarts, hfailure⟩ := h
  exact ⟨timeout, rest ++ more, hstarts.append more, Frame.failure_append hfailure false more⟩

theorem Breaks.mono (h : Breaks limit bytes ended m messages e) {ended' : Bool}
    (hended : ended = true → ended' = true) : Breaks limit bytes ended' m messages e := by
  cases ended with
  | true => exact hended rfl ▸ h
  | false =>
      obtain ⟨timeout, rest, hstarts, hfailure⟩ := h
      refine ⟨timeout, rest, hstarts, ?_⟩
      rw [← List.append_nil rest]
      exact Frame.failure_append hfailure ended' []

end Streams

/-! ### What the reader passes on -/

/-- What the reader has put into the inbox, whether it may put more, and what it has in hand. -/
inductive Relayed (limit : Nat) (bytes : List UInt8) (ended : Bool) (m : Method) :
    Reader → List (Except Error Message) → Bool → List UInt8 → Prop
  | reading {timeout : Nat} {messages : List Message} {input : List UInt8} :
      Frame.Starts limit bytes
        (.opening protocolVersion m timeout :: messages.map .message) input →
      Relayed limit bytes ended m .reading (messages.map .ok) true input
  | holding {timeout : Nat} {messages : List Message} {x : Message} {input : List UInt8} :
      Frame.Starts limit bytes
        (.opening protocolVersion m timeout :: (messages ++ [x]).map .message) input →
      Relayed limit bytes ended m (.holding x) (messages.map .ok) true input
  /-- The half-close has been read. -/
  | complete {reader : Reader} {messages : List Message} {input : List UInt8} :
      reader = .draining ∨ reader = .stopped → Asks limit bytes m messages →
      Relayed limit bytes ended m reader (messages.map .ok) false input
  | failing {messages : List Message} {e : Error} {input : List UInt8} :
      Breaks limit bytes ended m messages e →
      Relayed limit bytes ended m (.failing e) (messages.map .ok) true input
  /-- An error stands behind the messages. -/
  | broken {messages : List Message} {e : Error} {input : List UInt8} :
      Breaks limit bytes ended m messages e →
      Relayed limit bytes ended m .stopped (messages.map .ok ++ [.error e]) false input

namespace Relayed

variable {limit : Nat} {bytes input : List UInt8} {ended : Bool} {m : Method} {reader : Reader}
  {items : List (Except Error Message)} {isOpen : Bool}

theorem append (h : Relayed limit bytes false m reader items isOpen input) (more : List UInt8) :
    Relayed limit (bytes ++ more) false m reader items isOpen (input ++ more) := by
  cases h with
  | reading hs => exact .reading (hs.append more)
  | holding hs => exact .holding (hs.append more)
  | complete hr hasks => exact .complete hr (hasks.append more)
  | failing hbreaks => exact .failing (hbreaks.append more)
  | broken hbreaks => exact .broken (hbreaks.append more)

theorem mono (h : Relayed limit bytes ended m reader items isOpen input) {ended' : Bool}
    (hended : ended = true → ended' = true) :
    Relayed limit bytes ended' m reader items isOpen input := by
  cases h with
  | reading hs => exact .reading hs
  | holding hs => exact .holding hs
  | complete hr hasks => exact .complete hr hasks
  | failing hbreaks => exact .failing (hbreaks.mono hended)
  | broken hbreaks => exact .broken (hbreaks.mono hended)

theorem inbox_eq {τ : Type} {c : Connection τ} {reader' : Reader} {call call' : Served τ}
    {rest : List UInt8} (h : Relayed limit bytes ended m reader items false input)
    (hstep : c.readStep reader call = some (reader', call', rest)) : call'.inbox = call.inbox := by
  generalize hopen : false = isOpen at h
  cases h with
  | reading | holding | failing => cases hopen
  | complete hr hasks =>
      obtain rfl | rfl := hr
      · obtain ⟨⟨heard, rest'⟩, -, he⟩ := Option.map_eq_some_iff.mp hstep
        cases heard <;> cases he <;> rfl
      · cases hstep
  | broken hbreaks => cases hstep

/-- A step of the reader passes on what it has in hand, or takes in what the stream says next. -/
theorem readStep {τ : Type} {c : Connection τ} {reader' : Reader} {call call' : Served τ}
    {rest : List UInt8} {before : List (Except Error Message)}
    (h : Relayed c.limits.maxFrameBytes bytes c.inputEnded m reader (before ++ call.inbox.items)
      call.inbox.isOpen c.input)
    (hrun : call.status? = none) (hstep : c.readStep reader call = some (reader', call', rest)) :
    Relayed c.limits.maxFrameBytes bytes c.inputEnded m reader' (before ++ call'.inbox.items)
      call'.inbox.isOpen rest := by
  have hlisten : Connection.isListening call = true := by
    rw [Connection.isListening, hrun]
    rfl
  generalize hitems : before ++ call.inbox.items = items at h
  generalize hopen : call.inbox.isOpen = isOpen at h
  generalize hinput : c.input = input at h
  cases h with
  | @reading timeout messages _ hs =>
      obtain ⟨⟨heard, rest'⟩, hh, he⟩ := Option.map_eq_some_iff.mp hstep
      obtain ⟨x, rfl, hread⟩ | ⟨rfl, hread⟩ | ⟨e, rfl, hfailure⟩ := Connection.hear_eq_some hh
      · cases he
        rw [hinput] at hread
        rw [hitems, hopen]
        have hmore : Frame.Starts c.limits.maxFrameBytes bytes
            (.opening protocolVersion m timeout :: (messages ++ [x]).map .message) rest := by
          rw [List.map_append, ← List.cons_append]
          exact hs.snoc (Frame.read_ended hread false)
        exact .holding hmore
      · cases he
        rw [hinput] at hread
        show Relayed _ _ _ _ _ (before ++ call.inbox.items) false _
        rw [hitems]
        exact .complete (.inl rfl) (asks_of_starts (hs.snoc (Frame.read_ended hread false)))
      · cases he
        rw [hinput] at hfailure
        show Relayed _ _ _ _ _ (before ++ call.inbox.items) call.inbox.isOpen _
        rw [hitems, hopen]
        exact .failing ⟨timeout, input, hs, hfailure⟩
  | @holding timeout messages x _ hs =>
      simp only [Connection.readStep, hlisten, Bool.not_true, Bool.false_eq_true, if_false] at hstep
      split at hstep
      · cases hstep
        show Relayed _ _ _ _ _ (before ++ (call.inbox.items ++ [.ok x])) call.inbox.isOpen _
        rw [← List.append_assoc, hitems, hopen, hinput]
        have hmore : messages.map Except.ok ++ [Except.ok x] =
            (messages ++ [x]).map (Except.ok : Message → Except Error Message) := by simp
        rw [hmore]
        exact .reading hs
      · cases hstep
  | complete hr hasks =>
      -- Behind the half-close nothing is passed on any more.
      obtain rfl | rfl := hr
      · obtain ⟨⟨heard, rest'⟩, hh, he⟩ := Option.map_eq_some_iff.mp hstep
        cases heard with
        | message x | halfClose =>
            cases he
            rw [hitems, hopen]
            exact .complete (.inl rfl) hasks
        | failure e =>
            cases he
            show Relayed _ _ _ _ _ (before ++ call.inbox.items) call.inbox.isOpen _
            rw [hitems, hopen]
            exact .complete (.inr rfl) hasks
      · cases hstep
  | @failing messages e _ hbreaks =>
      simp only [Connection.readStep, hlisten, Bool.not_true, Bool.false_eq_true, if_false] at hstep
      split at hstep
      · cases hstep
        show Relayed _ _ _ _ _ (before ++ (call.inbox.items ++ [.error e])) false _
        rw [← List.append_assoc, hitems]
        exact .broken hbreaks
      · cases hstep
  | broken hbreaks => cases hstep

end Relayed

/-! ### What the service receives -/

def delivered (got : List (Except Error (Option Message))) : List Message :=
  got.filterMap fun
    | .ok x => x
    | .error _ => none

@[simp] theorem delivered_append (got more : List (Except Error (Option Message))) :
    delivered (got ++ more) = delivered got ++ delivered more := List.filterMap_append

theorem delivered_messages (messages : List Message) :
    delivered ((messages.map .ok).map (Except.map some)) = messages := by
  induction messages with
  | nil => rfl
  | cons x messages ih => exact congrArg (x :: ·) ih

theorem delivered_broken (messages : List Message) (e : Error) :
    delivered ((messages.map Except.ok ++ [Except.error e]).map (Except.map some)) = messages := by
  rw [List.map_append, delivered_append, delivered_messages]
  exact List.append_nil messages

theorem delivered_replicate (k : Nat) : delivered (List.replicate k (.ok none)) = [] := by
  simp [delivered]

theorem exists_eq_append_replicate {α : Type} {a : α} {l before after : List α} {k : Nat}
    (h : l ++ List.replicate k a = before ++ a :: after) (ha : a ∉ l) :
    ∃ j < k, before = l ++ List.replicate j a := by
  obtain ⟨rest, hbefore, hrest⟩ | ⟨rest, hl, hrest⟩ := List.append_eq_append_iff.mp h
  · obtain ⟨hlength, hsame, -⟩ := List.append_eq_replicate_iff.mp hrest.symm
    refine ⟨rest.length, ?_, hsame ▸ hbefore⟩
    rw [List.length_cons] at hlength
    omega
  · cases rest with
    | nil =>
        rw [List.append_nil] at hl
        refine ⟨0, ?_, by simp [hl]⟩
        cases k with
        | zero => cases hrest
        | succ k => exact Nat.succ_pos k
    | cons b rest =>
        obtain ⟨rfl, -⟩ := List.cons.inj hrest
        exact absurd (by simp [hl]) ha

/-- The messages that have been passed on stand at the beginning of the stream. -/
theorem Relayed.begins {limit : Nat} {bytes input : List UInt8} {ended : Bool} {m : Method}
    {reader : Reader} {items : List (Except Error Message)} {isOpen : Bool}
    (h : Relayed limit bytes ended m reader items isOpen input) :
    Begins limit bytes m (delivered (items.map (Except.map some))) := by
  cases h with
  | reading hs =>
      rw [delivered_messages]
      exact ⟨_, _, hs⟩
  | @holding timeout messages x _ hs =>
      rw [delivered_messages]
      have hbegins : Begins limit bytes m (messages ++ [x]) := ⟨_, _, hs⟩
      exact hbegins.of_append
  | complete _ hasks =>
      rw [delivered_messages]
      exact hasks.begins
  | failing hbreaks =>
      rw [delivered_messages]
      exact hbreaks.begins
  | broken hbreaks =>
      rw [delivered_broken]
      exact hbreaks.begins

theorem Inbox.take_cases {i i' : Inbox} {r : Except Error (Option Message)}
    (h : i.take = some (r, i')) :
    (∃ item, r = item.map some ∧ i.items = item :: i'.items ∧ i'.isOpen = i.isOpen) ∨
      r = .ok none ∧ i' = i ∧ i.items = [] ∧ i.isOpen = false := by
  unfold take at h
  split at h
  · rename_i x rest hitems
    cases h
    exact .inl ⟨.ok x, rfl, hitems, rfl⟩
  · rename_i e rest hitems
    cases h
    exact .inl ⟨.error e, rfl, hitems, rfl⟩
  · rename_i hitems
    split at h
    · cases h
    · rename_i hopen
      cases h
      exact .inr ⟨rfl, rfl, hitems, by simpa using hopen⟩

namespace Connection

variable {ω τ : Type}

/-- What a turn of the service receives. -/
def Act.received (s : Service ω τ) : Act ω τ → List (Except Error (Option Message))
  | .turn w ⟨call, .running t⟩ =>
    match s.demand w call.cancelled t with
    | .receive _ => (call.receive.map (·.1)).toList
    | _ => []
  | _ => []

variable {s : Service ω τ} {limits : Limits} {w w' : ω} {c c' : Connection τ}
  {arrived taken : List UInt8} {acts : List (Act ω τ)}

theorem received_of_advance {call call' : Served τ} (h : call.advance s w = some (w', call')) :
    call'.method = call.method ∧
      ((∃ r, (Act.turn w call).received s = [r] ∧ call.inbox.take = some (r, call'.inbox)) ∨
        (Act.turn w call).received s = [] ∧ call'.inbox = call.inbox) := by
  obtain ⟨call, progress⟩ := call
  cases progress with
  | ended status => cases h
  | running t =>
      simp only [Served.advance] at h
      simp only [Act.received]
      split at h
      · rename_i hd
        cases h
        simp [hd]
      · rename_i next hd
        obtain ⟨⟨r, call₁⟩, hr, he⟩ := Option.map_eq_some_iff.mp h
        cases he
        obtain ⟨inbox, htake, rfl⟩ := Call.receive_eq_some hr
        exact ⟨rfl, .inl ⟨r, by simp [hd, hr], htake⟩⟩
      · rename_i m next hd
        obtain ⟨⟨r, call₁⟩, hr, he⟩ := Option.map_eq_some_iff.mp h
        obtain ⟨⟨b, outbox⟩, -, hr'⟩ := Option.map_eq_some_iff.mp hr
        cases he
        cases hr'
        simp [hd]
      · cases h
      · rename_i hd
        cases h
        simp [hd]

/-- What a service has received: some of the items that the reader has passed on, while the others
wait in the inbox; and if these were all of them, perhaps that there are no more. -/
def Received (limit : Nat) (bytes : List UInt8) (ended : Bool) (m : Method) (reader : Reader)
    (inbox : Inbox) (input : List UInt8) (got : List (Except Error (Option Message))) : Prop :=
  ∃ items k, Relayed limit bytes ended m reader (items ++ inbox.items) inbox.isOpen input ∧
    got = items.map (Except.map some) ++ List.replicate k (.ok none) ∧
    (0 < k → inbox.items = [] ∧ inbox.isOpen = false)

section Received

variable {limit : Nat} {bytes input : List UInt8} {ended : Bool} {m : Method} {reader : Reader}
  {inbox inbox' : Inbox} {got : List (Except Error (Option Message))}

theorem Received.take {r : Except Error (Option Message)}
    (h : Received limit bytes ended m reader inbox input got) (ht : inbox.take = some (r, inbox')) :
    Received limit bytes ended m reader inbox' input (got ++ [r]) := by
  obtain ⟨items, k, hrelayed, hgot, hnone⟩ := h
  obtain ⟨item, hr, hitems, hopen⟩ | ⟨hr, hsame, hitems, hopen⟩ := Inbox.take_cases ht
  · obtain rfl | hk := Nat.eq_zero_or_pos k
    · refine ⟨items ++ [item], 0, ?_, ?_, fun h => absurd h (Nat.lt_irrefl 0)⟩
      · rw [List.append_assoc, List.singleton_append, hopen, ← hitems]
        exact hrelayed
      · simp [hgot, hr]
    · rw [(hnone hk).1] at hitems
      cases hitems
  · refine ⟨items, k + 1, hsame ▸ hrelayed, ?_, fun _ => hsame ▸ ⟨hitems, hopen⟩⟩
    rw [hgot, hr, List.replicate_succ', List.append_assoc]

theorem Received.readStep {τ : Type} {c : Connection τ} {reader' : Reader} {call call' : Served τ}
    {rest : List UInt8}
    (h : Received c.limits.maxFrameBytes bytes c.inputEnded m reader call.inbox c.input got)
    (hrun : call.status? = none) (hstep : c.readStep reader call = some (reader', call', rest)) :
    Received c.limits.maxFrameBytes bytes c.inputEnded m reader' call'.inbox rest got := by
  obtain ⟨items, k, hrelayed, hgot, hnone⟩ := h
  refine ⟨items, k, hrelayed.readStep hrun hstep, hgot, fun hk => ?_⟩
  rw [(hnone hk).2] at hrelayed
  rw [hrelayed.inbox_eq hstep]
  exact hnone hk

theorem Received.append (h : Received limit bytes false m reader inbox input got)
    (more : List UInt8) :
    Received limit (bytes ++ more) false m reader inbox (input ++ more) got := by
  obtain ⟨items, k, hrelayed, hrest⟩ := h
  exact ⟨items, k, hrelayed.append more, hrest⟩

theorem Received.mono (h : Received limit bytes ended m reader inbox input got) {ended' : Bool}
    (hended : ended = true → ended' = true) :
    Received limit bytes ended' m reader inbox input got := by
  obtain ⟨items, k, hrelayed, hrest⟩ := h
  exact ⟨items, k, hrelayed.mono hended, hrest⟩

end Received

def IsOver (c : Connection τ) : Prop :=
  match c.phase with
  | .opening => False
  | .serving _ call _ => call.status? ≠ none
  | .lingering | .closed => True

/-- How a service and its connection stand when the service has received so much. -/
inductive Listening (limits : Limits) (arrived : List UInt8)
    (got : List (Except Error (Option Message))) (c : Connection τ) : Prop
  | opening :
      c.phase = .opening → c.limits = limits → c.input = arrived → got = [] →
      Listening limits arrived got c
  | running {reader : Reader} {call : Served τ} {deadline : Option Deadline} :
      c.phase = .serving reader call deadline → c.limits = limits → call.status? = none →
      Received limits.maxFrameBytes arrived c.inputEnded call.method reader call.inbox c.input got →
      Listening limits arrived got c
  | past :
      c.IsOver →
      (got = [] ∨ ∃ m reader inbox input,
        Received limits.maxFrameBytes arrived c.inputEnded m reader inbox input got) →
      Listening limits arrived got c

variable {got : List (Except Error (Option Message))}

theorem Listening.arrive (h : Listening limits arrived got c) (hmore : c.inputEnded = false)
    (bytes : List UInt8) : Listening limits (arrived ++ bytes) got (c.arrive bytes) := by
  have hmore' : (c.arrive bytes).inputEnded = false := hmore
  cases h with
  | opening hp hl hi hg => exact .opening hp hl (by rw [← hi]; rfl) hg
  | running hp hl hr hreceived =>
      rw [hmore] at hreceived
      exact .running hp hl hr (hmore'.symm ▸ hreceived.append bytes)
  | past ho hgot =>
      refine .past ho (hgot.imp_right ?_)
      rintro ⟨m, reader, inbox, input, hreceived⟩
      rw [hmore] at hreceived
      exact ⟨m, reader, inbox, _, hmore'.symm ▸ hreceived.append bytes⟩

theorem Listening.congr (h : Listening limits arrived got c) (hphase : c'.phase = c.phase)
    (hlimits : c'.limits = c.limits) (hinput : c'.input = c.input)
    (hended : c.inputEnded = true → c'.inputEnded = true) : Listening limits arrived got c' := by
  cases h with
  | opening hp hl hi hg => exact .opening (hphase.trans hp) (hlimits.trans hl) (hinput.trans hi) hg
  | running hp hl hr hreceived =>
      exact .running (hphase.trans hp) (hlimits.trans hl) hr (hinput ▸ hreceived.mono hended)
  | past ho hgot =>
      refine .past ?_ (hgot.imp_right ?_)
      · rwa [IsOver, hphase]
      · rintro ⟨m, reader, inbox, input, hreceived⟩
        exact ⟨m, reader, inbox, input, hreceived.mono hended⟩

theorem listening_openCall {now : Nat} (hlimits : c.limits = limits) (hinput : c.input = arrived)
    (h : c.openCall s now = some c') : Listening limits arrived [] c' := by
  cases opened_of_openCall h with
  | ended | unreadable | unspoken | unexpected => exact .past trivial (.inl rfl)
  | @served m timeout rest deadline hread =>
      rw [hlimits, hinput] at hread
      have hstarts : Frame.Starts limits.maxFrameBytes arrived
          (.opening protocolVersion m timeout :: ([] : List Message).map .message) rest :=
        Frame.Starts.nil.snoc (Frame.read_ended hread false)
      exact .running rfl hlimits rfl
        ⟨[], 0, .reading hstarts, rfl, fun h => absurd h (Nat.lt_irrefl 0)⟩

theorem listening_of_received {reader : Reader} {call : Served τ} {deadline : Option Deadline}
    (hphase : c.phase = .serving reader call deadline) (hlimits : c.limits = limits)
    (h : Received limits.maxFrameBytes arrived c.inputEnded call.method reader call.inbox c.input
      got) :
    Listening limits arrived got c := by
  cases hstatus : call.status? with
  | none => exact .running hphase hlimits hstatus h
  | some status =>
      refine .past ?_ (.inr ⟨_, _, _, _, h⟩)
      rw [IsOver, hphase]
      simp [hstatus]

/-- Whatever happens to a connection, its service receives what the reader has passed on. -/
theorem listening_of_history (h : History s limits arrived taken acts w c) :
    Listening limits arrived (acts.flatMap (Act.received s)) c := by
  induction h with
  | fresh w => exact .opening rfl rfl rfl rfl
  | opened _ hphase ho ih =>
      cases ih with
      | opening _ hlimits hinput hgot => exact hgot ▸ listening_openCall hlimits hinput ho
      | running hp => simp [hphase] at hp
      | past hpast => simp [IsOver, hphase] at hpast
  | @read _ _ rest _ _ c reader reader' call call' deadline _ hphase hr ih =>
      obtain ⟨hprogress, -, hmethod⟩ := readStep_eq_some hr
      cases ih with
      | opening hp => simp [hphase] at hp
      | running hp hlimits hrunning hreceived =>
          cases hphase.symm.trans hp
          rw [← hlimits] at hreceived
          have hnext := hreceived.readStep hrunning hr
          rw [hlimits, ← hmethod] at hnext
          exact listening_of_received rfl hlimits hnext
      | past hpast hgot =>
          refine .past ?_ hgot
          simp only [IsOver, hphase] at hpast ⊢
          rwa [Served.status?, hprogress]
  | @turn _ _ acts w _ c reader call call' deadline _ hphase ha ih =>
      rw [List.flatMap_append, List.flatMap_singleton]
      cases ih with
      | opening hp => simp [hphase] at hp
      | running hp hlimits _ hreceived =>
          cases hphase.symm.trans hp
          obtain ⟨hmethod, ⟨r, hr, htake⟩ | ⟨hr, hinbox⟩⟩ := received_of_advance ha
          · rw [hr]
            exact listening_of_received rfl hlimits (hmethod.symm ▸ hreceived.take htake)
          · rw [hr, List.append_nil]
            exact listening_of_received rfl hlimits (hmethod.symm ▸ hinbox.symm ▸ hreceived)
      | past hpast =>
          simp [IsOver, hphase, (turn_eq_some ha).1] at hpast
  | wrote _ hphase hw ih =>
      cases ih with
      | opening hp => simp [hphase] at hp
      | running hp hlimits hrunning hreceived =>
          cases hphase.symm.trans hp
          cases wrote_of_writeStep hw with
          | dropped | message => exact .running rfl hlimits hrunning hreceived
          | left | closed => exact .past trivial (.inr ⟨_, _, _, _, hreceived⟩)
      | past hpast hgot =>
          simp only [IsOver, hphase] at hpast
          cases wrote_of_writeStep hw with
          | dropped | message => exact .past hpast hgot
          | left | closed => exact .past trivial hgot
  | @stopped _ _ acts w c reader call d _ hphase hrunning ih =>
      rw [List.flatMap_append, List.flatMap_singleton]
      obtain ⟨call, progress⟩ := call
      cases progress with
      | ended status => cases hrunning
      | running t =>
          cases ih with
          | opening hp => simp [hphase] at hp
          | running hp _ _ hreceived =>
              cases hphase.symm.trans hp
              simp only [expire, hphase, Act.received, List.append_nil]
              exact .past (by simp [IsOver, Served.status?]) (.inr ⟨_, _, _, _, hreceived⟩)
          | past hpast => simp [IsOver, hphase, Served.status?] at hpast
  | meanwhile w' _ ih => exact ih
  | arrive bytes _ hmore ih => exact ih.arrive hmore bytes
  | endInput _ ih => exact ih.congr rfl rfl rfl fun _ => rfl
  | hangUp _ ih => exact ih.congr rfl rfl rfl fun _ => rfl
  | takeOutput _ ih => exact ih.congr rfl rfl rfl id

/-! ### The end of what is received -/

section Received

variable {limit : Nat} {bytes input : List UInt8} {ended : Bool} {m : Method} {reader : Reader}
  {inbox : Inbox}

theorem Received.begins (h : Received limit bytes ended m reader inbox input got) :
    Begins limit bytes m (delivered got) := by
  obtain ⟨items, k, hrelayed, rfl, -⟩ := h
  have hbegins := hrelayed.begins
  rw [List.map_append, delivered_append] at hbegins
  rw [delivered_append, delivered_replicate, List.append_nil]
  exact hbegins.of_append

/-- The end comes when the half-close has been read behind the messages, or behind an error. -/
theorem Received.ended_cases {before after : List (Except Error (Option Message))}
    (h : Received limit bytes ended m reader inbox input (before ++ .ok none :: after)) :
    Asks limit bytes m (delivered before) ∨
      ∃ e, .error e ∈ before ∧ Breaks limit bytes ended m (delivered before) e := by
  obtain ⟨items, k, hrelayed, hgot, hnone⟩ := h
  have hitems : (.ok none : Except Error (Option Message)) ∉ items.map (Except.map some) := by
    rintro hmem
    obtain ⟨_ | _, -, ⟨⟩⟩ := List.mem_map.mp hmem
  obtain ⟨j, hj, rfl⟩ := exists_eq_append_replicate hgot.symm hitems
  obtain ⟨hempty, hclosed⟩ := hnone (Nat.zero_lt_of_lt hj)
  rw [hempty, hclosed, List.append_nil] at hrelayed
  rw [delivered_append, delivered_replicate, List.append_nil]
  generalize hopen : false = isOpen at hrelayed
  cases hrelayed with
  | reading | holding | failing => cases hopen
  | complete hr hasks =>
      rw [delivered_messages]
      exact .inl hasks
  | @broken messages e _ hbreaks =>
      rw [delivered_broken]
      exact .inr ⟨e, by simp [Except.map], hbreaks⟩

end Received

/-- Whatever a service does and whatever happens to its connection, it receives messages that stand at
the beginning of the stream. When it is told that there are no more, then either the half-close follows
right behind those that it has received, or something else does and the service has received the error
of that before. -/
theorem end_of_halfClose_or_failure (h : History s limits arrived taken acts w c) :
    (acts.flatMap (Act.received s) ≠ [] →
      ∃ m, Begins limits.maxFrameBytes arrived m (delivered (acts.flatMap (Act.received s)))) ∧
    ∀ before after, acts.flatMap (Act.received s) = before ++ .ok none :: after →
      ∃ m, Asks limits.maxFrameBytes arrived m (delivered before) ∨
        ∃ e, .error e ∈ before ∧
          Breaks limits.maxFrameBytes arrived c.inputEnded m (delivered before) e := by
  have hreceived : acts.flatMap (Act.received s) = [] ∨ ∃ m reader inbox input,
      Received limits.maxFrameBytes arrived c.inputEnded m reader inbox input
        (acts.flatMap (Act.received s)) := by
    cases listening_of_history h with
    | opening _ _ _ hgot => exact .inl hgot
    | running _ _ _ hreceived => exact .inr ⟨_, _, _, _, hreceived⟩
    | past _ hgot => exact hgot
  obtain hnothing | ⟨m, reader, inbox, input, hreceived⟩ := hreceived
  · rw [hnothing]
    exact ⟨fun h => absurd rfl h, by simp⟩
  · refine ⟨fun _ => ⟨m, hreceived.begins⟩, fun before after hgot => ⟨m, ?_⟩⟩
    exact (hgot ▸ hreceived).ended_cases

/-! ### A client that gives up -/

def listener (n : Nat) : Service Unit Nat where
  start _ := n
  demand w _ t :=
    match t with
    | 0 => .finish w .ok
    | t + 1 => .receive fun _ => t
  abandon w _ := w
  stage t := t
  load _ := 0
  proceed_lt {w w' b t t'} h := by cases t <;> cases h
  receive_le {w b t next} h r := by
    cases t with
    | zero => cases h
    | succ t =>
        cases h
        exact Nat.le_succ t
  receive_end_lt {w b t next} h := by
    cases t with
    | zero => cases h
    | succ t =>
        cases h
        exact Nat.lt_succ_self t
  send_lt {w b t m next} h := by cases t <;> cases h

def cancelledCall : List UInt8 :=
  (Frame.opening protocolVersion (.compute .function) 0).encode ++
    ((Frame.message .empty).encode ++ Frame.cancel.encode)

theorem read_cancelledCall (ended : Bool) :
    Frame.read 64 ended cancelledCall = .frame (.opening protocolVersion (.compute .function) 0)
        ((Frame.message .empty).encode ++ Frame.cancel.encode) ∧
      Frame.read 64 ended ((Frame.message .empty).encode ++ Frame.cancel.encode) =
        .frame (.message .empty) Frame.cancel.encode ∧
      Frame.read 64 ended Frame.cancel.encode = .frame .cancel [] := by
  cases ended <;> decide +kernel

/-- The connection of the call: what is left to read, what the reader does and what the inbox holds,
whether the call has been told to stop, and how many things the service still takes. -/
def underway (input : List UInt8) (reader : Reader) (inbox : Inbox) (cancelled : Bool) (t : Nat) :
    Connection Nat :=
  { (Connection.fresh ⟨2, 64⟩ : Connection Nat) with
    input
    phase := .serving reader
      ⟨{ Call.fresh (.compute .function) 2 true with inbox, cancelled }, .running t⟩ none }

theorem history_cancelledCall :
    ∃ acts w c, History (listener 3) ⟨2, 64⟩ cancelledCall [] acts w c ∧
      acts.flatMap (Act.received (listener 3)) =
        [.ok (some .empty), .error (.cancelled "call cancelled by client"), .ok none] := by
  obtain ⟨hopening, hmessage, hcancel⟩ := read_cancelledCall false
  have harrived : History (listener 3) ⟨2, 64⟩ cancelledCall [] [] ()
      { (Connection.fresh ⟨2, 64⟩ : Connection Nat) with input := cancelledCall } :=
    (History.fresh ()).arrive cancelledCall rfl
  have hopen : History (listener 3) ⟨2, 64⟩ cancelledCall [] [] ()
      (underway ((Frame.message .empty).encode ++ Frame.cancel.encode) .reading ⟨[], true⟩ false 3) :=
    harrived.opened rfl (show openCall (listener 3) 0 _ = _ by
      simp only [openCall, Connection.fresh, hopening]
      rfl)
  have hheld : History (listener 3) ⟨2, 64⟩ cancelledCall [] [] ()
      (underway Frame.cancel.encode (.holding .empty) ⟨[], true⟩ false 3) :=
    hopen.read rfl (by
      simp only [readStep, hear, underway, Connection.fresh, hmessage, Option.map_some])
  have hfed : History (listener 3) ⟨2, 64⟩ cancelledCall [] [] ()
      (underway Frame.cancel.encode .reading ⟨[.ok .empty], true⟩ false 3) := hheld.read rfl rfl
  have hfailed : History (listener 3) ⟨2, 64⟩ cancelledCall [] [] ()
      (underway [] (.failing (.cancelled "call cancelled by client")) ⟨[.ok .empty], true⟩ true 3) :=
    hfed.read rfl (by
      simp only [readStep, hear, underway, Connection.fresh, hcancel, Option.map_some]
      rfl)
  have hclosed : History (listener 3) ⟨2, 64⟩ cancelledCall [] [] ()
      (underway [] .stopped
        ⟨[.ok .empty, .error (.cancelled "call cancelled by client")], false⟩ true 3) :=
    hfailed.read rfl rfl
  have hfirst := hclosed.turn rfl rfl
  have hsecond := hfirst.turn rfl rfl
  have hthird := hsecond.turn rfl rfl
  exact ⟨_, _, _, hthird, rfl⟩

theorem end_of_failure_cancelledCall :
    let before : List (Except Error (Option Message)) :=
      [.ok (some .empty), .error (.cancelled "call cancelled by client")]
    ∃ acts w c m, History (listener 3) ⟨2, 64⟩ cancelledCall [] acts w c ∧
      acts.flatMap (Act.received (listener 3)) = before ++ .ok none :: [] ∧
      (Asks 64 cancelledCall m [.empty] ∨
        ∃ e, .error e ∈ before ∧ Breaks 64 cancelledCall c.inputEnded m [.empty] e) := by
  intro before
  obtain ⟨acts, w, c, h, hgot⟩ := history_cancelledCall
  obtain ⟨m, hend⟩ := (end_of_halfClose_or_failure h).2 before [] hgot
  exact ⟨acts, w, c, m, h, hgot, hend⟩

/-- A client that cancels its call has not said that it was done, but a service that goes on listening
is told so. -/
theorem end_after_cancel :
    ∃ acts w c, History (listener 3) ⟨2, 64⟩ cancelledCall [] acts w c ∧
      acts.flatMap (Act.received (listener 3)) =
        [.ok (some .empty), .error (.cancelled "call cancelled by client"), .ok none] ∧
      Frame.halfClose ∉ (Frame.readAll 64 cancelledCall).1 := by
  obtain ⟨acts, w, c, h, hgot⟩ := history_cancelledCall
  refine ⟨acts, w, c, h, hgot, ?_⟩
  obtain ⟨hopening, hmessage, hcancel⟩ := read_cancelledCall true
  rw [Frame.readAll_of_read hopening, Frame.readAll_of_read hmessage,
    Frame.readAll_of_read hcancel, Frame.readAll_of_ended rfl]
  decide

end Connection

end RemoteDiscipline
