import RemoteDiscipline.Proofs.Arguments
import RemoteDiscipline.Proofs.Reading
import RemoteDiscipline.Proofs.Serving
import RemoteDiscipline.Proofs.Snapshots
/-!
What a client has to send before anything happens to a discipline.

A call leaves the lifecycle alone until its whole request is there: the opening frame, the messages
and the half-close behind them, in which every message is one that the method takes. A stream that
breaks off, or goes on in any other way, is answered with one closing frame that reports an error.
The invariant relates what has been read to the inbox and to the task (`Host.Incoming`, `Host.Idle`);
every step keeps it until the request is complete.
-/

namespace RemoteDiscipline

def Negotiation.IsAskedBy : Negotiation → Message → Prop
  | .setStreamOptions, x => ∃ size, x = .streamOptions size
  | .setOptions, x => ∃ values, x = .options values
  | _, x => x = .empty

/-- Whether some messages are a request that a discipline can answer. -/
def Lifecycle.Honours {σ : Type} (l : Lifecycle σ) : Method → List Message → Prop
  | .negotiate n, messages => ∃ x, messages = [x] ∧ n.IsAskedBy x
  | .compute k, messages =>
    k.servedBy l.kind ∧ l.state = .ready ∧ ∀ x ∈ messages, ∃ c, x = .chunk c ∧ l.metadata.Admits k c

/-- Whether a stream begins with a whole request: the opening frame of a call, the messages, and the
half-close right behind them. -/
def Asks (limit : Nat) (bytes : List UInt8) (m : Method) (messages : List Message) : Prop :=
  ∃ timeout rest, (Frame.readAll limit bytes).1 =
    .opening protocolVersion m timeout :: (messages.map .message ++ .halfClose :: rest)

theorem asks_of_starts {limit : Nat} {bytes input : List UInt8} {m : Method} {timeout : Nat}
    {messages : List Message}
    (h : Frame.Starts limit bytes
      (.opening protocolVersion m timeout :: messages.map .message ++ [.halfClose]) input) :
    Asks limit bytes m messages :=
  ⟨timeout, _, by rw [h.readAll_eq, List.append_assoc]; rfl⟩

theorem Asks.append {limit : Nat} {bytes : List UInt8} {m : Method} {messages : List Message}
    (h : Asks limit bytes m messages) (more : List UInt8) :
    Asks limit (bytes ++ more) m messages := by
  obtain ⟨timeout, rest, hread⟩ := h
  have hsplit : (Frame.readAll limit bytes).1 =
      (.opening protocolVersion m timeout :: messages.map .message ++ [.halfClose]) ++ rest := by
    rw [hread, List.append_assoc]
    rfl
  obtain ⟨input, hstarts⟩ := Frame.exists_starts hsplit
  exact asks_of_starts (hstarts.append more)

/-! ### Errors that requests lead to -/

theorem code_ne_ok_of_assign {v : Variable} {c : Chunk} {e : Error} (h : v.assign c = .error e) :
    e.code ≠ .ok := by
  unfold Variable.assign at h
  split at h
  · cases h
  · split at h
    · rename_i he
      cases h
      unfold Chunk.targetRange at he
      dsimp only at he
      repeat' split at he
      all_goals cases he
      all_goals simp [Error.code]
    · cases h

theorem code_ne_ok_of_write {values : Variables} {c : Chunk} {e : Error}
    (h : Arguments.write values c = .error e) : e.code ≠ .ok := by
  unfold Arguments.write at h
  split at h
  · cases h
    exact nofun
  · exact code_ne_ok_of_assign (eq_error_of_map h)

theorem code_ne_ok_of_receive {a : Arguments} {m : Metadata} {k : Computation} {x : Message}
    {e : Error} (h : a.receive m k x = .error e) : e.code ≠ .ok := by
  cases x with
  | chunk c =>
      change a.accept m k c = .error e at h
      unfold Arguments.accept at h
      split at h
      · cases h
        exact nofun
      · split at h
        · cases h
          exact nofun
        · split at h
          · exact code_ne_ok_of_write (eq_error_of_map h)
          · split at h
            · exact code_ne_ok_of_write (eq_error_of_map h)
            · cases h
              exact nofun
  | _ =>
      cases h
      exact nofun

namespace Host

variable {σ : Type}

theorem code_ne_ok_of_snapshot {h : Host σ} {k : Computation} {e : Error}
    (hs : h.snapshot k = .error e) : e.code ≠ .ok := by
  unfold snapshot Lifecycle.requireReady at hs
  by_cases hk : k.servedBy h.lifecycle.kind
  · by_cases hr : h.lifecycle.state = .ready
    · simp [hk, hr] at hs
    · simp only [hk, hr, Bool.not_true, Bool.false_eq_true, if_false] at hs
      cases hs
      exact nofun
  · simp only [hk, Bool.not_false, if_true] at hs
    cases hs
    exact nofun

theorem negotiate_of_not_asked {h : Host σ} {n : Negotiation} {x : Message} (hx : ¬ n.IsAskedBy x) :
    ∃ e, h.negotiate n x = (.error e, h) ∧ e.code ≠ .ok := by
  cases n <;> cases x <;> first
    | exact ⟨_, rfl, nofun⟩
    | exact absurd rfl hx
    | exact absurd ⟨_, rfl⟩ hx

/-! ### The invariant -/

/-- What has come in for a call: of the messages on the stream the task has taken some, and the rest
waits in the inbox or with the reader. -/
inductive Incoming (limit : Nat) (bytes : List UInt8) (m : Method) (taken : List Message) :
    Reader → Inbox → List UInt8 → Prop
  | reading (timeout : Nat) (pending : List Message) {input : List UInt8} :
      Frame.Starts limit bytes
        (.opening protocolVersion m timeout :: (taken ++ pending).map .message) input →
      Incoming limit bytes m taken .reading ⟨pending.map .ok, true⟩ input
  | holding (timeout : Nat) (pending : List Message) {x : Message} {input : List UInt8} :
      Frame.Starts limit bytes
        (.opening protocolVersion m timeout :: (taken ++ (pending ++ [x])).map .message) input →
      Incoming limit bytes m taken (.holding x) ⟨pending.map .ok, true⟩ input
  /-- The half-close has been read. -/
  | complete {reader : Reader} {pending : List Message} {input : List UInt8} :
      reader = .draining ∨ reader = .stopped → Asks limit bytes m (taken ++ pending) →
      Incoming limit bytes m taken reader ⟨pending.map .ok, false⟩ input
  | failing {e : Error} {pending : List Message} {input : List UInt8} :
      e.code ≠ .ok → Incoming limit bytes m taken (.failing e) ⟨pending.map .ok, true⟩ input
  /-- The stream has broken off: an error stands behind the messages. -/
  | broken {e : Error} {pending : List Message} {input : List UInt8} :
      e.code ≠ .ok →
      Incoming limit bytes m taken .stopped ⟨pending.map .ok ++ [.error e], false⟩ input

/-- The tasks that have not done anything to the lifecycle `l`, with the messages that they have
taken. -/
inductive Idle (l : Lifecycle σ) : Method → List Message → Task → Prop
  | arrived (m : Method) : Idle l m [] (.arrived m)
  | awaiting (n : Negotiation) : Idle l (.negotiate n) [] (.awaiting n)
  | closing (n : Negotiation) (x : Message) : Idle l (.negotiate n) [x] (.closing n x)
  /-- The request is not of the method's kind, so it is about to be refused. -/
  | rejecting {n : Negotiation} {x : Message} :
      ¬ n.IsAskedBy x → Idle l (.negotiate n) [x] (.applying n x)
  | queued (k : Computation) (ticket : Option Nat) : Idle l (.compute k) [] (.queued k ticket)
  | draining {k : Computation} {ticket : Option Nat} {s : Snapshot} {a : Arguments}
      {messages : List Message} :
      k.servedBy l.kind → l.state = .ready → s.metadata = l.metadata →
      (Arguments.zeros l.metadata k).receiveAll l.metadata k messages = .ok a →
      Idle l (.compute k) messages (.draining k ticket s a)

inductive Fails : Progress Task → Prop
  | leaving {ticket : Option Nat} {status : Status} :
      status.code ≠ .ok → Fails (.running (.leaving ticket status))
  | ended {status : Status} : status.code ≠ .ok → Fails (.ended status)

/-- A call that has done nothing to the lifecycle `l`, and has nothing to say but an error. -/
def Unheeded (l : Lifecycle σ) (limit : Nat) (bytes : List UInt8) (reader : Reader)
    (call : Served Task) (input : List UInt8) : Prop :=
  call.outbox.items = [] ∧
    (Fails call.progress ∨
      ∃ t taken, call.progress = .running t ∧ Idle l call.method taken t ∧
        Incoming limit bytes call.method taken reader call.inbox input)

/-- A request has arrived in full that the discipline can answer. -/
def Heeded (l : Lifecycle σ) (limit : Nat) (bytes : List UInt8) : Prop :=
  ∃ m messages, Asks limit bytes m messages ∧ l.Honours m messages

theorem fails_failing (ticket : Option Nat) {e : Error} (h : e.code ≠ .ok) :
    Fails (.running (.failing ticket e)) := .leaving h

/-! ### Steps of the task -/

section Moves

variable {limit : Nat} {bytes input : List UInt8} {m : Method} {taken : List Message}
  {reader : Reader} {l : Lifecycle σ}

theorem Incoming.take {inbox inbox' : Inbox} {r : Except Error (Option Message)}
    (h : Incoming limit bytes m taken reader inbox input) (ht : inbox.take = some (r, inbox')) :
    (∃ x, r = .ok (some x) ∧ Incoming limit bytes m (taken ++ [x]) reader inbox' input) ∨
      r = .ok none ∧ Asks limit bytes m taken ∨ ∃ e, r = .error e ∧ e.code ≠ .ok := by
  cases h with
  | @reading timeout pending input hs =>
      cases pending with
      | nil => cases ht
      | cons x pending =>
          cases ht
          refine .inl ⟨x, rfl, .reading timeout pending ?_⟩
          rwa [List.append_assoc]
  | @holding timeout pending y input hs =>
      cases pending with
      | nil => cases ht
      | cons x pending =>
          cases ht
          refine .inl ⟨x, rfl, .holding timeout pending ?_⟩
          rwa [List.append_assoc]
  | @complete reader pending input hr ha =>
      cases pending with
      | nil =>
          cases ht
          rw [List.append_nil] at ha
          exact .inr (.inl ⟨rfl, ha⟩)
      | cons x pending =>
          cases ht
          refine .inl ⟨x, rfl, .complete hr ?_⟩
          rwa [List.append_assoc]
  | @failing e pending input he =>
      cases pending with
      | nil => cases ht
      | cons x pending =>
          cases ht
          exact .inl ⟨x, rfl, .failing he⟩
  | @broken e pending input he =>
      cases pending with
      | nil =>
          cases ht
          exact .inr (.inr ⟨e, rfl, he⟩)
      | cons x pending =>
          cases ht
          exact .inl ⟨x, rfl, .broken he⟩

theorem letIn_cases (h : Host σ) (m : Method) :
    (∃ e, (h.letIn m).2 = .failing none e ∧ e.code ≠ .ok) ∨
      (∃ n, m = .negotiate n ∧ (h.letIn m).2 = .awaiting n) ∨
        ∃ k ticket, m = .compute k ∧ (h.letIn m).2 = .queued k ticket := by
  unfold letIn
  split
  · exact .inl ⟨_, rfl, nofun⟩
  · split
    · exact .inr (.inl ⟨_, rfl, rfl⟩)
    · exact .inr (.inr ⟨_, none, rfl, rfl⟩)
    · exact .inr (.inr ⟨_, _, rfl, rfl⟩)

/-- A move of a task that has done nothing yet: it has still done nothing, or fails, or a request has
arrived that the discipline answers. -/
theorem unheeded_of_move {h h' : Host σ} {c c' : Call} {t : Task} {progress : Progress Task}
    (hsound : h.lifecycle.Sound) (hidle : Idle h.lifecycle c.method taken t)
    (hin : Incoming limit bytes c.method taken reader c.inbox input) (hout : c.outbox.items = [])
    (hm : Move h c t h' c' progress) :
    h'.lifecycle = h.lifecycle ∧ Unheeded h.lifecycle limit bytes reader ⟨c', progress⟩ input ∨
      Heeded h.lifecycle limit bytes := by
  generalize hmethod : c.method = m at hidle hin
  cases hidle with
  | arrived =>
      cases hm
      refine .inl ⟨lifecycle_letIn h _, hout, ?_⟩
      subst hmethod
      obtain ⟨e, he, hcode⟩ | ⟨n, hn, ht⟩ | ⟨k, ticket, hk, ht⟩ := h.letIn_cases c.method
      · rw [he]
        exact .inl (fails_failing none hcode)
      · rw [ht]
        exact .inr ⟨_, [], rfl, hn ▸ .awaiting n, hin⟩
      · rw [ht]
        exact .inr ⟨_, [], rfl, hk ▸ .queued k ticket, hin⟩
  | awaiting n =>
      cases hm with
      | request hr =>
          obtain ⟨inbox, ht, rfl⟩ := Call.receive_eq_some hr
          refine .inl ⟨rfl, hout, ?_⟩
          obtain ⟨x, rfl, hin'⟩ | ⟨rfl, -⟩ | ⟨e, rfl, he⟩ := hin.take ht
          · exact .inr ⟨_, [x], rfl, hmethod ▸ .closing n x, hmethod ▸ hin'⟩
          · exact .inl (fails_failing none nofun)
          · exact .inl (fails_failing none he)
  | closing n x =>
      cases hm with
      | close hr =>
          obtain ⟨inbox, ht, rfl⟩ := Call.receive_eq_some hr
          obtain ⟨y, rfl, -⟩ | ⟨rfl, hasks⟩ | ⟨e, rfl, he⟩ := hin.take ht
          · exact .inl ⟨rfl, hout, .inl (fails_failing none nofun)⟩
          -- The request is complete. One of the wrong kind is still to be refused.
          · by_cases hx : n.IsAskedBy x
            · exact .inr ⟨.negotiate n, [x], hasks, x, rfl, hx⟩
            · have hinbox := Inbox.eq_of_take_none ht
              refine .inl ⟨rfl, hout, .inr ⟨_, [x], rfl, hmethod ▸ .rejecting hx, ?_⟩⟩
              exact hinbox ▸ hmethod ▸ hin
          · exact .inl ⟨rfl, hout, .inl (fails_failing none he)⟩
  | rejecting hx =>
      obtain ⟨e, he, hcode⟩ := negotiate_of_not_asked (h := h) hx
      cases hm with
      | apply hn =>
          rw [he] at hn
          cases hn
      | decline hn =>
          rw [he] at hn
          cases hn
          exact .inl ⟨rfl, hout, .inl (fails_failing none hcode)⟩
  | queued k ticket =>
      cases hm with
      | start hturn hs =>
          obtain ⟨hk, hready, rfl⟩ := snapshot_eq_ok_iff.mp hs
          refine .inl ⟨rfl, hout, .inr ⟨_, [], rfl, hmethod ▸ .draining hk hready rfl rfl, ?_⟩⟩
          exact hmethod ▸ hin
      | refuse hturn hs =>
          exact .inl ⟨rfl, hout, .inl (fails_failing ticket (code_ne_ok_of_snapshot hs))⟩
  | @draining k ticket s a _ hk hready hs ha =>
      cases hm with
      | drain hr =>
          obtain ⟨inbox, ht, rfl⟩ := Call.receive_eq_some hr
          obtain ⟨x, rfl, hin'⟩ | ⟨rfl, hasks⟩ | ⟨e, rfl, he⟩ := hin.take ht
          · refine .inl ⟨rfl, hout, ?_⟩
            simp only [Task.ofArgument, hs]
            cases hx : a.receive h.lifecycle.metadata k x with
            | error e => exact .inl (fails_failing ticket (code_ne_ok_of_receive hx))
            | ok b =>
                refine .inr ⟨_, taken ++ [x], rfl, hmethod ▸ .draining hk hready hs ?_, ?_⟩
                · rw [Arguments.receiveAll_concat ha, hx]
                · exact hmethod ▸ hin'
          -- All chunks have been taken in, which the declarations alone decide.
          · have hindex := hsound.metadata.indexed
            have hdistinct := (hsound.valid hready).distinct
            obtain ⟨hadmits, -⟩ :=
              Arguments.receiveAll_eq_ok hindex (Arguments.shaped_zeros hdistinct k) ha
            exact .inr ⟨.compute k, taken, hasks, hk, hready, hadmits⟩
          · exact .inl ⟨rfl, hout, .inl (fails_failing ticket he)⟩

theorem fails_of_move {h h' : Host σ} {c c' : Call} {t : Task} {progress : Progress Task}
    (ht : Fails (.running t)) (hm : Move h c t h' c' progress) :
    h'.lifecycle = h.lifecycle ∧ c' = c ∧ Fails progress := by
  cases ht with
  | leaving hs =>
      cases hm
      exact ⟨lifecycle_release h _, rfl, .ended hs⟩

theorem Unheeded.advance {h h' : Host σ} {call call' : Served Task} (hsound : h.lifecycle.Sound)
    (hu : Unheeded h.lifecycle limit bytes reader call input)
    (ha : call.advance service h = some (h', call')) :
    h'.lifecycle = h.lifecycle ∧ Unheeded h.lifecycle limit bytes reader call' input ∨
      Heeded h.lifecycle limit bytes := by
  obtain ⟨hout, hstate⟩ := hu
  obtain ⟨t, ht, hm⟩ := move_of_advance ha
  obtain hfails | ⟨t', taken, ht', hidle, hin⟩ := hstate
  · rw [ht] at hfails
    obtain ⟨hl, hc, hfails'⟩ := fails_of_move hfails hm
    refine .inl ⟨hl, ?_, .inl hfails'⟩
    rw [hc]
    exact hout
  · rw [ht] at ht'
    cases ht'
    exact unheeded_of_move hsound hidle hin hout hm

/-! ### Steps of the reader -/

open Connection in
theorem hear_cases {c : Connection Task} {heard : Heard} {rest : List UInt8}
    (h : c.hear = some (heard, rest)) :
    (∃ x, heard = .message x ∧
        Frame.read c.limits.maxFrameBytes c.inputEnded c.input = .frame (.message x) rest) ∨
      (heard = .halfClose ∧
        Frame.read c.limits.maxFrameBytes c.inputEnded c.input = .frame .halfClose rest) ∨
      ∃ e, heard = .failure e ∧ e.code ≠ .ok := by
  obtain hmessage | hclose | ⟨e, he, hfailure⟩ := Connection.hear_eq_some h
  · exact .inl hmessage
  · exact .inr (.inl hclose)
  · exact .inr (.inr ⟨e, he, Reading.code_ne_ok_of_failure hfailure⟩)

theorem Incoming.readStep {c : Connection Task} {reader' : Reader} {call call' : Served Task}
    {rest : List UInt8} (hin : Incoming c.limits.maxFrameBytes bytes m taken reader call.inbox c.input)
    (hrun : call.status? = none) (h : c.readStep reader call = some (reader', call', rest)) :
    Incoming c.limits.maxFrameBytes bytes m taken reader' call'.inbox rest := by
  have hlisten : Connection.isListening call = true := by
    rw [Connection.isListening, hrun]
    rfl
  -- The indices have to be variables before the cases can be told apart.
  generalize hinbox : call.inbox = inbox at hin
  generalize hinput : c.input = input at hin
  cases hin with
  | @reading timeout pending _ hs =>
      obtain ⟨⟨heard, rest'⟩, hh, he⟩ := Option.map_eq_some_iff.mp h
      obtain ⟨x, rfl, hread⟩ | ⟨rfl, hread⟩ | ⟨e, rfl, hcode⟩ := hear_cases hh
      · cases he
        rw [hinput] at hread
        rw [hinbox]
        refine .holding timeout pending ?_
        have := hs.snoc (Frame.read_ended hread false)
        rwa [← List.append_assoc, List.map_append]
      · cases he
        rw [hinput] at hread
        show Incoming _ bytes m taken .draining call.inbox.close rest
        rw [hinbox]
        exact .complete (.inl rfl) (asks_of_starts (hs.snoc (Frame.read_ended hread false)))
      · cases he
        show Incoming _ bytes m taken (.failing e) call.inbox rest
        rw [hinbox]
        exact .failing hcode
  | @holding timeout pending x _ hs =>
      simp only [Connection.readStep, hlisten, Bool.not_true, Bool.false_eq_true, if_false] at h
      split at h
      · cases h
        show Incoming _ bytes m taken .reading (call.inbox.add [.ok x]) c.input
        rw [hinbox, hinput]
        have hadd : (⟨pending.map .ok, true⟩ : Inbox).add [.ok x] =
            ⟨(pending ++ [x]).map .ok, true⟩ := by
          simp [Inbox.add]
        rw [hadd]
        exact .reading timeout (pending ++ [x]) hs
      · cases h
  | @complete _ pending _ hr hasks =>
      -- Behind the half-close nothing reaches the inbox any more.
      obtain rfl | rfl := hr
      · obtain ⟨⟨heard, rest'⟩, hh, he⟩ := Option.map_eq_some_iff.mp h
        cases heard with
        | message x | halfClose =>
            cases he
            rw [hinbox]
            exact .complete (.inl rfl) hasks
        | failure e =>
            cases he
            show Incoming _ bytes m taken .stopped call.inbox rest
            rw [hinbox]
            exact .complete (.inr rfl) hasks
      · cases h
  | @failing e pending _ hcode =>
      simp only [Connection.readStep, hlisten, Bool.not_true, Bool.false_eq_true, if_false] at h
      split at h
      · cases h
        show Incoming _ bytes m taken .stopped (call.inbox.add [.error e]).close c.input
        rw [hinbox]
        exact .broken hcode
      · cases h
  | broken hcode => cases h

theorem Unheeded.readStep {c : Connection Task} {reader' : Reader} {call call' : Served Task}
    {rest : List UInt8} (hu : Unheeded l c.limits.maxFrameBytes bytes reader call c.input)
    (h : c.readStep reader call = some (reader', call', rest)) :
    Unheeded l c.limits.maxFrameBytes bytes reader' call' rest := by
  obtain ⟨hprogress, houtbox, hmethod⟩ := Connection.readStep_eq_some h
  obtain ⟨hout, hstate⟩ := hu
  refine ⟨by rw [houtbox, hout], ?_⟩
  obtain hfails | ⟨t, taken, ht, hidle, hin⟩ := hstate
  · exact .inl (hprogress ▸ hfails)
  · have hrun : call.status? = none := by rw [Served.status?, ht]
    refine .inr ⟨t, taken, hprogress ▸ ht, hmethod ▸ hidle, ?_⟩
    rw [hmethod]
    exact hin.readStep hrun h

end Moves

/-! ### Steps of the connection -/

section Serving

variable {limit : Nat} {bytes input taken : List UInt8} {l : Lifecycle σ} {c c' : Connection Task}

/-- What has been written to a client that gets no answer: nothing, or a closing frame that reports
an error. -/
def Unanswered (written : List UInt8) : Prop :=
  written = [] ∨ ∃ status, ¬ status.isOk ∧ written = (Frame.close status).encode

/-- A connection that has done nothing to the lifecycle `l`. -/
inductive Standing (l : Lifecycle σ) (limit : Nat) (bytes taken : List UInt8)
    (c : Connection Task) : Prop
  | opening :
      c.phase = .opening → c.input = bytes → c.written taken = [] → Standing l limit bytes taken c
  | serving {reader : Reader} {call : Served Task} {deadline : Option Deadline} :
      c.phase = .serving reader call deadline → Unheeded l limit bytes reader call c.input →
      c.written taken = [] → Standing l limit bytes taken c
  | finished : c.isEnded → Unanswered (c.written taken) → Standing l limit bytes taken c

theorem not_isOk {status : Status} (h : status.code ≠ .ok) : ¬ status.isOk := by
  simpa [Status.isOk] using h

theorem standing_openCall {now : Nat} (hinput : c.input = bytes) (hwritten : c.written taken = [])
    (h : c.openCall (service : Service (Host σ) Task) now = some c') :
    Standing l c.limits.maxFrameBytes bytes taken c' ∧ c'.limits = c.limits := by
  have refused {status : Status} (hs : status.code ≠ .ok) :
      Unanswered ((c.write (.close status)).written taken) := by
    rw [Connection.written_write, hwritten, List.nil_append]
    split
    · exact .inr ⟨status, not_isOk hs, rfl⟩
    · exact .inl rfl
  cases Connection.opened_of_openCall h with
  | ended hread | unreadable hread => exact ⟨.finished rfl (.inl hwritten), rfl⟩
  | @served m timeout rest deadline hread =>
      refine ⟨.serving rfl ⟨rfl, .inr ⟨.arrived m, [], rfl, .arrived m, ?_⟩⟩ hwritten, rfl⟩
      rw [hinput] at hread
      exact .reading timeout [] (Frame.Starts.nil.snoc (Frame.read_ended hread false))
  | unspoken | unexpected => exact ⟨.finished rfl (refused nofun), rfl⟩

theorem standing_writeStep {waiting : Option Nat} {reader : Reader} {call : Served Task}
    {deadline : Option Deadline} (hu : Unheeded l limit bytes reader call input)
    (hwritten : c.written taken = []) (h : c.writeStep waiting reader call deadline = some c') :
    Standing l limit bytes taken c' ∧ c'.limits = c.limits := by
  obtain ⟨hout, hstate⟩ := hu
  have failed {status : Status} (hp : call.progress = .ended status) : status.code ≠ .ok := by
    obtain hfails | ⟨t, -, ht, -⟩ := hstate
    · rw [hp] at hfails
      cases hfails with
      | ended hcode => exact hcode
    · rw [hp] at ht
      cases ht
  cases Connection.wrote_of_writeStep h with
  | dropped hitems | message hitems => simp [hout] at hitems
  | left hitems hp => exact ⟨.finished rfl (.inl hwritten), rfl⟩
  | @closed status hitems hp hthere =>
      refine ⟨.finished rfl (.inr ⟨status, not_isOk (failed hp), ?_⟩), rfl⟩
      show (c.write (.close status)).written taken = _
      rw [Connection.written_write_of_isRefused hthere, hwritten, List.nil_append]

theorem standing_step {h h' : Host σ} {now : Nat} {waiting : Option Nat}
    (hsound : h.lifecycle.Sound)
    (hc : Standing h.lifecycle c.limits.maxFrameBytes bytes taken c)
    (hstep : c.step service now waiting h = some (h', c')) :
    (h'.lifecycle = h.lifecycle ∧ Standing h.lifecycle c.limits.maxFrameBytes bytes taken c' ∧
        c'.limits = c.limits) ∨
      Heeded h.lifecycle c.limits.maxFrameBytes bytes := by
  cases hc with
  | opening hphase hinput hwritten =>
      simp only [Connection.step, hphase] at hstep
      obtain ⟨c₁, ho, he⟩ := Option.map_eq_some_iff.mp hstep
      cases he
      exact .inl ⟨rfl, standing_openCall hinput hwritten ho⟩
  | serving hphase hu hwritten =>
      simp only [Connection.step, hphase] at hstep
      split at hstep
      · rename_i hr
        cases hstep
        exact .inl ⟨rfl, .serving rfl (hu.readStep hr) hwritten, rfl⟩
      · split at hstep
        · rename_i ha
          cases hstep
          obtain ⟨hl, hu'⟩ | hheeded := hu.advance hsound ha
          · exact .inl ⟨hl, .serving rfl hu' hwritten, rfl⟩
          · exact .inr hheeded
        · obtain ⟨c₁, hw, he⟩ := Option.map_eq_some_iff.mp hstep
          cases he
          exact .inl ⟨rfl, standing_writeStep hu hwritten hw⟩
  | finished hended hwritten =>
      unfold Connection.step at hstep
      unfold Connection.isEnded at hended
      split at hstep
      · rename_i hp
        rw [hp] at hended
        cases hended
      · rename_i hp
        rw [hp] at hended
        cases hended
      · cases hstep
      · cases hstep

/-! ### Events from outside -/

theorem Incoming.append {m : Method} {messages : List Message} {reader : Reader} {inbox : Inbox}
    (h : Incoming limit bytes m messages reader inbox input) (more : List UInt8) :
    Incoming limit (bytes ++ more) m messages reader inbox (input ++ more) := by
  cases h with
  | reading timeout pending hs => exact .reading timeout pending (hs.append more)
  | holding timeout pending hs => exact .holding timeout pending (hs.append more)
  | complete hr hasks => exact .complete hr (hasks.append more)
  | failing hcode => exact .failing hcode
  | broken hcode => exact .broken hcode

theorem Unheeded.append {reader : Reader} {call : Served Task}
    (h : Unheeded l limit bytes reader call input) (more : List UInt8) :
    Unheeded l limit (bytes ++ more) reader call (input ++ more) := by
  obtain ⟨hout, hfails | ⟨t, messages, ht, hidle, hin⟩⟩ := h
  · exact ⟨hout, .inl hfails⟩
  · exact ⟨hout, .inr ⟨t, messages, ht, hidle, hin.append more⟩⟩

theorem Standing.arrive (h : Standing l limit bytes taken c) (more : List UInt8) :
    Standing l limit (bytes ++ more) taken (c.arrive more) := by
  cases h with
  | opening hphase hinput hwritten =>
      refine .opening hphase ?_ hwritten
      rw [← hinput]
      rfl
  | serving hphase hu hwritten => exact .serving hphase (hu.append more) hwritten
  | finished hended hwritten => exact .finished hended hwritten

theorem Standing.congr (h : Standing l limit bytes taken c) {taken' : List UInt8}
    (hphase : c'.phase = c.phase) (hinput : c'.input = c.input)
    (hwritten : c'.written taken' = c.written taken) : Standing l limit bytes taken' c' := by
  cases h with
  | opening hp hi hw => exact .opening (hphase.trans hp) (hinput.trans hi) (hwritten.trans hw)
  | serving hp hu hw => exact .serving (hphase.trans hp) (hinput ▸ hu) (hwritten.trans hw)
  | finished hended hw =>
      refine .finished ?_ (hwritten ▸ hw)
      rw [Connection.isEnded, hphase]
      exact hended

theorem Standing.expire (h : Standing l limit bytes taken c) (w : Host σ) :
    (c.expire service w).1.lifecycle = w.lifecycle ∧ (c.expire service w).2.limits = c.limits ∧
      Standing l limit bytes taken (c.expire service w).2 := by
  cases h with
  | opening hphase hinput hwritten =>
      rw [Connection.expire, hphase]
      exact ⟨rfl, rfl, .opening hphase hinput hwritten⟩
  | @serving reader call deadline hphase hu hwritten =>
      rw [Connection.expire, hphase]
      split
      · rename_i hp
        cases hp
        refine ⟨lifecycle_release w _, rfl, .serving rfl ⟨hu.1, .inl (.ended nofun)⟩ hwritten⟩
      · exact ⟨rfl, rfl, .serving hphase hu hwritten⟩
  | finished hended hwritten =>
      unfold Connection.isEnded at hended
      unfold Connection.expire
      split
      · rename_i hp
        rw [hp] at hended
        cases hended
      · exact ⟨rfl, rfl, .finished hended hwritten⟩

/-- However a connection is scheduled, and at every moment: either a request has arrived in full, with
a half-close right behind its messages, and the discipline can answer it; or the lifecycle is as it
was, with the record of the hooks that ran, and the client has got nothing but an error. -/
theorem lifecycle_eq_or_heeded {d : Discipline σ} {memory : σ} {ops : List Operation}
    {linked : Bool} {gate : Option Gate} {limits : Limits} {l : Lifecycle (σ × List HookCall)}
    (hl : l = (Lifecycle.register d.recorded (memory, [])).run ops)
    {arrived taken : List UInt8} {w : Host (σ × List HookCall)} {c : Connection Task}
    (hrun : Connection.Run service limits ⟨linked, l, gate⟩ arrived taken w c) :
    (w.lifecycle = l ∧ Unanswered (c.written taken)) ∨ Heeded l limits.maxFrameBytes arrived := by
  have hsound : l.Sound := by
    rw [hl]
    exact ((Lifecycle.sound_register d.recorded (memory, [])).run ops).1
  suffices h : (w.lifecycle = l ∧ Standing l limits.maxFrameBytes arrived taken c ∧
      c.limits = limits) ∨ Heeded l limits.maxFrameBytes arrived by
    obtain ⟨hw, hstanding, -⟩ | hheeded := h
    · refine .inl ⟨hw, ?_⟩
      cases hstanding with
      | opening _ _ hwritten => exact .inl hwritten
      | serving _ _ hwritten => exact .inl hwritten
      | finished _ hwritten => exact hwritten
    · exact .inr hheeded
  -- By induction on the run: the invariant holds, or a request has been complete at some moment, and then
  -- it still is.
  clear hl
  induction hrun with
  | fresh => exact .inl ⟨rfl, .opening rfl rfl rfl, rfl⟩
  | step _ hstep ih =>
      obtain ⟨hw, hc, hlimits⟩ | hheeded := ih
      · rw [← hw] at hsound hc ⊢
        rw [← hlimits] at hc ⊢
        obtain ⟨hw', hc', hlimits'⟩ | hheeded := standing_step hsound hc hstep
        · exact .inl ⟨hw', hc', hlimits'⟩
        · exact .inr hheeded
      · exact .inr hheeded
  | expire _ ih =>
      obtain ⟨hw, hc, hlimits⟩ | hheeded := ih
      · obtain ⟨hw', hlimits', hc'⟩ := hc.expire _
        exact .inl ⟨hw'.trans hw, hc', hlimits'.trans hlimits⟩
      · exact .inr hheeded
  | arrive bytes _ ih =>
      obtain ⟨hw, hc, hlimits⟩ | ⟨m, messages, hasks, hhonours⟩ := ih
      · exact .inl ⟨hw, hc.arrive bytes, hlimits⟩
      · exact .inr ⟨m, messages, hasks.append bytes, hhonours⟩
  | endInput _ ih | hangUp _ ih =>
      obtain ⟨hw, hc, hlimits⟩ | hheeded := ih
      · exact .inl ⟨hw, hc.congr rfl rfl rfl, hlimits⟩
      · exact .inr hheeded
  | takeOutput _ ih =>
      obtain ⟨hw, hc, hlimits⟩ | hheeded := ih
      · exact .inl ⟨hw, hc.congr rfl rfl Connection.written_takeOutput, hlimits⟩
      · exact .inr hheeded

/-- A computation on a ready discipline whose stream ends right behind the opening frame: no hook runs,
and there is at most an error to read. -/
theorem truncated_request_unheeded :
    let l := (Lifecycle.register ({ kind := .explicit } : Discipline Unit).recorded ((), [])).run
      [.initialise, .setup]
    let r := Connection.serve service ⟨1, 1000⟩ ⟨true, l, none⟩
      (Frame.opening protocolVersion (.compute .function) 0).encode true
    l.state = .ready ∧ r.1.lifecycle = l ∧ Unanswered (r.2.written []) := by
  intro l r
  have hrun := Connection.run_serve service ⟨1, 1000⟩ ⟨true, l, none⟩
    (Frame.opening protocolVersion (.compute .function) 0).encode true
  refine ⟨rfl, ?_⟩
  obtain h | ⟨m, messages, ⟨timeout, rest, hread⟩, -⟩ := lifecycle_eq_or_heeded rfl hrun
  · exact h
  · have hframe : Frame.read 1000 true (Frame.opening protocolVersion (.compute .function) 0).encode =
        .frame (.opening protocolVersion (.compute .function) 0) [] := by decide +kernel
    have hend : Frame.readAll 1000 [] = ([], none) := by
      rw [Frame.readAll]
      rfl
    rw [Frame.readAll_of_read hframe, hend] at hread
    obtain ⟨-, htail⟩ := List.cons.inj hread
    simp at htail

end Serving

end Host

end RemoteDiscipline
