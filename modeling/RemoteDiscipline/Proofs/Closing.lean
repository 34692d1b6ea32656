import RemoteDiscipline.Proofs.Frames
import RemoteDiscipline.Proofs.Histories
import RemoteDiscipline.Proofs.Reading
/-!
What a connection writes: messages, and one closing frame behind them.

What arrives first decides whether there is an answer at all, and whether a service gives it
(`Connection.answer`). Whoever steps first, what has been written is a beginning of the answer to what
has been done so far. When nothing is left to do and the client has not gone, it is the answer up to
the first frame that is too long to be written. The invariant says where the messages are that the
service has sent (`Connection.Conveyed`) and that a call has a status from the moment at which it ends
(`Connection.Follows`).
-/

namespace RemoteDiscipline

namespace Frame

variable {limit : Nat} {bytes rest : List UInt8}

theorem read_fault_ended {ended : Bool} {e : ReadFault} (h : read limit ended bytes = .fault e rest) :
    read limit true bytes = .fault e rest := by
  cases ended with
  | true => exact h
  | false => simpa using read_append_fault h true []

theorem head?_readAll_append (h : read limit false bytes ≠ .waiting) (more : List UInt8) :
    read limit false (bytes ++ more) ≠ .waiting ∧
      (readAll limit (bytes ++ more)).1.head? = (readAll limit bytes).1.head? := by
  cases hread : read limit false bytes with
  | frame f rest =>
      refine ⟨by simp [read_append hread false more], ?_⟩
      rw [readAll_of_read (read_append hread true more), readAll_of_read (read_ended hread true)]
      rfl
  | fault e rest =>
      refine ⟨by simp [read_append_fault hread false more], ?_⟩
      rw [readAll_of_fault (read_append_fault hread true more),
        readAll_of_fault (read_fault_ended hread)]
  | ended => exact absurd hread read_ne_ended
  | waiting => exact absurd hread h

end Frame

namespace Connection

variable {ω τ : Type}

/-- The answer to what has arrived on a connection, when `acts` have been done to its call. -/
def answer (s : Service ω τ) (limits : Limits) (arrived : List UInt8) (acts : List (Act ω τ)) :
    List Frame :=
  match (Frame.readAll limits.maxFrameBytes arrived).1.head? with
  | none => []
  | some (.opening version _ _) =>
    if version = protocolVersion then
      (acts.flatMap (Act.sent s)).map .message ++ (acts.filterMap (Act.status? s)).map .close
    else
      [.close (.unimplemented
        (s!"protocol version {version} not supported " ++
          s!"(server speaks {protocolVersion})"))]
  | some f => [.close (.invalidArgument s!"expected open frame, got {f.name}")]

variable {s : Service ω τ} {limits : Limits} {w w' : ω} {c c' : Connection τ}
  {arrived taken : List UInt8} {acts : List (Act ω τ)}

/-! ### Opening -/

def Opens (limits : Limits) (arrived : List UInt8) : Prop :=
  ∃ m timeout rest,
    Frame.read limits.maxFrameBytes false arrived = .frame (.opening protocolVersion m timeout) rest

theorem Opens.append (h : Opens limits arrived) (more : List UInt8) :
    Opens limits (arrived ++ more) := by
  obtain ⟨m, timeout, rest, hread⟩ := h
  exact ⟨m, timeout, _, Frame.read_append hread false more⟩

theorem Opens.answer_eq (h : Opens limits arrived) (s : Service ω τ) (acts : List (Act ω τ)) :
    answer s limits arrived acts =
      (acts.flatMap (Act.sent s)).map .message ++ (acts.filterMap (Act.status? s)).map .close := by
  obtain ⟨m, timeout, rest, hread⟩ := h
  simp [answer, Frame.readAll_of_read (Frame.read_ended hread true)]

theorem answer_append (h : Frame.read limits.maxFrameBytes false arrived ≠ .waiting)
    (more : List UInt8) : answer s limits (arrived ++ more) acts = answer s limits arrived acts := by
  simp only [answer, (Frame.head?_readAll_append h more).2]

/-! ### The invariant -/

/-- Where the messages are that a service has sent: some are written and the others wait in the
outbox; or the others are lost, because the client has gone or the first of them is too long. -/
inductive Conveyed (abandoned : Bool) (written : List UInt8) (o : Outbox) : List Message → Prop
  | kept {sent : List Message} : o.isOpen = true →
      (∀ m ∈ sent, (Frame.message m).isAnnounceable = true) →
      written = Frame.encodeAll (sent.map .message) → Conveyed abandoned written o (sent ++ o.items)
  | lost {sent rest : List Message} : o.isOpen = false → o.items = [] →
      (∀ m ∈ sent, (Frame.message m).isAnnounceable = true) →
      (abandoned = false →
        ∃ m more, rest = m :: more ∧ (Frame.message m).isAnnounceable = false) →
      written = Frame.encodeAll (sent.map .message) → Conveyed abandoned written o (sent ++ rest)

/-- What is written of a call and what is done to it: the messages that were sent stay in order, and
one closing frame with the status of the call comes behind them. -/
inductive Follows (s : Service ω τ) (limits : Limits) (arrived taken : List UInt8)
    (acts : List (Act ω τ)) (c : Connection τ) : Prop
  | opening : c.phase = .opening → c.limits = limits → c.input = arrived → c.written taken = [] →
      acts = [] → Follows s limits arrived taken acts c
  | serving {reader : Reader} {call : Served τ} {deadline : Option Deadline} :
      c.phase = .serving reader call deadline → Opens limits arrived →
      Conveyed c.abandoned (c.written taken) call.outbox (acts.flatMap (Act.sent s)) →
      acts.filterMap (Act.status? s) = call.status?.toList →
      Follows s limits arrived taken acts c
  /-- There is no call. -/
  | refused : c.isEnded → acts = [] →
      Frame.read limits.maxFrameBytes c.inputEnded arrived ≠ .waiting →
      c.written taken =
        Frame.encodeAll ((answer s limits arrived []).takeWhile Frame.isAnnounceable) →
      Follows s limits arrived taken acts c
  | finished {status : Status} {frames : List Frame} : c.isEnded → Opens limits arrived →
      acts.filterMap (Act.status? s) = [status] → c.written taken = Frame.encodeAll frames →
      frames <+: answer s limits arrived acts →
      (c.abandoned = false →
        frames = (answer s limits arrived acts).takeWhile Frame.isAnnounceable) →
      Follows s limits arrived taken acts c

/-- A beginning of what has been sent is written. When nothing waits for the writer and the client is
there, it goes up to the first message that is too long. -/
theorem Conveyed.exists_written {abandoned : Bool} {written : List UInt8} {o : Outbox}
    {said : List Message} (h : Conveyed abandoned written o said) :
    ∃ sent : List Message, written = Frame.encodeAll (sent.map .message) ∧ sent <+: said ∧
      (abandoned = false → o.items = [] → ∀ behind : List Frame,
        (o.isOpen = true → behind.takeWhile Frame.isAnnounceable = []) →
        (said.map Frame.message ++ behind).takeWhile Frame.isAnnounceable = sent.map .message) := by
  cases h with
  | @kept sent hopen hall hwritten =>
      refine ⟨sent, hwritten, List.prefix_append _ _, fun _ hnone behind hbehind => ?_⟩
      rw [hnone, List.append_nil, List.takeWhile_append_of_pos (List.forall_mem_map.mpr hall),
        hbehind hopen, List.append_nil]
  | @lost sent rest _ _ hall hreason hwritten =>
      refine ⟨sent, hwritten, List.prefix_append _ _, fun hthere _ behind _ => ?_⟩
      obtain ⟨m, more, rfl, hlong⟩ := hreason hthere
      rw [List.map_append, List.append_assoc,
        List.takeWhile_append_of_pos (List.forall_mem_map.mpr hall), List.map_cons, List.cons_append,
        List.takeWhile_cons_of_neg (by simp [hlong]), List.append_nil]

theorem Conveyed.of_isOpen {abandoned : Bool} {written : List UInt8} {o : Outbox}
    {said : List Message} (h : Conveyed abandoned written o said) (hopen : o.isOpen = true) :
    ∃ sent, (∀ m ∈ sent, (Frame.message m).isAnnounceable = true) ∧
      written = Frame.encodeAll (sent.map .message) ∧ said = sent ++ o.items := by
  cases h with
  | kept _ hall hwritten => exact ⟨_, hall, hwritten, rfl⟩
  | lost hclosed => simp [hopen] at hclosed

theorem Conveyed.isOpen_of_items {abandoned : Bool} {written : List UInt8} {o : Outbox}
    {said : List Message} {m : Message} {rest : List Message}
    (h : Conveyed abandoned written o said) (hitems : o.items = m :: rest) : o.isOpen = true := by
  cases h with
  | kept hopen => exact hopen
  | lost _ hnone => simp [hitems] at hnone

/-- A client that is found to be gone loses no more than what has not been written. -/
theorem Conveyed.mono {abandoned abandoned' : Bool} {written : List UInt8} {o : Outbox}
    {said : List Message} (h : Conveyed abandoned written o said)
    (hgone : abandoned = true → abandoned' = true) : Conveyed abandoned' written o said := by
  cases h with
  | kept hopen hall hwritten => exact .kept hopen hall hwritten
  | lost hclosed hnone hall hreason hwritten =>
      refine .lost hclosed hnone hall (fun hthere => hreason ?_) hwritten
      cases abandoned with
      | false => rfl
      | true => exact absurd (hgone rfl) (by simp [hthere])

theorem Conveyed.send {abandoned : Bool} {written : List UInt8} {o o' : Outbox}
    {said messages : List Message} (h : Conveyed abandoned written o said)
    (hopen : o'.isOpen = o.isOpen) (hitems : o'.items = o.items ++ messages)
    (hnobody : o.isOpen = false → messages = []) :
    Conveyed abandoned written o' (said ++ messages) := by
  cases h with
  | kept hopen' hall hwritten =>
      rw [List.append_assoc, ← hitems]
      exact .kept (hopen.trans hopen') hall hwritten
  | lost hclosed hnone hall hreason hwritten =>
      obtain rfl := hnobody hclosed
      rw [List.append_nil]
      exact .lost (hopen.trans hclosed) (by rw [hitems, hnone, List.append_nil]) hall hreason hwritten

theorem Conveyed.drop {o : Outbox} {said rest : List Message} {m : Message}
    (h : Conveyed c.abandoned (c.written taken) o said) (hitems : o.items = m :: rest)
    (hrefused : c.isRefused (.message m) = true) :
    Conveyed c.abandoned (c.written taken) { o with items := [], isOpen := false } said := by
  obtain ⟨sent, hall, hwritten, hsaid⟩ := h.of_isOpen (h.isOpen_of_items hitems)
  rw [hsaid, hitems]
  refine .lost rfl rfl hall (fun hthere => ⟨m, rest, rfl, ?_⟩) hwritten
  simpa [isRefused, hthere] using hrefused

theorem Conveyed.write {o : Outbox} {said rest : List Message} {m : Message}
    (h : Conveyed c.abandoned (c.written taken) o said) (hitems : o.items = m :: rest)
    (hthere : c.isRefused (.message m) = false) :
    Conveyed c.abandoned ((c.write (.message m)).written taken) { o with items := rest } said := by
  have hopen := h.isOpen_of_items hitems
  obtain ⟨sent, hall, hwritten, hsaid⟩ := h.of_isOpen hopen
  obtain ⟨-, hshort⟩ := isRefused_eq_false.mp hthere
  rw [hsaid, hitems, List.append_cons]
  refine .kept hopen (List.forall_mem_append.mpr ⟨hall, by simpa using hshort⟩) ?_
  rw [written_write_of_isRefused hthere, hwritten]
  simp

theorem Conveyed.written_of_empty {abandoned : Bool} {written : List UInt8} {o : Outbox}
    {said : List Message} (h : Conveyed abandoned written o said) (hitems : o.items = [])
    (hopen : o.isOpen = true) :
    (∀ m ∈ said, (Frame.message m).isAnnounceable = true) ∧
      written = Frame.encodeAll (said.map .message) := by
  obtain ⟨sent, hall, hwritten, rfl⟩ := h.of_isOpen hopen
  rw [hitems, List.append_nil]
  exact ⟨hall, hwritten⟩

/-- What happens to a connection from outside, except that bytes arrive. -/
theorem Follows.congr (h : Follows s limits arrived taken acts c) {taken' : List UInt8}
    (hphase : c'.phase = c.phase) (hlimits : c'.limits = c.limits) (hinput : c'.input = c.input)
    (hended : c.inputEnded = true → c'.inputEnded = true)
    (hgone : c.abandoned = true → c'.abandoned = true)
    (hwritten : c'.written taken' = c.written taken) : Follows s limits arrived taken' acts c' := by
  have hisEnded : c'.isEnded = c.isEnded := by rw [isEnded, isEnded, hphase]
  have hthere : c'.abandoned = false → c.abandoned = false := by
    intro hthere
    cases hb : c.abandoned with
    | true => simp [hgone hb] at hthere
    | false => rfl
  cases h with
  | opening hp hl hi hn hd =>
      exact .opening (hphase.trans hp) (hlimits.trans hl) (hinput.trans hi) (hwritten.trans hn) hd
  | serving hp hopens hout hstatus =>
      exact .serving (hphase.trans hp) hopens (hwritten.symm ▸ hout.mono hgone) hstatus
  | refused he hd hnow hn =>
      refine .refused (hisEnded.trans he) hd ?_ (hwritten.trans hn)
      cases hb : c'.inputEnded with
      | true => exact Frame.read_ne_waiting
      | false =>
          cases hb' : c.inputEnded with
          | true => simp [hended hb'] at hb
          | false => exact hb' ▸ hnow
  | finished he hopens hstatus hn hbegins hwhole =>
      exact .finished (hisEnded.trans he) hopens hstatus (hwritten.trans hn) hbegins
        fun h => hwhole (hthere h)

theorem Follows.arrive (h : Follows s limits arrived taken acts c) (hmore : c.inputEnded = false)
    (bytes : List UInt8) : Follows s limits (arrived ++ bytes) taken acts (c.arrive bytes) := by
  cases h with
  | opening hp hl hi hn hd => exact .opening hp hl (by rw [← hi]; rfl) hn hd
  | serving hp hopens hout hstatus => exact .serving hp (hopens.append bytes) hout hstatus
  | refused he hd hnow hn =>
      rw [hmore] at hnow
      refine .refused he hd ?_ ?_
      · show Frame.read _ c.inputEnded _ ≠ _
        rw [hmore]
        exact (Frame.head?_readAll_append hnow bytes).1
      · rw [answer_append hnow bytes]
        exact hn
  | finished he hopens hstatus hn hbegins hwhole =>
      rw [hopens.answer_eq s acts, ← (hopens.append bytes).answer_eq s acts] at hbegins hwhole
      exact .finished he (hopens.append bytes) hstatus hn hbegins hwhole

end Connection

end RemoteDiscipline
