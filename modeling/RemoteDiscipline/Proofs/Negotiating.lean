import RemoteDiscipline.Proofs.Verdicts
/-!
What a host does on the call of a negotiation method, when the client asks for one thing.

On a stream that begins with a call of the method, one request and the half-close, or with a part of
these, the host either does nothing or carries the request out, once (`Host.Outcome`). What has been
written is some of the answer, perhaps with a status behind it, and a good status stands only behind a
whole answer (`Host.Tells`). The invariant follows the task (`Host.Handling`) and what the reader may
still come upon (`Host.Supply`).
-/

namespace RemoteDiscipline

theorem Frame.eq_cons_of_read {limit : Nat} {ended : Bool} {input more rest : List UInt8} {g : Frame}
    {fs : List Frame} (hfits : ∀ f ∈ fs, f.Fits) (h : read limit ended input = .frame g rest)
    (heq : input ++ more = encodeAll fs) : ∃ fs', fs = g :: fs' ∧ rest ++ more = encodeAll fs' := by
  cases fs with
  | nil =>
      obtain rfl : input = [] := (List.append_eq_nil_iff.mp heq).1
      cases ended <;> cases h
  | cons f fs =>
      obtain ⟨rfl, hrest⟩ := eq_of_read (hfits f (by simp)) h heq
      exact ⟨fs, rfl, hrest⟩

/-- Whether there is nothing in an inbox but one message, and errors that are reported as such. -/
def Inbox.Holds (x : Message) (i : Inbox) : Prop :=
  ∀ r ∈ i.items, r = .ok x ∨ ∃ e, r = .error e ∧ e.code ≠ .ok

theorem Inbox.Holds.take {i i' : Inbox} {x : Message} {r : Except Error (Option Message)}
    (h : i.Holds x) (ht : i.take = some (r, i')) :
    i'.Holds x ∧ (r = .ok (some x) ∨ r = .ok none ∨ ∃ e, r = .error e ∧ e.code ≠ .ok) := by
  unfold Inbox.take at ht
  split at ht
  · rename_i y rest hitems
    cases ht
    have hrest : ∀ r ∈ rest, r = .ok x ∨ ∃ e, r = .error e ∧ e.code ≠ .ok :=
      fun r hr => h r (by simp [hitems, hr])
    obtain hy | ⟨e, he, -⟩ := h (.ok y) (by simp [hitems])
    · cases hy
      exact ⟨hrest, .inl rfl⟩
    · cases he
  · rename_i e rest hitems
    cases ht
    have hrest : ∀ r ∈ rest, r = .ok x ∨ ∃ e, r = .error e ∧ e.code ≠ .ok :=
      fun r hr => h r (by simp [hitems, hr])
    obtain he | ⟨e', he, hcode⟩ := h (.error e) (by simp [hitems])
    · cases he
    · cases he
      exact ⟨hrest, .inr (.inr ⟨e, rfl, hcode⟩)⟩
  · split at ht <;> cases ht
    exact ⟨h, .inr (.inl rfl)⟩

theorem Connection.Conveyed.put {abandoned : Bool} {written : List UInt8} {c c' : Call}
    {said : List Message} {y : Message} {r : Except Error Unit}
    (h : Conveyed abandoned written c.outbox said) (hs : c.send y = some (r, c')) :
    (r = .ok () ∧ Conveyed abandoned written c'.outbox (said ++ [y])) ∨
      ∃ e, r = .error e ∧ Conveyed abandoned written c'.outbox said := by
  obtain ⟨⟨b, outbox⟩, hput, he⟩ := Option.map_eq_some_iff.mp hs
  cases he
  unfold Outbox.put at hput
  split at hput
  · cases hput
    exact .inr ⟨_, rfl, h⟩
  · rename_i hopen
    split at hput <;> cases hput
    exact .inl ⟨rfl, h.send rfl rfl fun hclosed => by simp [hclosed] at hopen⟩

namespace Host

variable {σ : Type} {h w w' : Host σ} {m : Negotiation} {x : Message}

/-! ### What there is to say -/

/-- What has become of a host on the call of a negotiation method, and the whole answer if there is
one. -/
inductive Outcome (h : Host σ) (m : Negotiation) (x : Message) :
    Host σ → Option (List Message) → Prop
  | unheeded : Outcome h m x h none
  | declined {e : Error} {h' : Host σ} :
      h.negotiate m x = (.error e, h') → Outcome h m x h' none
  | answered {messages : List Message} {h' : Host σ} :
      h.negotiate m x = (.ok messages, h') → Outcome h m x h' (some messages)

theorem Outcome.cases_host {answer : Option (List Message)} (ho : Outcome h m x w answer) :
    w = h ∨ w = (h.negotiate m x).2 := by
  cases ho with
  | unheeded => exact .inl rfl
  | declined hn | answered hn => exact .inr (by rw [hn])

theorem Outcome.negotiate_eq {messages : List Message} (ho : Outcome h m x w (some messages)) :
    h.negotiate m x = (.ok messages, w) := by
  cases ho with
  | answered hn => exact hn

/-- What a status behind some messages tells about an answer: a good one comes only behind all of
it. -/
structure Closes (answer : Option (List Message)) (said : List Message) (status : Status) : Prop where
  begins : said <+: answer.getD []
  complete : status.isOk → answer = some said

theorem closes_of_code {answer : Option (List Message)} {said : List Message}
    (hsaid : said <+: answer.getD []) {status : Status} (hs : status.code ≠ .ok) :
    Closes answer said status :=
  ⟨hsaid, fun hok => absurd hok (not_isOk hs)⟩

/-- What has been written of an answer: some of its messages, and perhaps a status behind them. -/
def Tells (answer : Option (List Message)) (written : List UInt8) : Prop :=
  ∃ said, said <+: answer.getD [] ∧
    (written = Frame.encodeAll (said.map .message) ∨
      ∃ status, Closes answer said status ∧
        written = Frame.encodeAll (said.map .message) ++ (Frame.close status).encode)

theorem tells_nil (answer : Option (List Message)) : Tells answer [] :=
  ⟨[], List.nil_prefix, .inl rfl⟩

/-- A client that reads some messages and then a good status has read the whole answer. -/
theorem Tells.eq_some {answer : Option (List Message)} {limit : Nat} {taken more rest : List UInt8}
    {ms : List Message} {status : Status} (ht : Tells answer (taken ++ more))
    (hfits : ∀ y ∈ answer.getD [], y.Fits)
    (hread : Frame.Starts limit taken (ms.map .message ++ [.close status]) rest)
    (hok : status.isOk) : answer = some ms := by
  obtain ⟨said, hbegins, hwritten | ⟨st, hcloses, hwritten⟩⟩ := ht
  · have htold : ∀ y ∈ said, y.Fits := fun y hy => hfits y (hbegins.subset hy)
    have heq : taken ++ more = Frame.encodeAll (said.map .message) ++ [] := by
      rw [List.append_nil, hwritten]
    exact absurd rfl (hread.eq_of_close htold (.inl rfl) heq).2.1
  · have htold : ∀ y ∈ said, y.Fits := fun y hy => hfits y (hbegins.subset hy)
    obtain ⟨rfl, -, hcode⟩ := hread.eq_of_close htold (.inr ⟨st, rfl⟩) hwritten
    apply hcloses.complete
    rw [Status.isOk, hcode st rfl]
    exact hok

/-! ### The task -/

/-- How far a task is with a request `x` that has found the host `h`: what the host is now, and the
messages that the task has sent. -/
inductive Handling (h : Host σ) (m : Negotiation) (x : Message) :
    Host σ → Progress Task → List Message → Prop
  | arrived : Handling h m x h (.running (.arrived (.negotiate m))) []
  | awaiting : Handling h m x h (.running (.awaiting m)) []
  | closing : Handling h m x h (.running (.closing m x)) []
  | applying : Handling h m x h (.running (.applying m x)) []
  | responding {messages said rest : List Message} {h' : Host σ} :
      h.negotiate m x = (.ok messages, h') → said ++ rest = messages →
      Handling h m x h' (.running (.responding rest)) said
  | leaving {answer : Option (List Message)} {said : List Message} {status : Status} {h' : Host σ} :
      Outcome h m x h' answer → Closes answer said status →
      Handling h m x h' (.running (.leaving none status)) said
  | ended {answer : Option (List Message)} {said : List Message} {status : Status} {h' : Host σ} :
      Outcome h m x h' answer → Closes answer said status → Handling h m x h' (.ended status) said

theorem Handling.exists_outcome {progress : Progress Task} {said : List Message}
    (hh : Handling h m x w progress said) :
    ∃ answer, Outcome h m x w answer ∧ said <+: answer.getD [] := by
  cases hh with
  | arrived | awaiting | closing | applying => exact ⟨none, .unheeded, List.nil_prefix⟩
  | @responding messages said rest _ hn hsaid => exact ⟨_, .answered hn, rest, hsaid⟩
  | leaving ho hcloses | ended ho hcloses => exact ⟨_, ho, hcloses.begins⟩

theorem Handling.unheeded {e : Error} (he : e.code ≠ .ok) :
    Handling h m x h (.running (.failing none e)) [] :=
  .leaving .unheeded (closes_of_code List.nil_prefix he)

theorem Handling.ticket {t : Task} {said : List Message} (hh : Handling h m x w (.running t) said) :
    t.ticket = none := by
  cases hh <;> rfl

theorem Handling.move {c c' : Call} {t : Task} {progress : Progress Task} {said : List Message}
    {abandoned : Bool} {written : List UInt8} (hh : Handling h m x w (.running t) said)
    (hin : c.inbox.Holds x) (hout : Connection.Conveyed abandoned written c.outbox said)
    (hm : Move w c t w' c' progress) :
    c'.inbox.Holds x ∧ ∃ said', Handling h m x w' progress said' ∧
      Connection.Conveyed abandoned written c'.outbox said' := by
  cases hh with
  | arrived =>
      cases hm with
      | letIn =>
          refine ⟨hin, [], ?_, hout⟩
          unfold letIn
          split
          · exact .unheeded nofun
          · exact .awaiting
  | awaiting =>
      cases hm with
      | request hr =>
          obtain ⟨inbox, ht, rfl⟩ := Call.receive_eq_some hr
          obtain ⟨hin', rfl | rfl | ⟨e, rfl, he⟩⟩ := hin.take ht
          · exact ⟨hin', [], .closing, hout⟩
          · exact ⟨hin', [], .unheeded nofun, hout⟩
          · exact ⟨hin', [], .unheeded he, hout⟩
  | closing =>
      cases hm with
      | close hr =>
          obtain ⟨inbox, ht, rfl⟩ := Call.receive_eq_some hr
          obtain ⟨hin', rfl | rfl | ⟨e, rfl, he⟩⟩ := hin.take ht
          · exact ⟨hin', [], .unheeded nofun, hout⟩
          · exact ⟨hin', [], .applying, hout⟩
          · exact ⟨hin', [], .unheeded he, hout⟩
  | applying =>
      cases hm with
      | apply hn => exact ⟨hin, [], .responding hn rfl, hout⟩
      | decline hn =>
          refine ⟨hin, [], .leaving (.declined hn) (closes_of_code List.nil_prefix ?_), hout⟩
          exact code_ne_ok_of_negotiate hn
  | @responding messages said rest _ hn hsaid =>
      cases hm with
      | responded =>
          rw [List.append_nil] at hsaid
          refine ⟨hin, said, .leaving (.answered hn) ⟨?_, fun _ => by rw [hsaid]⟩, hout⟩
          exact hsaid ▸ List.prefix_refl _
      | @respond y rest r _ hs =>
          refine ⟨(Call.inbox_of_send hs).symm ▸ hin, ?_⟩
          obtain ⟨rfl, hout'⟩ | ⟨e, rfl, hout'⟩ := hout.put hs
          · refine ⟨_, .responding hn ?_, hout'⟩
            rw [List.append_assoc]
            exact hsaid
          · refine ⟨said, .leaving (.answered hn) (closes_of_code ⟨_, hsaid⟩ ?_), hout'⟩
            exact Call.code_ne_ok_of_send hs
  | leaving ho hcloses =>
      cases hm with
      | leave =>
          rw [release_none]
          exact ⟨hin, said, .ended ho hcloses, hout⟩

/-! ### The connection -/

section Connection

variable {arrived taken more rest : List UInt8} {c c' : Connection Task} {timeout : Nat}

/-- What the reader of a call may still come upon, when all that is to be read is one message and the
half-close. -/
inductive Supply (x : Message) (more : List UInt8) : Reader → List UInt8 → Prop
  | reading {fs : List Frame} {input : List UInt8} : fs <:+ [.message x, .halfClose] →
      input ++ more = Frame.encodeAll fs → Supply x more .reading input
  | holding {fs : List Frame} {input : List UInt8} : fs <:+ [.message x, .halfClose] →
      input ++ more = Frame.encodeAll fs → Supply x more (.holding x) input
  | failing {e : Error} {input : List UInt8} : e.code ≠ .ok → Supply x more (.failing e) input
  /-- Nothing goes to the inbox any more. -/
  | exhausted {reader : Reader} {input : List UInt8} : reader = .draining ∨ reader = .stopped →
      Supply x more reader input

theorem Supply.arrive {reader : Reader} {input bytes : List UInt8}
    (hs : Supply x (bytes ++ more) reader input) : Supply x more reader (input ++ bytes) := by
  cases hs with
  | reading hfs hinput => exact .reading hfs (by rw [List.append_assoc, hinput])
  | holding hfs hinput => exact .holding hfs (by rw [List.append_assoc, hinput])
  | failing he => exact .failing he
  | exhausted hreader => exact .exhausted hreader

theorem Supply.readStep {reader reader' : Reader} {call call' : Served Task} (hx : x.Fits)
    (hs : Supply x more reader c.input) (hin : call.inbox.Holds x)
    (h : c.readStep reader call = some (reader', call', rest)) :
    Supply x more reader' rest ∧ call'.inbox.Holds x := by
  have hadd {r : Except Error Message} (hr : r = .ok x ∨ ∃ e, r = .error e ∧ e.code ≠ .ok) :
      (call.inbox.add [r]).Holds x := by
    intro r' hr'
    obtain hold | hnew := List.mem_append.mp hr'
    · exact hin r' hold
    · exact List.mem_singleton.mp hnew ▸ hr
  generalize hinput : c.input = input at hs
  cases hs with
  | @reading fs _ hfs heq =>
      have hfits : ∀ f ∈ fs, f.Fits := by
        intro f hf
        obtain rfl | rfl : f = .message x ∨ f = .halfClose := by simpa using hfs.subset hf
        · exact hx
        · trivial
      rw [← hinput] at heq
      obtain ⟨⟨heard, rest'⟩, hh, he⟩ := Option.map_eq_some_iff.mp h
      obtain ⟨y, rfl, hread⟩ | ⟨rfl, hread⟩ | ⟨e, rfl, hcode⟩ := hear_cases hh
      · cases he
        obtain ⟨fs', rfl, hrest⟩ := Frame.eq_cons_of_read hfits hread heq
        obtain hy : y = x := by simpa using hfs.subset (List.mem_cons_self ..)
        rw [hy]
        exact ⟨.holding ((List.suffix_cons _ _).trans hfs) hrest, hin⟩
      · cases he
        exact ⟨.exhausted (.inl rfl), hin⟩
      · cases he
        exact ⟨.failing hcode, hin⟩
  | holding hfs heq =>
      rw [← hinput] at heq
      simp only [Connection.readStep] at h
      split at h
      · cases h
        exact ⟨.exhausted (.inl rfl), hin⟩
      · split at h <;> cases h
        exact ⟨.reading hfs heq, hadd (.inl rfl)⟩
  | @failing e _ hcode =>
      simp only [Connection.readStep] at h
      split at h
      · cases h
        exact ⟨.exhausted (.inr rfl), hin⟩
      · split at h <;> cases h
        exact ⟨.exhausted (.inr rfl), hadd (.inr ⟨e, rfl, hcode⟩)⟩
  | exhausted hreader =>
      obtain rfl | rfl := hreader
      · obtain ⟨⟨heard, rest'⟩, -, he⟩ := Option.map_eq_some_iff.mp h
        cases heard with
        | message y | halfClose =>
            cases he
            exact ⟨.exhausted (.inl rfl), hin⟩
        | failure e =>
            cases he
            exact ⟨.exhausted (.inr rfl), hin⟩
      · cases h

/-- A connection on which a negotiation method has been called, when the host was `h`. -/
inductive Attending (h : Host σ) (m : Negotiation) (x : Message) (more taken : List UInt8)
    (w : Host σ) (c : Connection Task) : Prop
  | opening {timeout : Nat} : c.phase = .opening → w = h → Wire.FitsSize timeout →
      c.input ++ more =
        Frame.encodeAll [.opening protocolVersion (.negotiate m) timeout, .message x, .halfClose] →
      c.written taken = [] → Attending h m x more taken w c
  | serving {reader : Reader} {call : Served Task} {deadline : Option Deadline}
      {said : List Message} :
      c.phase = .serving reader call deadline → Supply x more reader c.input →
      call.inbox.Holds x → Handling h m x w call.progress said →
      Connection.Conveyed c.abandoned (c.written taken) call.outbox said →
      Attending h m x more taken w c
  | finished {answer : Option (List Message)} : c.isEnded → Outcome h m x w answer →
      Tells answer (c.written taken) → Attending h m x more taken w c

theorem attending_openCall {now : Nat} (hw : w = h) (htimeout : Wire.FitsSize timeout)
    (hinput : c.input ++ more =
      Frame.encodeAll [.opening protocolVersion (.negotiate m) timeout, .message x, .halfClose])
    (hwritten : c.written taken = [])
    (ho : c.openCall (service : Service (Host σ) Task) now = some c') :
    Attending h m x more taken w c' := by
  subst hw
  have hfits : (Frame.opening protocolVersion (.negotiate m) timeout).Fits := ⟨by decide, htimeout⟩
  cases Connection.opened_of_openCall ho with
  | ended hread | unreadable hread =>
      exact .finished rfl .unheeded (hwritten.symm ▸ tells_nil none)
  | served deadline hread =>
      obtain ⟨hsame, hrest⟩ := Frame.eq_of_read hfits hread hinput
      cases hsame
      have hnone : Connection.Conveyed c.abandoned (c.written taken)
          (Call.fresh (.negotiate m) c.limits.channelCapacity true).outbox ([] ++ []) :=
        .kept rfl nofun hwritten
      exact .serving rfl (.reading (List.suffix_refl _) hrest) nofun .arrived hnone
  | unspoken hread hversion =>
      cases (Frame.eq_of_read hfits hread hinput).1
      exact absurd rfl hversion
  | unexpected hread hother =>
      exact absurd (Frame.eq_of_read hfits hread hinput).1 (hother _ _ _)

theorem attending_writeStep {waiting : Option Nat} {reader : Reader} {call : Served Task}
    {deadline : Option Deadline} {said : List Message} (hs : Supply x more reader c.input)
    (hin : call.inbox.Holds x) (hh : Handling h m x w call.progress said)
    (hout : Connection.Conveyed c.abandoned (c.written taken) call.outbox said)
    (hw : c.writeStep waiting reader call deadline = some c') :
    Attending h m x more taken w c' := by
  have closes {status : Status} (hp : call.progress = .ended status) :
      ∃ answer, Outcome h m x w answer ∧ Closes answer said status := by
    rw [hp] at hh
    cases hh with
    | ended ho hcloses => exact ⟨_, ho, hcloses⟩
  cases Connection.wrote_of_writeStep hw with
  | dropped hitems hrefused => exact .serving rfl hs hin hh (hout.drop hitems hrefused)
  | message hitems hthere => exact .serving rfl hs hin hh (hout.write hitems hthere)
  | left hitems hp hgone =>
      obtain ⟨answer, ho, hcloses⟩ := closes hp
      obtain ⟨sent, hwritten, hsent, -⟩ := hout.exists_written
      exact .finished rfl ho ⟨sent, hsent.trans hcloses.begins, .inl hwritten⟩
  | @closed status hitems hp hthere hopen =>
      obtain ⟨answer, ho, hcloses⟩ := closes hp
      obtain ⟨-, hwritten⟩ := hout.written_of_empty hitems hopen
      refine .finished rfl ho ⟨said, hcloses.begins, .inr ⟨status, hcloses, ?_⟩⟩
      show (c.write _).written taken = _
      rw [Connection.written_write_of_isRefused hthere, hwritten]

theorem attending_step {now : Nat} {waiting : Option Nat} (hx : x.Fits)
    (hc : Attending h m x more taken w c)
    (hstep : c.step service now waiting w = some (w', c')) : Attending h m x more taken w' c' := by
  cases hc with
  | opening hphase hw htimeout hinput hwritten =>
      simp only [Connection.step, hphase] at hstep
      obtain ⟨c₁, ho, he⟩ := Option.map_eq_some_iff.mp hstep
      cases he
      exact attending_openCall hw htimeout hinput hwritten ho
  | serving hphase hs hin hh hout =>
      simp only [Connection.step, hphase] at hstep
      split at hstep
      · rename_i hr
        cases hstep
        obtain ⟨hprogress, houtbox, -⟩ := Connection.readStep_eq_some hr
        obtain ⟨hs', hin'⟩ := hs.readStep hx hin hr
        exact .serving rfl hs' hin' (hprogress ▸ hh) (houtbox ▸ hout)
      · split at hstep
        · rename_i ha
          cases hstep
          obtain ⟨t, ht, hm⟩ := move_of_advance ha
          rw [ht] at hh
          obtain ⟨hin', said', hh', hout'⟩ := hh.move hin hout hm
          exact .serving rfl hs hin' hh' hout'
        · obtain ⟨c₁, hw, he⟩ := Option.map_eq_some_iff.mp hstep
          cases he
          exact attending_writeStep hs hin hh hout hw
  | finished hended ho htells =>
      unfold Connection.step at hstep
      unfold Connection.isEnded at hended
      split at hstep <;> simp_all

/-! ### Events from outside -/

theorem Attending.arrive {bytes : List UInt8} (hc : Attending h m x (bytes ++ more) taken w c) :
    Attending h m x more taken w (c.arrive bytes) := by
  cases hc with
  | opening hphase hw htimeout hinput hwritten =>
      refine .opening hphase hw htimeout ?_ hwritten
      rw [← hinput, ← List.append_assoc]
      rfl
  | serving hphase hs hin hh hout => exact .serving hphase hs.arrive hin hh hout
  | finished hended ho htells => exact .finished hended ho htells

theorem Attending.congr (hc : Attending h m x more taken w c) {taken' : List UInt8}
    (hphase : c'.phase = c.phase) (hinput : c'.input = c.input)
    (hgone : c.abandoned = true → c'.abandoned = true)
    (hwritten : c'.written taken' = c.written taken) : Attending h m x more taken' w c' := by
  cases hc with
  | opening hp hw htimeout hi hn =>
      exact .opening (hphase.trans hp) hw htimeout (hinput.symm ▸ hi) (hwritten.trans hn)
  | serving hp hs hin hh hout =>
      exact .serving (hphase.trans hp) (hinput.symm ▸ hs) hin hh (hwritten.symm ▸ hout.mono hgone)
  | finished hended ho htells =>
      refine .finished ?_ ho (hwritten.symm ▸ htells)
      rw [Connection.isEnded, hphase]
      exact hended

theorem Attending.expire (hc : Attending h m x more taken w c) :
    Attending h m x more taken (c.expire service w).1 (c.expire service w).2 := by
  unfold Connection.expire
  split
  · rename_i hphase
    cases hc with
    | opening hp => simp [hp] at hphase
    | serving hp hs hin hh hout =>
        rw [hp] at hphase
        cases hphase
        obtain ⟨answer, ho, hsaid⟩ := hh.exists_outcome
        refine .serving rfl hs hin ?_ hout
        show Handling h m x (w.release _) _ _
        rw [hh.ticket, release_none]
        exact .ended ho (closes_of_code hsaid nofun)
    | finished hended =>
        rw [Connection.isEnded, hphase] at hended
        cases hended
  · exact hc

/-- However a connection is scheduled, when nothing arrives on it but a call of a negotiation method
with one request, or a beginning of that: the host is as it was, or it has carried the request out
once; and what has been written tells about the answer to this. -/
theorem exists_outcome_of_run {limits : Limits}
    (hrun : Connection.Run service limits h arrived taken w c)
    (hbegins : arrived ++ more =
      Frame.encodeAll [.opening protocolVersion (.negotiate m) timeout, .message x, .halfClose])
    (htimeout : Wire.FitsSize timeout) (hx : x.Fits) :
    ∃ answer, Outcome h m x w answer ∧ Tells answer (c.written taken) := by
  have hattending : Attending h m x more taken w c := by
    induction hrun generalizing more with
    | fresh => exact .opening rfl rfl htimeout hbegins rfl
    | step _ hstep ih => exact attending_step hx (ih hbegins) hstep
    | expire _ ih => exact (ih hbegins).expire
    | arrive bytes _ ih =>
        rw [List.append_assoc] at hbegins
        exact (ih hbegins).arrive
    | endInput _ ih => exact (ih hbegins).congr rfl rfl id rfl
    | hangUp _ ih => exact (ih hbegins).congr rfl rfl (fun _ => rfl) rfl
    | takeOutput _ ih => exact (ih hbegins).congr rfl rfl id Connection.written_takeOutput
  cases hattending with
  | opening _ hw _ _ hwritten =>
      rw [hw, hwritten]
      exact ⟨none, .unheeded, tells_nil none⟩
  | serving _ _ _ hh hout =>
      obtain ⟨answer, ho, hsaid⟩ := hh.exists_outcome
      obtain ⟨sent, hwritten, hsent, -⟩ := hout.exists_written
      exact ⟨answer, ho, sent, hsent.trans hsaid, .inl hwritten⟩
  | finished _ ho htells => exact ⟨_, ho, htells⟩

end Connection

end Host

end RemoteDiscipline
