import RemoteDiscipline.Client.Compute
import RemoteDiscipline.Proofs.Assembly
import RemoteDiscipline.Proofs.Calling
import RemoteDiscipline.Proofs.Sizes
import RemoteDiscipline.Service.Elementary
/-!
What a client makes of a server that may say anything.

A peer that follows a script hears the request and then says whatever its script holds, which need
not be frames at all.
-/

namespace RemoteDiscipline

/-! ### The peer -/

namespace PeerEnd

variable {answer more rest bytes : List UInt8} {hold : Bool} {p : PeerEnd} {report : Report}

/-- A peer that hears a request, of which `more` has not arrived. -/
inductive Attends (answer : List UInt8) (hold : Bool) (more : List UInt8) : PeerEnd → Prop
  | mk {input : List UInt8} {report : Report} (fs : List Frame) :
      (∀ f ∈ fs, f.Travels limit ∧ f ≠ .halfClose) →
      input ++ more = Frame.encodeAll (fs ++ [.halfClose]) →
      Attends answer hold more ⟨input, false, [], report, .attending answer hold⟩

/-- A peer that has heard all of its request. What it is still going to write is in `rest`. -/
inductive Tells (hold : Bool) : List UInt8 → PeerEnd → Prop
  | writing {rest : List UInt8} {report : Report} :
      Tells hold rest ⟨[], false, [], report, .replying rest hold⟩
  | done {report : Report} :
      Tells hold [] ⟨[], false, [], report, if hold then .listening else .gone⟩

theorem listen_of_frame {f : Frame} (hreads : p.isReading = true)
    (h : Frame.read limit p.inputEnded p.input = .frame f rest) :
    p.listen = listen { hear f p with input := rest } := by
  rw [listen, if_pos hreads]
  split <;> rename_i heq <;> rw [h] at heq <;> cases heq
  rfl

theorem listen_of_waiting (h : Frame.read limit p.inputEnded p.input = .waiting) : p.listen = p := by
  rw [listen]
  split
  · split <;> rename_i heq <;> rw [h] at heq <;> cases heq
  · rfl

theorem listen_of_not_isReading (h : p.isReading = false) : p.listen = p := by
  rw [listen, if_neg (by simp [h])]

theorem Attends.listen (h : p.Attends answer hold more) :
    more ≠ [] ∧ p.listen.Attends answer hold more ∨
      more = [] ∧ ∃ report, p.listen = ⟨[], false, [], report, .replying answer hold⟩ := by
  obtain ⟨fs, hfs, hrequest⟩ := h
  rename_i input report
  induction fs generalizing input report with
  | nil =>
      have hlast : Frame.Travels limit .halfClose := ⟨⟨by decide, by decide⟩, trivial⟩
      obtain ⟨hwait, hmore⟩ | ⟨tail, hread, htail⟩ := Frame.read_arriving hlast hrequest
      · rw [listen_of_waiting hwait]
        exact .inl ⟨hmore, .mk [] hfs hrequest⟩
      · obtain ⟨rfl, rfl⟩ := List.append_eq_nil_iff.mp htail
        refine .inr ⟨rfl, report.add .halfClose, ?_⟩
        rw [listen_of_frame rfl hread]
        exact listen_of_not_isReading rfl
  | cons f fs ih =>
      obtain ⟨hf, hne⟩ := hfs f (by simp)
      have hrest : ∀ g ∈ fs, g.Travels limit ∧ g ≠ .halfClose := fun g hg => hfs g (by simp [hg])
      obtain ⟨hwait, hmore⟩ | ⟨tail, hread, htail⟩ := Frame.read_arriving hf hrequest
      · rw [listen_of_waiting hwait]
        exact .inl ⟨hmore, .mk (f :: fs) hfs hrequest⟩
      · have hheard : { hear f ⟨input, false, [], report, .attending answer hold⟩ with input := tail } =
            ⟨tail, false, [], report.add f, .attending answer hold⟩ := by
          cases f <;> first | rfl | exact absurd rfl hne
        rw [listen_of_frame rfl hread, hheard]
        exact ih hrest htail

theorem tells_reply (room : Nat) (report : Report) (rest : List UInt8) (hold : Bool) :
    ∃ out rest', rest = out ++ rest' ∧
      (reply room ⟨[], false, [], report, .replying rest hold⟩).output = out ∧
      Tells hold rest' { reply room ⟨[], false, [], report, .replying rest hold⟩ with output := [] } := by
  by_cases hfits : rest.length ≤ room
  · have hdone : reply room ⟨[], false, [], report, .replying rest hold⟩ =
        ⟨[], false, rest, report, if hold then .listening else .gone⟩ := by
      simp only [reply, hfits, decide_true, Bool.or_true, if_true, List.nil_append]
      cases hold with
      | true => exact listen_of_waiting rfl
      | false => exact listen_of_not_isReading rfl
    rw [hdone]
    exact ⟨rest, [], (List.append_nil _).symm, rfl, .done⟩
  · have hpart : reply room ⟨[], false, [], report, .replying rest hold⟩ =
        ⟨[], false, rest.take room, report, .replying (rest.drop room) hold⟩ := by
      simp only [reply, hfits, decide_false, Bool.or_false, Bool.false_eq_true, if_false,
        List.nil_append]
    rw [hpart]
    exact ⟨rest.take room, rest.drop room, (List.take_append_drop _ _).symm, rfl, .writing⟩

theorem Attends.reply (h : p.Attends answer hold more) (room : Nat) : p.reply room = p := by
  cases h
  rfl

theorem Attends.arrive (h : p.Attends answer hold (bytes ++ more)) :
    Attends answer hold more { p with input := p.input ++ bytes } := by
  obtain ⟨fs, hfs, hrequest⟩ := h
  exact .mk fs hfs (by rw [List.append_assoc, hrequest])

end PeerEnd

/-! ### The line -/

namespace Line

variable {ω τ : Type} {s : Service ω τ} {answer more bytes : List UInt8} {hold : Bool}
  {deadline limit : Nat} {l : Line ω τ}

/-- A line on which a peer is sent a request, of which `more` has not been put on its way. -/
structure Attended (answer : List UInt8) (hold : Bool) (deadline : Nat) (more : List UInt8)
    (l : Line ω τ) : Prop where
  far : ∃ p, l.far = .scripted p ∧ p.Attends answer hold (l.sent.reverse.flatten ++ more)
  incoming : l.incoming = []
  clock : l.clock < deadline
  capacity : 0 < l.capacity

/-- A line on which a peer has been sent all of its request. What the client is still going to read is
in `bytes`: some of it lies before the client, and the rest the peer has to write. -/
structure Told (hold : Bool) (deadline : Nat) (bytes : List UInt8) (l : Line ω τ) : Prop where
  far : ∃ p rest, l.far = .scripted p ∧ p.Tells hold rest ∧ l.incoming ++ rest = bytes ∧
    l.isStirred = p.isReplying
  sent : l.sent = []
  clock : l.clock < deadline

theorem letRun_scripted {p : PeerEnd} (hfar : l.far = .scripted p) (reading : Bool) :
    ∃ room p', p' = PeerEnd.settle room { p with input := p.input ++ l.sent.reverse.flatten } ∧
      l.letRun s reading = { l with
        far := .scripted { p' with output := [] }
        sent := []
        incoming := l.incoming ++ p'.output
        window := if p'.isReading then l.capacity else l.capacity - p'.input.length
        isStirred := p'.isReplying } := by
  refine ⟨peerBytes - (if reading then none else some l.incoming.length).getD 0, _, rfl, ?_⟩
  rw [letRun, hfar]
  rfl

theorem accepting_attended : Accepting s deadline (Attended answer hold deadline) where
  isGone h := by
    obtain ⟨p, hfar, hp⟩ := h.far
    cases hp
    rw [hfar]
    rfl
  clock h := h.clock
  push {bytes more l} h := by
    obtain ⟨p, hfar, hp⟩ := h.far
    refine ⟨⟨p, hfar, ?_⟩, h.incoming, h.clock, h.capacity⟩
    show p.Attends answer hold ((bytes :: l.sent).reverse.flatten ++ more)
    rw [List.reverse_cons, List.flatten_append, List.append_assoc]
    simpa using hp
  letRun {more l} h hmore := by
    obtain ⟨p, hfar, hp⟩ := h.far
    obtain ⟨room, p', hp', hrun⟩ := l.letRun_scripted (s := s) hfar false
    obtain ⟨-, hattends⟩ | ⟨hnil, -⟩ := hp.arrive.listen
    · rw [PeerEnd.settle, hattends.reply] at hp'
      rw [← hp'] at hattends
      rw [hrun]
      cases hattends with
      | mk fs hfs hrequest =>
          exact ⟨⟨⟨_, rfl, .mk fs hfs hrequest⟩, by simp [h.incoming], h.clock, h.capacity⟩,
            h.capacity⟩
    · exact absurd hnil hmore

theorem Attended.letRun (h : l.Attended answer hold deadline []) :
    (l.letRun s true).Told hold deadline answer := by
  obtain ⟨p, hfar, hp⟩ := h.far
  obtain ⟨room, p', hp', hrun⟩ := l.letRun_scripted (s := s) hfar true
  obtain ⟨hnil, -⟩ | ⟨-, report, hlisten⟩ := hp.arrive.listen
  · exact absurd rfl hnil
  · rw [PeerEnd.settle, hlisten] at hp'
    obtain ⟨out, rest, hanswer, hout, htells⟩ := PeerEnd.tells_reply room report answer hold
    rw [← hp'] at hout htells
    rw [hrun]
    refine ⟨⟨_, rest, rfl, htells, ?_, rfl⟩, rfl, h.clock⟩
    rw [h.incoming, hout, hanswer]
    rfl

theorem Told.letRun (h : l.Told hold deadline bytes) (hstirred : l.isStirred = true) :
    (l.letRun s true).Told hold deadline bytes := by
  obtain ⟨p, rest, hfar, hp, hbytes, hreplying⟩ := h.far
  obtain ⟨room, p', hp', hrun⟩ := l.letRun_scripted (s := s) hfar true
  rw [hstirred] at hreplying
  cases hp with
  | done => cases hold <;> cases hreplying
  | @writing rest report =>
      rw [h.sent, PeerEnd.settle, PeerEnd.listen_of_not_isReading rfl] at hp'
      obtain ⟨out, rest', hrest, hout, htells⟩ := PeerEnd.tells_reply room report rest hold
      change p' = PeerEnd.reply _ ⟨[], false, [], report, .replying rest hold⟩ at hp'
      rw [← hp'] at hout htells
      rw [hrun]
      refine ⟨⟨_, rest', rfl, htells, ?_, rfl⟩, rfl, h.clock⟩
      rw [← hbytes, hrest, hout, List.append_assoc]

theorem Attended.receive {called : Option Nat} (h : l.Attended answer hold deadline [])
    (hstirred : l.isStirred = true) (hcalled : l.isDue called = false) :
    l.receive s limit deadline called = (l.letRun s true).receive s limit deadline called := by
  obtain ⟨p, hfar, hp⟩ := h.far
  have hpick : l.pick limit = none := by
    cases hp
    rw [pick, hfar, h.incoming]
    rfl
  rw [Line.receive]
  split
  · rename_i hr
    rw [hpick] at hr
    cases hr
  · rw [if_neg (by simp [hcalled]), if_neg (Nat.not_le.mpr h.clock), dif_pos hstirred]

def Gets (hold : Bool) (deadline : Nat) : Reading → Arrival × Line ω τ → Prop
  | .frame f rest, r => r.1 = .frame f ∧ r.2.Told hold deadline rest
  | .fault e _, r => r.1 = .fault e
  | .ended, r => r.1 = .ended
  | .waiting, _ => False

/-- While the peer writes, what the client picks is what the bytes of the peer hold first. -/
theorem Told.pick {r : Arrival × Line ω τ} (h : l.Told hold deadline bytes)
    (hpick : l.pick limit = some r) : Gets hold deadline (Frame.read limit true bytes) r := by
  obtain ⟨p, rest, hfar, hp, hbytes, hstirred⟩ := h.far
  have hkeeps (incoming' : List UInt8) :
      Told hold deadline (incoming' ++ rest) { l with incoming := incoming' } :=
    ⟨⟨p, rest, hfar, hp, rfl, hstirred⟩, h.sent, h.clock⟩
  rw [Line.pick] at hpick
  cases hended : l.far.isEnded with
  | false =>
      rw [hended] at hpick
      rw [← hbytes]
      split at hpick
      · rename_i f rest' hread
        cases hpick
        rw [Frame.read_append hread true rest]
        exact ⟨rfl, hkeeps rest'⟩
      · rename_i hread
        exact absurd hread Frame.read_ne_ended
      · rename_i e rest' hread
        cases hpick
        rw [Frame.read_append_fault hread true rest]
        rfl
      · cases hpick
  | true =>
      have hrest : rest = [] := by
        rw [hfar] at hended
        cases hp with
        | writing => cases hended
        | done => rfl
      rw [hrest, List.append_nil] at hbytes
      rw [hended, hbytes] at hpick
      split at hpick
      · rename_i f rest' hread
        cases hpick
        rw [hread]
        refine ⟨rfl, ?_⟩
        have := hkeeps rest'
        rwa [hrest, List.append_nil] at this
      · rename_i hread
        cases hpick
        rw [hread]
        rfl
      · rename_i hread
        cases hpick
        rw [hread]
        rfl
      · cases hpick

/-- A client that reads gets what the bytes of the peer hold first, as long as it has not to wait for
the end of the stream while the peer does not hang up. -/
theorem Told.receive (h : l.Told hold deadline bytes)
    (hwaits : hold = true → Frame.read limit false bytes ≠ .waiting) :
    Gets hold deadline (Frame.read limit true bytes) (l.receive s limit deadline none) := by
  fun_induction Line.receive s limit deadline none l with
  | case1 l r hpick => exact h.pick hpick
  | case2 l _ hdue => cases hdue
  | case3 l _ _ hlate => exact absurd h.clock (Nat.not_lt.mpr hlate)
  | case4 l _ _ _ hstirred ih => exact ih (h.letRun hstirred)
  | case5 l hpick _ _ hstirred =>
      -- The peer has written all, so it is the client that does not see the end of the stream.
      obtain ⟨p, rest, hfar, hp, hbytes, hreplying⟩ := h.far
      have hwaiting : Frame.read limit l.far.isEnded l.incoming = .waiting := by
        rw [Line.pick] at hpick
        split at hpick <;> first | assumption | cases hpick
      cases hp with
      | writing => exact absurd hreplying hstirred
      | done =>
          rw [List.append_nil] at hbytes
          rw [hfar, hbytes] at hwaiting
          cases hold with
          | true => exact absurd hwaiting (hwaits rfl)
          | false => exact absurd hwaiting Frame.read_ne_waiting

/-- Where a client has to wait for the end of the stream, nothing has been said. -/
theorem isSaid_of_read_waiting (h : Frame.read limit false bytes = .waiting) :
    (Frame.responses limit bytes).2.isSaid = false := by
  have htrue := Frame.read_of_waiting h
  split at htrue
  · rw [Frame.responses, Frame.readAll_of_ended htrue]
    rfl
  · rw [Frame.responses, Frame.readAll_of_fault htrue]
    rfl

/-- The client gets to read the messages that the bytes of the peer hold, and how they end. -/
theorem Told.yields (h : l.Told hold deadline bytes)
    (hsaid : hold = true → (Frame.responses limit bytes).2.isSaid = true) :
    l.Yields s limit deadline none (Frame.responses limit bytes).1
      (Frame.responses limit bytes).2 := by
  induction hlength : bytes.length using Nat.strongRecOn generalizing bytes l with
  | ind n ih =>
      have hwaits : hold = true → Frame.read limit false bytes ≠ .waiting := fun hhold hwait => by
        rw [isSaid_of_read_waiting hwait] at hsaid
        cases hsaid hhold
      have hgets := h.receive (s := s) hwaits
      cases hread : Frame.read limit true bytes with
      | frame f rest =>
          rw [hread] at hgets
          obtain ⟨hfirst, hrest⟩ := hgets
          have hlt := Frame.length_lt_of_read_frame hread
          rw [Frame.responses, Frame.readAll_of_read hread] at hsaid ⊢
          cases f with
          | message m =>
              exact .message (Prod.ext hfirst rfl) (ih _ (hlength ▸ hlt) hrest hsaid rfl)
          | opening | halfClose | cancel | close =>
              rw [Frame.untilEnding_of_ending rfl]
              exact .ending (Prod.ext hfirst rfl) rfl
      | fault e rest =>
          rw [hread] at hgets
          rw [Frame.responses, Frame.readAll_of_fault hread]
          exact .ending (Prod.ext hgets rfl) rfl
      | ended =>
          rw [hread] at hgets
          rw [Frame.responses, Frame.readAll_of_ended hread]
          exact .ending (Prod.ext hgets rfl) rfl
      | waiting => exact absurd hread Frame.read_ne_waiting

theorem Attended.yields (h : l.Attended answer hold deadline []) (hstirred : l.isStirred = true)
    (hsaid : hold = true → (Frame.responses limit answer).2.isSaid = true) :
    l.Yields s limit deadline none (Frame.responses limit answer).1
      (Frame.responses limit answer).2 :=
  (h.letRun.yields hsaid).of_receive_eq (h.receive hstirred rfl)

end Line

/-! ### Calls -/

theorem Frame.travels_opening (method : Method) (timeout : Duration) :
    Travels PeerEnd.limit (.opening protocolVersion method timeout.announced) := by
  have hkind := Wire.Format.length_natural_le 4 0
  have hversion := Wire.Format.length_natural_le 2 protocolVersion
  have hmethod := Wire.Format.length_natural_le 4 (Method.all.idxOf method)
  have htimeout := Wire.Format.length_natural_le 8 timeout.announced
  have hlength : (Wire.frame.write (.opening protocolVersion method timeout.announced)).length =
      ((Wire.Format.natural 4).write 0).length +
        (((Wire.Format.natural 2).write protocolVersion).length +
          (((Wire.Format.natural 4).write (Method.all.idxOf method)).length +
            ((Wire.Format.natural 8).write timeout.announced).length)) := by
    simp only [Wire.frame, Wire.method, Wire.Format.cases, Wire.Format.caseNumber, Wire.Format.size,
      List.length_append]
  exact ⟨⟨by omega, by rw [PeerEnd.limit]; omega⟩, by decide, timeout.announced_lt⟩

namespace ClientCall

variable {ω τ : Type} {s : Service ω τ} {n : Network ω} {answer : List UInt8} {hold : Bool}
  {peers : List Peer} {timeout : Duration}

theorem dial_attended (hremote : n.remote = .peers (.answer answer hold :: peers))
    (htimeout : 0 < timeout) (method : Method) (limit : Nat) {fs : List Frame}
    (hfs : ∀ f ∈ fs, f.Travels PeerEnd.limit ∧ f ≠ .halfClose) :
    ∃ l, dial s n method timeout limit =
        .ok ⟨method, timeout, Duration.deadline n.clock timeout, limit, false, l⟩ ∧
      l.Attended answer hold (Duration.deadline n.clock timeout)
        (Frame.encodeAll (fs ++ [.halfClose])) := by
  have hdial : (Line.dial n (Duration.deadline n.clock timeout) : Line.Dialled ω τ) =
      .connected (.ofFarEnd { n with remote := .peers peers }
        (.scripted (.attending answer hold)) peerBytes) := by
    rw [Line.dial, hremote]
  have hstart : Line.Attended answer hold (Duration.deadline n.clock timeout)
      (Frame.encodeAll (.opening protocolVersion method timeout.announced ::
        (fs ++ [.halfClose])))
      (.ofFarEnd { n with remote := .peers peers }
        (.scripted (.attending answer hold)) peerBytes : Line ω τ) := by
    refine ⟨⟨_, rfl, ?_⟩, rfl, Duration.lt_deadline n.clock htimeout, Nat.succ_pos _⟩
    refine .mk (.opening protocolVersion method timeout.announced :: fs) ?_ rfl
    rintro f (_ | hf)
    · exact ⟨Frame.travels_opening method timeout, by simp⟩
    · exact hfs f ‹_›
  obtain ⟨l, hwrite, hl, -⟩ := write_accepting
    ⟨method, timeout, Duration.deadline n.clock timeout, limit, false,
      .ofFarEnd { n with remote := .peers peers } (.scripted (.attending answer hold)) peerBytes⟩
    (Line.accepting_attended (s := s)) (Frame.travels_opening method timeout).isAnnounceable hstart
  refine ⟨l, ?_, hl⟩
  rw [dial, hdial]
  dsimp only
  rw [hwrite]

theorem request_answered (hremote : n.remote = .peers (.answer answer hold :: peers))
    (method : Method) {m : Message} (hm : m.InRange) (htimeout : 0 < timeout) (limit : Nat)
    (hallowed : (Frame.message m).IsAllowed PeerEnd.limit)
    (hsaid : hold = true → (Frame.responses limit answer).2.isSaid = true) :
    (request s n method m timeout limit).1 =
      ((Frame.responses limit answer).2.verdict method timeout).map
        fun _ => (Frame.responses limit answer).1 := by
  have hsent : ∀ f ∈ [Frame.message m], f.Travels PeerEnd.limit ∧ f ≠ .halfClose := by
    intro f hf
    obtain rfl := List.mem_singleton.mp hf
    exact ⟨Frame.InRange.travels hm hallowed, by simp⟩
  obtain ⟨l, hdial, hl⟩ := dial_attended (s := s) hremote htimeout method limit hsent
  obtain ⟨l₁, hsend, hl₁, -⟩ := write_accepting
    ⟨method, timeout, Duration.deadline n.clock timeout, limit, false, l⟩
    (Line.accepting_attended (s := s)) hallowed.isAnnounceable hl
  obtain ⟨l₂, hclose, hl₂, hstirred⟩ := write_accepting
    ⟨method, timeout, Duration.deadline n.clock timeout, limit, false, l₁⟩
    (Line.accepting_attended (s := s)) (f := .halfClose) (by decide) hl₁
  exact request_of_yields hdial hsend hclose (hl₂.yields hstirred hsaid)

theorem single_eq_ok_iff {method : Method} {ms : List Message} {r : Message} :
    single method ms = .ok r ↔ ms = [r] := by
  unfold single
  split
  · simp
  · rename_i hne
    simp only [reduceCtorEq, false_iff]
    exact hne r

end ClientCall

theorem Client.compute_answered {ω τ : Type} (s : Service ω τ) {n : Network ω} {answer : List UInt8}
    {hold : Bool} {peers : List Peer} (hremote : n.remote = .peers (.answer answer hold :: peers))
    {c : Client} {k : Computation} {a : Arguments} {l : List (Tag × Variable)}
    (houtgoing : c.outgoing k a = .ok l) (hsize : 1 ≤ c.config.chunkSize)
    (hchunks : ∀ chunk ∈ (Plan.ofVariables l c.config.chunkSize).chunks,
      (Frame.message (.chunk chunk)).InRange ∧
        (Frame.message (.chunk chunk)).IsAllowed PeerEnd.limit)
    (hcalled : c.called = none) (htimeout : 0 < c.config.timeout)
    (hsaid : hold = true → (Frame.responses c.config.maxFrameBytes answer).2.isSaid = true) :
    (c.compute s k a n).1 =
      ((Frame.responses c.config.maxFrameBytes answer).1.foldlM
        (fun r m => Assembly.receive k.yield m r)
        (.start c.variableList c.blockList k.yield)).bind fun r =>
          ((Frame.responses c.config.maxFrameBytes answer).2.verdict (.compute k)
            c.config.timeout).bind fun _ => r.finish := by
  obtain ⟨hending, -⟩ := Plan.sends_ofVariables l hsize
  have hsent : ∀ f ∈ (Plan.ofVariables l c.config.chunkSize).chunks.map
      fun x => Frame.message (.chunk x), f.Travels PeerEnd.limit ∧ f ≠ .halfClose := by
    intro f hf
    obtain ⟨x, hx, rfl⟩ := List.mem_map.mp hf
    exact ⟨(hchunks x hx).1.travels (hchunks x hx).2, by simp⟩
  obtain ⟨line, hdial, hline⟩ := ClientCall.dial_attended (s := s) hremote htimeout (.compute k)
    c.config.maxFrameBytes hsent
  obtain ⟨line', hattended, hstirred, hexchange⟩ := Client.exchange_accepting (c := c)
    ⟨.compute k, c.config.timeout, Duration.deadline n.clock c.config.timeout,
      c.config.maxFrameBytes, false, line⟩
    (Line.accepting_attended (s := s)) k.yield hending hcalled
    (fun x hx => (hchunks x hx).2.isAnnounceable) hline
  have hyields := hattended.yields (s := s) hstirred hsaid
  rw [compute, houtgoing]
  dsimp only
  rw [ClientCall.within, hdial]
  dsimp only
  rw [hexchange]
  dsimp only
  rw [ClientCall.receiveAll_of_yields _ _ _ rfl hyields]
  cases (Frame.responses c.config.maxFrameBytes answer).1.foldlM
      (fun r m => Assembly.receive k.yield m r) (.start c.variableList c.blockList k.yield) with
  | error e => rfl
  | ok r =>
      cases (Frame.responses c.config.maxFrameBytes answer).2.verdict (.compute k)
        c.config.timeout with
      | error e => rfl
      | ok u => rfl

/-- A client whose request has got across takes the messages of the answer for all of them exactly when
a closing frame with a good status comes first behind them; of a unary call there has to be one.
Otherwise what does come first decides about the error. The results of a computation are put together
from the messages, and accepted by the same rule. This is so whoever answers; of a peer that hears the
request, `answer` may be any bytes. -/
theorem ClientCall.answer_accepted_iff_closed {ω τ : Type} (s : Service ω τ) :
    (∀ (n : Network ω) (method : Method) (m : Message) (timeout : Duration) (limit : Nat)
      (call sent closed : ClientCall ω τ) (ms : List Message) (e : Ending),
      dial s n method timeout limit = .ok call → call.send s m = (.ok (), sent) →
      sent.halfClose s = (.ok (), closed) →
      closed.line.Yields s limit closed.deadline none ms e →
      (request s n method m timeout limit).1 = (e.verdict method timeout).map (fun _ => ms) ∧
      (unary s n method m timeout limit).1 =
        ((e.verdict method timeout).map fun _ => ms).bind (single method)) ∧
    (∀ (c : Client) (p : Plan) (y : Yield) (call sent closed : ClientCall ω τ) (ms : List Message)
      (e : Ending), c.transmit s p call = (.ok (), sent) → sent.halfClose s = (.ok (), closed) →
      closed.finished = false → closed.line.Yields s closed.limit closed.deadline c.called ms e →
      (c.exchange s p y call).1 =
        (ms.foldlM (fun r m => Assembly.receive y m r) (.start c.variableList c.blockList y)).bind
          fun r => (e.verdict closed.method closed.timeout).bind fun _ => r.finish) ∧
    ∀ (n : Network ω) (answer : List UInt8) (hold : Bool) (peers : List Peer),
      n.remote = .peers (.answer answer hold :: peers) →
      (∀ (method : Method) (m : Message) (timeout : Duration) (limit : Nat), m.InRange →
        0 < timeout → (Frame.message m).IsAllowed PeerEnd.limit →
        (hold = true → (Frame.responses limit answer).2.isSaid = true) →
        (∀ ms, (request s n method m timeout limit).1 = .ok ms ↔
          ∃ status later, status.isOk = true ∧
            (Frame.readAll limit answer).1 = ms.map .message ++ .close status :: later) ∧
        (∀ r, (unary s n method m timeout limit).1 = .ok r ↔
          ∃ status later, status.isOk = true ∧
            (Frame.readAll limit answer).1 = .message r :: .close status :: later) ∧
        (request s n method m timeout limit).1 =
          ((Frame.responses limit answer).2.verdict method timeout).map
            fun _ => (Frame.responses limit answer).1) ∧
      ∀ (c : Client) (k : Computation) (a : Arguments) (l : List (Tag × Variable)),
        c.outgoing k a = .ok l → 1 ≤ c.config.chunkSize →
        (∀ chunk ∈ (Plan.ofVariables l c.config.chunkSize).chunks,
          (Frame.message (.chunk chunk)).InRange ∧
            (Frame.message (.chunk chunk)).IsAllowed PeerEnd.limit) →
        c.called = none → 0 < c.config.timeout →
        (hold = true → (Frame.responses c.config.maxFrameBytes answer).2.isSaid = true) →
        (∀ values, (c.compute s k a n).1 = .ok values ↔
          ∃ (ms : List Message) (status : Status) (later : List Frame) (r : Assembly k.yield),
            status.isOk = true ∧ (Frame.readAll c.config.maxFrameBytes answer).1 =
              ms.map .message ++ .close status :: later ∧
            ms.foldlM (fun r m => Assembly.receive k.yield m r)
              (.start c.variableList c.blockList k.yield) = .ok r ∧
            r.finish = .ok values) ∧
        (c.compute s k a n).1 =
          ((Frame.responses c.config.maxFrameBytes answer).1.foldlM
            (fun r m => Assembly.receive k.yield m r)
            (.start c.variableList c.blockList k.yield)).bind fun r =>
              ((Frame.responses c.config.maxFrameBytes answer).2.verdict (.compute k)
                c.config.timeout).bind fun _ => r.finish := by
  have hunary (n : Network ω) (method : Method) (m : Message) (timeout : Duration) (limit : Nat) :
      (unary s n method m timeout limit).1 =
        (request s n method m timeout limit).1.bind (single method) := rfl
  refine ⟨?_, ?_, ?_⟩
  · intro n method m timeout limit call sent closed ms e hdial hsend hclose hyields
    have hrequest := request_of_yields hdial hsend hclose hyields
    exact ⟨hrequest, by rw [hunary, hrequest]⟩
  · intro c p y call sent closed ms e htransmit hclose hfinished hyields
    exact Client.exchange_of_yields y htransmit hclose hfinished hyields
  · intro n answer hold peers hremote
    constructor
    · intro method m timeout limit hm htimeout hallowed hsaid
      have hrequest := request_answered (s := s) hremote method hm htimeout limit hallowed hsaid
      -- Nothing is made of the messages, or the one of a unary call is taken out.
      have htaken {α : Type} (finish : List Message → Except Error α) :
          (request s n method m timeout limit).1.bind finish =
            (Except.ok (Frame.responses limit answer).1).bind fun ms =>
              ((Frame.responses limit answer).2.verdict method timeout).bind fun _ =>
                finish ms := by
        rw [hrequest]
        cases (Frame.responses limit answer).2.verdict method timeout <;> rfl
      refine ⟨fun ms => ?_, fun r => ?_, hrequest⟩
      · have hsame : (request s n method m timeout limit).1 =
            (request s n method m timeout limit).1.bind .ok := by
          cases (request s n method m timeout limit).1 <;> rfl
        rw [hsame, htaken, Frame.bind_accepted_iff]
        simp
      · rw [hunary, htaken, Frame.bind_accepted_iff]
        simp [single_eq_ok_iff]
    · intro c k a l houtgoing hsize hchunks hcalled htimeout hsaid
      have hcompute := Client.compute_answered s hremote houtgoing hsize hchunks hcalled htimeout
        hsaid
      exact ⟨fun values => by rw [hcompute, Frame.bind_accepted_iff], hcompute⟩

/-- One message and a good closing frame, and the same when the closing frame is cut. -/
theorem ClientCall.cut_answer_refused :
    (unary Habit.service ⟨0, .echo, .peers [.answer [0, 0, 0, 3, 1, 2, 3, 0, 0, 0, 3, 4, 0, 0] true], []⟩
      (.negotiate .getInfo) .empty 1000 64).1 = .ok (.streamOptions 3) ∧
    (request Habit.service ⟨0, .echo, .peers [.answer [0, 0, 0, 3, 1, 2, 3, 0, 0, 0] false], []⟩
      (.negotiate .getInfo) .empty 1000 64).1 = .error (.transport "GetInfo: early eof") := by
  have hm : (Frame.message (.streamOptions 3)).Travels 64 :=
    ⟨⟨by decide, by decide⟩, Nat.lt_of_lt_of_le (by decide : 3 < 4) (by decide)⟩
  have hc : (Frame.close .ok).Travels 64 :=
    ⟨⟨by decide, by decide⟩, Nat.lt_of_lt_of_le (by decide : 0 < 4) (by decide)⟩
  have hwhole : Frame.readAll 64 [0, 0, 0, 3, 1, 2, 3, 0, 0, 0, 3, 4, 0, 0] =
      ([.message (.streamOptions 3), .close .ok], none) := by
    have hfirst : Frame.read 64 true [0, 0, 0, 3, 1, 2, 3, 0, 0, 0, 3, 4, 0, 0] = _ :=
      Frame.read_encode hm true [0, 0, 0, 3, 4, 0, 0]
    have hlast : Frame.read 64 true [0, 0, 0, 3, 4, 0, 0] = _ := Frame.read_encode hc true []
    rw [Frame.readAll_of_read hfirst, Frame.readAll_of_read hlast, Frame.readAll_of_ended rfl]
  have hcut : Frame.responses 64 [0, 0, 0, 3, 1, 2, 3, 0, 0, 0] =
      ([.streamOptions 3], .unreadable .earlyEnd) := by
    have hfirst : Frame.read 64 true [0, 0, 0, 3, 1, 2, 3, 0, 0, 0] = _ :=
      Frame.read_encode hm true [0, 0, 0]
    rw [Frame.responses, Frame.readAll_of_read hfirst, Frame.readAll_of_fault rfl]
    rfl
  have hsmall : (Frame.message .empty).IsAllowed PeerEnd.limit := ⟨by decide, by decide⟩
  constructor
  · let n : Network Habit :=
      ⟨0, .echo, .peers [.answer [0, 0, 0, 3, 1, 2, 3, 0, 0, 0, 3, 4, 0, 0] true], []⟩
    obtain ⟨-, hunary, -⟩ := ((answer_accepted_iff_closed Habit.service).2.2 n _ _ _ rfl).1
      (.negotiate .getInfo) .empty 1000 64 trivial (by decide) hsmall
      fun _ => by rw [Frame.responses, hwhole]; rfl
    exact (hunary _).mpr ⟨.ok, [], rfl, by rw [hwhole]⟩
  · let n : Network Habit := ⟨0, .echo, .peers [.answer [0, 0, 0, 3, 1, 2, 3, 0, 0, 0] false], []⟩
    obtain ⟨-, -, hrequest⟩ := ((answer_accepted_iff_closed Habit.service).2.2 n _ _ _ rfl).1
      (.negotiate .getInfo) .empty 1000 64 trivial (by decide) hsmall fun h => by cases h
    rw [hcut] at hrequest
    exact hrequest

end RemoteDiscipline
