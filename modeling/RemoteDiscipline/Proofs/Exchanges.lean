import RemoteDiscipline.Proofs.Calling
import RemoteDiscipline.Proofs.Replies
/-!
What a client knows about its server when a computation has gone well.

Whatever a client sends and however long it waits, its line is a run of the server's connection on
which certain bytes have been sent and certain frames have been read (`Line.Carries`). So when a
client has read a closing frame with a good status, it has read all chunks of a plan that the server
has carried out (`Line.Carries.exists_course`), and whatever it returns is put together from just
these (`Client.exists_course_of_ok`). Nothing is assumed about what the client believes to be
declared.
-/

namespace RemoteDiscipline

namespace Line

variable {σ : Type} {limits : Limits} {w₀ : Host σ} {limit deadline : Nat}
  {sent taken bytes : List UInt8} {frames : List Frame} {l l' : Line (Host σ) Host.Task}

/-- A line to a host in the same process, on which some bytes have been sent and some have come back.
-/
def Connects (limits : Limits) (w₀ : Host σ) (sent taken : List UInt8)
    (l : Line (Host σ) Host.Task) : Prop :=
  ∃ c arrived, l.far = .hosted c ∧
    Connection.Run Host.service limits w₀ arrived taken l.world c ∧
    arrived ++ l.sent.reverse.flatten = sent

theorem Connects.push (h : Connects limits w₀ sent taken l) (bytes : List UInt8) :
    Connects limits w₀ (sent ++ bytes) taken (l.push bytes) := by
  obtain ⟨c, arrived, hfar, hrun, hsent⟩ := h
  refine ⟨c, arrived, hfar, hrun, ?_⟩
  show arrived ++ (bytes :: l.sent).reverse.flatten = sent ++ bytes
  simp [← hsent]

theorem Connects.letRun (h : Connects limits w₀ sent taken l) (reading : Bool) :
    ∃ more, (l.letRun Host.service reading).incoming = l.incoming ++ more ∧
      Connects limits w₀ sent (taken ++ more) (l.letRun Host.service reading) := by
  obtain ⟨c, arrived, hfar, hrun, hsent⟩ := h
  have hsettled := (hrun.arrive l.sent.reverse.flatten).settle l.clock
    (if reading then none else some l.incoming.length)
  obtain ⟨n, far, sent', incoming, capacity, window, isStirred⟩ := l
  cases hfar
  exact ⟨_, rfl, _, _, rfl, hsettled.takeOutput, by simpa [Line.letRun] using hsent⟩

theorem Connects.leave (h : Connects limits w₀ sent taken l) :
    Connects limits w₀ sent taken
      { l with far := (l.far.arrive l.sent.reverse.flatten).hangUp, sent := [] } := by
  obtain ⟨c, arrived, hfar, hrun, hsent⟩ := h
  refine ⟨_, _, ?_, (hrun.arrive l.sent.reverse.flatten).hangUp, ?_⟩
  · rw [hfar]
    rfl
  · simpa using hsent

/-- A line to a host in the same process, on which some bytes have been sent and some frames read.
-/
structure Carries (limits : Limits) (w₀ : Host σ) (limit : Nat) (sent : List UInt8)
    (frames : List Frame) (l : Line (Host σ) Host.Task) : Prop where
  connects : ∃ taken, Connects limits w₀ sent taken l ∧ Frame.Starts limit taken frames l.incoming

theorem Carries.push (h : Carries limits w₀ limit sent frames l) (bytes : List UInt8) :
    Carries limits w₀ limit (sent ++ bytes) frames (l.push bytes) := by
  obtain ⟨taken, hconnects, hread⟩ := h.connects
  exact ⟨taken, hconnects.push bytes, hread⟩

theorem Carries.letRun (h : Carries limits w₀ limit sent frames l) (reading : Bool) :
    Carries limits w₀ limit sent frames (l.letRun Host.service reading) := by
  obtain ⟨taken, hconnects, hread⟩ := h.connects
  obtain ⟨more, hmore, hconnects'⟩ := hconnects.letRun reading
  exact ⟨_, hconnects', hmore ▸ hread.append more⟩

theorem Carries.sendRest (h : Carries limits w₀ limit sent frames l)
    (hdone : l.sendRest Host.service deadline bytes = (.done, l')) :
    Carries limits w₀ limit (sent ++ bytes) frames l' := by
  fun_induction Line.sendRest Host.service deadline bytes l generalizing sent with
  | case1 l =>
      cases hdone
      simpa using h
  | case2 | case3 | case4 => cases hdone
  | case5 =>
      rename_i ih
      have hpushed := ih ((h.letRun false).push _) hdone
      rwa [List.append_assoc, List.take_append_drop] at hpushed

theorem Carries.sendFrame {f : Frame} (h : Carries limits w₀ limit sent frames l)
    (hdone : l.sendFrame Host.service deadline f = (.done, l')) :
    Carries limits w₀ limit (sent ++ f.encode) frames l' := by
  obtain ⟨-, hsend⟩ := send_of_sendFrame hdone
  unfold Line.send at hsend
  split at hsend
  · cases hsend
  · have hpushed := (h.push _).sendRest hsend
    rwa [List.append_assoc, List.take_append_drop] at hpushed

theorem Carries.receive {called : Option Nat} {f : Frame}
    (h : Carries limits w₀ limit sent frames l)
    (hf : l.receive Host.service limit deadline called = (.frame f, l')) :
    Carries limits w₀ limit sent (frames ++ [f]) l' := by
  fun_induction Line.receive Host.service limit deadline called l with
  | case1 l r hpick =>
      subst hf
      obtain ⟨taken, hconnects, hread⟩ := h.connects
      unfold Line.pick at hpick
      split at hpick
      · rename_i f' rest hnext
        cases hpick
        exact ⟨taken, hconnects, hread.snoc (Frame.read_ended hnext false)⟩
      all_goals cases hpick
  | case2 | case3 => cases hf
  | case4 l _ _ _ _ ih => exact ih (h.letRun true) hf
  | case5 => exact absurd hf Line.await_ne_frame

theorem Carries.hangUp (h : Carries limits w₀ limit sent frames l) :
    ∃ l', Carries limits w₀ limit sent frames l' ∧ (l.hangUp Host.service).world = l'.world := by
  obtain ⟨taken, hconnects, hread⟩ := h.connects
  have hleft : Carries limits w₀ limit sent frames
      { l with far := (l.far.arrive l.sent.reverse.flatten).hangUp, sent := [] } :=
    ⟨taken, hconnects.leave, hread⟩
  exact ⟨_, hleft.letRun true, rfl⟩

/-- A client that has read a good closing frame has read all chunks of a plan that has been carried
out. -/
theorem Carries.exists_course {k : Computation} {timeout : Nat} {rest : List UInt8}
    {ms : List Message} {status : Status}
    (h : Carries limits w₀ limit
      ((Frame.opening protocolVersion (.compute k) timeout).encode ++ rest)
      (ms.map .message ++ [.close status]) l)
    (hok : status.isOk) (htimeout : Wire.FitsSize timeout)
    (hfits : ∀ l' plan, Host.Course w₀.lifecycle k l' plan → ∀ c ∈ plan.chunks, c.Fits) :
    ∃ plan, Host.Course w₀.lifecycle k l.world.lifecycle plan ∧ plan.ending = .ok () ∧
      ms = plan.chunks.map .chunk := by
  obtain ⟨taken, ⟨c, arrived, -, hrun, hsent⟩, hread⟩ := h.connects
  obtain ⟨plan, hcourse, said, hplanned, hwritten⟩ :=
    Host.exists_course_of_run hrun hsent htimeout
  have htold : ∀ m ∈ said.map Message.chunk, m.Fits := by
    intro m hm
    obtain ⟨c, hc, rfl⟩ := List.mem_map.mp hm
    exact hfits _ plan hcourse c (hplanned.subset hc)
  obtain hwritten | ⟨st, hcloses, hwritten⟩ := hwritten
  · have heq : taken ++ c.output.reverse.flatten = Frame.encodeAll _ ++ [] :=
      hwritten.trans (List.append_nil _).symm
    exact absurd rfl (hread.eq_of_close htold (.inl rfl) heq).2.1
  · obtain ⟨rfl, -, hcode⟩ := hread.eq_of_close htold (.inr ⟨st, rfl⟩) hwritten
    have hst : st.isOk := by
      rw [Status.isOk, hcode st rfl]
      exact hok
    obtain ⟨rfl, hending⟩ := hcloses.complete hst
    exact ⟨plan, hcourse, hending, rfl⟩

end Line

/-! ### Calls -/

namespace ClientCall

variable {σ : Type} {limits : Limits} {w₀ : Host σ} {limit : Nat} {sent : List UInt8}
  {frames : List Frame} {called : Option Nat} {call call' : ClientCall (Host σ) Host.Task}

theorem carries_write {f : Frame} (h : Line.Carries limits w₀ limit sent frames call.line)
    (hok : call.write Host.service f = (.ok (), call')) :
    ∃ l, call' = { call with line := l } ∧
      Line.Carries limits w₀ limit (sent ++ f.encode) frames l := by
  unfold write at hok
  cases hs : call.line.sendFrame Host.service call.deadline f with
  | mk sending l =>
      rw [hs] at hok
      cases sending with
      | done =>
          cases hok
          exact ⟨l, rfl, h.sendFrame hs⟩
      | late | broken => cases hok

theorem carries_go {p : Plan} {parcels : List Parcel} {stop : ClientCall (Host σ) Host.Task → Bool}
    (h : Line.Carries limits w₀ limit sent frames call.line)
    (hok : Plan.transmit.go stop (fun c call => call.send Host.service (.chunk c)) p parcels call =
      (.ok (), call')) :
    ∃ l more, call' = { call with line := l } ∧
      Line.Carries limits w₀ limit (sent ++ more) frames l := by
  induction parcels generalizing call sent with
  | nil =>
      obtain ⟨-, rfl⟩ := Prod.mk.inj hok
      exact ⟨call.line, [], rfl, by simpa using h⟩
  | cons parcel parcels ih =>
      rw [Plan.transmit.go] at hok
      split at hok
      · cases hok
      · cases hs : call.send Host.service (.chunk parcel.chunk) with
        | mk r call₁ =>
            rw [hs] at hok
            cases r with
            | error e => cases hok
            | ok u =>
                obtain ⟨l₁, rfl, h₁⟩ := carries_write h hs
                obtain ⟨l, more, rfl, h'⟩ := ih h₁ hok
                exact ⟨l, _, rfl, by rwa [List.append_assoc] at h'⟩

theorem carries_receiveUnless (hfinished : call.finished = false)
    (h : Line.Carries limits w₀ call.limit sent frames call.line) {r : Received}
    (hr : call.receiveUnless Host.service called = (r, call')) :
    (∀ m, r = .message m → ∃ l, call' = { call with line := l } ∧
      Line.Carries limits w₀ call.limit sent (frames ++ [.message m]) l) ∧
    (r = .ended → ∃ status, status.isOk ∧
      Line.Carries limits w₀ call.limit sent (frames ++ [.close status]) call'.line) := by
  cases hl : call.line.receive Host.service call.limit call.deadline called with
  | mk arrival l =>
      have hread : call.read Host.service called = (arrival, { call with line := l }) := by
        rw [read, hl]
      rw [receiveUnless, hfinished, if_neg Bool.false_ne_true, hread] at hr
      cases arrival with
      | frame f =>
          have hnext := h.receive hl
          cases f with
          | message m =>
              cases hr
              exact ⟨fun m' hm => by cases hm; exact ⟨l, rfl, hnext⟩, by simp⟩
          | close status =>
              dsimp only at hr
              split at hr
              · rename_i hok
                cases hr
                exact ⟨by simp, fun _ => ⟨status, hok, hnext⟩⟩
              · cases hr
                simp
          | opening | halfClose | cancel =>
              cases hr
              simp
      | ended | fault | late | called =>
          cases hr
          simp

theorem carries_receiveAll {α : Type} {accept : Message → α → Except Error α} {a b : α}
    (hfinished : call.finished = false)
    (h : Line.Carries limits w₀ call.limit sent frames call.line)
    (hok : call.receiveAll Host.service called accept a = (.ok b, call')) :
    ∃ (ms : List Message) (status : Status), status.isOk ∧
      Line.Carries limits w₀ call.limit sent (frames ++ (ms.map .message ++ [.close status]))
        call'.line ∧
      ms.foldlM (fun a m => accept m a) a = .ok b := by
  fun_induction ClientCall.receiveAll Host.service called accept a call generalizing frames with
  | case1 | case4 | case5 => cases hok
  | case2 a call m call₁ hm a' ha ih =>
      obtain ⟨l, rfl, h₁⟩ := (carries_receiveUnless hfinished h hm).1 m rfl
      obtain ⟨ms, status, hstatus, h', hfold⟩ := ih hfinished h₁ hok
      refine ⟨m :: ms, status, hstatus, by simpa using h', ?_⟩
      rw [List.foldlM_cons, ha]
      exact hfold
  | case3 a call call₁ hended =>
      cases hok
      obtain ⟨status, hstatus, h'⟩ := (carries_receiveUnless hfinished h hended).2 rfl
      exact ⟨[], status, hstatus, h', rfl⟩

theorem carries_dial {n : Network (Host σ)} {method : Method} {timeout : Duration}
    (hremote : n.remote = .inProcess limits)
    (hok : dial Host.service n method timeout limit = .ok call) :
    call.finished = false ∧
      Line.Carries limits n.world call.limit
        (Frame.opening protocolVersion method timeout.announced).encode [] call.line := by
  rw [dial, Line.dial, hremote] at hok
  dsimp only at hok
  split at hok
  · rename_i call₁ hwrite
    cases hok
    have hfresh : Line.Carries limits n.world limit [] []
        (Line.ofFarEnd n (.hosted (.fresh limits)) pipeBytes : Line (Host σ) Host.Task) :=
      ⟨[], ⟨_, [], rfl, .fresh, rfl⟩, .nil⟩
    obtain ⟨l, rfl, h⟩ := carries_write hfresh hwrite
    exact ⟨rfl, h⟩
  · cases hok

end ClientCall

/-! ### Computations -/

namespace Client

variable {σ : Type} {limits : Limits} {w₀ : Host σ} {sent : List UInt8} {frames : List Frame}
  {c : Client} {call call' : ClientCall (Host σ) Host.Task}

theorem carries_transmit {p : Plan} (h : Line.Carries limits w₀ call.limit sent frames call.line)
    (hok : c.transmit Host.service p call = (.ok (), call')) :
    ∃ l more, call' = { call with line := l } ∧
      Line.Carries limits w₀ call.limit (sent ++ more) frames l := by
  rw [transmit_eq] at hok
  split at hok
  · cases hok
  · exact ClientCall.carries_go h hok

/-- What a client has put together is made of all the messages in front of a good status. -/
theorem carries_exchange {p : Plan} {y : Yield} {got : y.Values} (hfinished : call.finished = false)
    (h : Line.Carries limits w₀ call.limit sent [] call.line)
    (hok : c.exchange Host.service p y call = (.ok got, call')) :
    ∃ (more : List UInt8) (ms : List Message) (status : Status), status.isOk ∧
      Line.Carries limits w₀ call.limit (sent ++ more) (ms.map .message ++ [.close status])
        call'.line ∧
      (ms.foldlM (fun a m => Assembly.receive y m a)
        (.start c.variableList c.blockList y)).bind (Assembly.finish y) = .ok got := by
  rw [exchange_eq] at hok
  split at hok
  · cases hok
  · rename_i call₁ htransmit
    obtain ⟨l₁, more, rfl, h₁⟩ := carries_transmit h htransmit
    split at hok
    · cases hok
    · rename_i call₂ hclose
      obtain ⟨l₂, rfl, h₂⟩ := ClientCall.carries_write h₁ hclose
      obtain ⟨hgot, rfl⟩ := Prod.mk.inj hok
      obtain ⟨r, hr, hfinish⟩ := exists_of_bind_eq_ok hgot
      have hall : ({ call with line := l₂ } : ClientCall (Host σ) Host.Task).receiveAll Host.service
          c.called (Assembly.receive y) (.start c.variableList c.blockList y) = (.ok r, _) :=
        Prod.ext hr rfl
      obtain ⟨ms, status, hstatus, h₃, hfold⟩ :=
        ClientCall.carries_receiveAll (by exact hfinished) (by exact h₂) hall
      refine ⟨_, ms, status, hstatus, by rwa [← List.append_assoc], ?_⟩
      exact (congrArg (Except.bind · (Assembly.finish y)) hfold).trans hfinish

/-- A computation that a client has returned: its server has carried out a plan for it, and what was
returned is put together from the chunks of this plan by what the client believes to be declared. -/
theorem exists_course_of_ok {n : Network (Host σ)} {k : Computation} {a : Arguments}
    {got : k.Values} (hremote : n.remote = .inProcess limits)
    (hfits : ∀ l' plan, Host.Course n.world.lifecycle k l' plan → ∀ c ∈ plan.chunks, c.Fits)
    (hok : (c.compute Host.service k a n).1 = .ok got) :
    ∃ plan, Host.Course n.world.lifecycle k (c.compute Host.service k a n).2.world.lifecycle plan ∧
      plan.ending = .ok () ∧
      Assembly.assemble c.variableList c.blockList k.yield plan.chunks = .ok got := by
  unfold compute at hok ⊢
  split at hok
  · cases hok
  · rename_i l houtgoing
    dsimp only at hok ⊢
    unfold ClientCall.within at hok ⊢
    split at hok
    · cases hok
    · rename_i call hdial
      obtain ⟨hfinished, h⟩ := ClientCall.carries_dial hremote hdial
      obtain ⟨r, call', hexchange⟩ : ∃ r call', c.exchange Host.service
          (Plan.ofVariables l c.config.chunkSize) k.yield call = (r, call') := ⟨_, _, rfl⟩
      rw [hexchange] at hok ⊢
      cases hok
      obtain ⟨more, ms, status, hstatus, h', hgot⟩ := carries_exchange hfinished h hexchange
      obtain ⟨l', h'', hworld⟩ := h'.hangUp
      obtain ⟨plan, hcourse, hending, rfl⟩ :=
        h''.exists_course hstatus c.config.timeout.announced_lt hfits
      rw [List.foldlM_map] at hgot
      exact ⟨plan, hworld ▸ hcourse, hending, hgot⟩

end Client

end RemoteDiscipline
