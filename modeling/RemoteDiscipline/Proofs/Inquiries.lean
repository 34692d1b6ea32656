import RemoteDiscipline.Proofs.Exchanges
import RemoteDiscipline.Proofs.Negotiating
import RemoteDiscipline.Proofs.Transfer
/-!
What a client knows when it has asked a server for one thing, and what the server has done.

Whatever a client tries to send and however it fails, at most a beginning of it is on its way
(`Line.Reaches`). So the server has seen nothing but the request of the client or a part of it, and
has carried it out once or not at all; and a client that got its answer got all of it from a server that
did carry the request out (`ClientCall.outcome_of_request`).
-/

namespace RemoteDiscipline

/-- The surroundings of a client after a connection to a host in the same process, on which at most a
beginning of some bytes has been sent. -/
structure Network.After {σ : Type} (limits : Limits) (w₀ : Host σ) (all : List UInt8)
    (n : Network (Host σ)) : Prop where
  remote : n.remote = .inProcess limits
  served : ∃ c arrived taken more,
    Connection.Run Host.service limits w₀ arrived taken n.world c ∧ arrived ++ more = all

namespace Line

variable {σ : Type} {limits : Limits} {w₀ : Host σ} {limit deadline : Nat} {sent bytes : List UInt8}
  {frames : List Frame} {l : Line (Host σ) Host.Task}

/-- A line to a host in the same process, on which some bytes have been sent. What has been read does
not matter. -/
structure Reaches (limits : Limits) (w₀ : Host σ) (sent : List UInt8)
    (l : Line (Host σ) Host.Task) : Prop where
  remote : l.remote = .inProcess limits
  connects : ∃ taken, Connects limits w₀ sent taken l

theorem Reaches.push (h : Reaches limits w₀ sent l) (bytes : List UInt8) :
    Reaches limits w₀ (sent ++ bytes) (l.push bytes) := by
  obtain ⟨taken, hconnects⟩ := h.connects
  exact ⟨h.remote, taken, hconnects.push bytes⟩

theorem Reaches.letRun (h : Reaches limits w₀ sent l) (reading : Bool) :
    Reaches limits w₀ sent (l.letRun Host.service reading) := by
  obtain ⟨taken, hconnects⟩ := h.connects
  obtain ⟨more, -, hconnects'⟩ := hconnects.letRun reading
  exact ⟨h.remote, _, hconnects'⟩

/-- Whether a beginning of some bytes is on its way after an attempt to send them, and all of them if
it went well. -/
def Conveys (limits : Limits) (w₀ : Host σ) (sent bytes : List UInt8)
    (r : Sending × Line (Host σ) Host.Task) : Prop :=
  ∃ part, part <+: bytes ∧ (r.1 = .done → part = bytes) ∧ Reaches limits w₀ (sent ++ part) r.2

theorem Reaches.conveys_nothing (h : Reaches limits w₀ sent l) {sending : Sending}
    (hd : sending = .done → bytes = []) : Conveys limits w₀ sent bytes (sending, l) :=
  ⟨[], List.nil_prefix, fun hdone => (hd hdone).symm, by rwa [List.append_nil]⟩

theorem Conveys.of_drop {k : Nat} {r : Sending × Line (Host σ) Host.Task}
    (h : Conveys limits w₀ (sent ++ bytes.take k) (bytes.drop k) r) :
    Conveys limits w₀ sent bytes r := by
  obtain ⟨part, ⟨left, hleft⟩, hdone, hrest⟩ := h
  refine ⟨bytes.take k ++ part, ⟨left, ?_⟩, fun hd => ?_, by rwa [List.append_assoc] at hrest⟩
  · rw [List.append_assoc, hleft, List.take_append_drop]
  · rw [hdone hd, List.take_append_drop]

theorem Reaches.sendRest (h : Reaches limits w₀ sent l) (deadline : Nat) (bytes : List UInt8) :
    Conveys limits w₀ sent bytes (l.sendRest Host.service deadline bytes) := by
  fun_induction Line.sendRest Host.service deadline bytes l generalizing sent with
  | case1 l => exact h.conveys_nothing fun _ => rfl
  | case2 => exact h.conveys_nothing (by simp)
  | case3 => exact (h.letRun false).conveys_nothing (by simp [Line.hungUp])
  | case4 =>
      have hrun := h.letRun false
      refine Reaches.conveys_nothing ?_ (by simp)
      exact ⟨hrun.remote, hrun.connects⟩
  | case5 =>
      rename_i ih
      exact (ih ((h.letRun false).push _)).of_drop

theorem Reaches.sendFrame (h : Reaches limits w₀ sent l) (deadline : Nat) (f : Frame) :
    Conveys limits w₀ sent f.encode (l.sendFrame Host.service deadline f) := by
  cases hf : f.isAnnounceable with
  | true =>
      rw [Line.sendFrame, Frame.pack_of_isAnnounceable hf]
      dsimp only
      unfold Line.send
      split
      · exact h.conveys_nothing (by simp [Line.hungUp])
      · exact ((h.push _).sendRest deadline _).of_drop
  | false =>
      rw [Line.sendFrame, Frame.pack, hf]
      exact h.conveys_nothing (by simp)

theorem Reaches.receive (h : Reaches limits w₀ sent l) (limit deadline : Nat) (called : Option Nat) :
    Reaches limits w₀ sent (l.receive Host.service limit deadline called).2 := by
  fun_induction Line.receive Host.service limit deadline called l with
  | case1 l r hpick =>
      unfold Line.pick at hpick
      split at hpick <;> cases hpick <;> exact ⟨h.remote, h.connects⟩
  | case2 | case3 => exact ⟨h.remote, h.connects⟩
  | case4 l _ _ _ _ ih => exact ih (h.letRun true)
  | case5 l =>
      unfold Line.await
      split
      · split <;> exact ⟨h.remote, h.connects⟩
      · exact ⟨h.remote, h.connects⟩

theorem Reaches.hangUp (h : Reaches limits w₀ sent l) (more : List UInt8) :
    Network.After limits w₀ (sent ++ more) (l.hangUp Host.service) := by
  obtain ⟨taken, hconnects⟩ := h.connects
  have hleft : Reaches limits w₀ sent
      { l with far := (l.far.arrive l.sent.reverse.flatten).hangUp, sent := [] } :=
    ⟨h.remote, taken, hconnects.leave⟩
  obtain ⟨hremote', taken', c', arrived', -, hrun', hsent'⟩ := hleft.letRun true
  exact ⟨hremote', c', arrived', taken', _, hrun', by rw [← hsent', List.append_assoc]⟩

end Line

/-! ### Calls -/

namespace ClientCall

variable {σ : Type} {limits : Limits} {w₀ : Host σ} {sent : List UInt8}
  {call : ClientCall (Host σ) Host.Task}

theorem reaches_read (h : Line.Reaches limits w₀ sent call.line) (called : Option Nat) :
    Line.Reaches limits w₀ sent (call.read Host.service called).2.line :=
  h.receive call.limit call.deadline called

theorem reaches_explainBroken (h : Line.Reaches limits w₀ sent call.line) (e : WriteFault) :
    Line.Reaches limits w₀ sent (call.explainBroken Host.service e).2.line :=
  line_explainBroken e (fun _ limit deadline hl => hl.receive limit deadline none) h

/-- However writing a frame ends, a beginning of it is on its way, and all of it if it goes well. -/
theorem reaches_write (h : Line.Reaches limits w₀ sent call.line) (f : Frame) :
    ∃ part, part <+: f.encode ∧ ((call.write Host.service f).1 = .ok () → part = f.encode) ∧
      Line.Reaches limits w₀ (sent ++ part) (call.write Host.service f).2.line := by
  obtain ⟨part, hpart, hdone, hsent⟩ := h.sendFrame call.deadline f
  refine ⟨part, hpart, ?_⟩
  unfold write
  cases hs : call.line.sendFrame Host.service call.deadline f with
  | mk sending l =>
      rw [hs] at hdone hsent
      cases sending with
      | done => exact ⟨fun _ => hdone rfl, hsent⟩
      | late => exact ⟨by simp, hsent⟩
      | broken e => exact ⟨by simp, reaches_explainBroken hsent e⟩

theorem reaches_receiveUnless (h : Line.Reaches limits w₀ sent call.line) (called : Option Nat) :
    Line.Reaches limits w₀ sent (call.receiveUnless Host.service called).2.line := by
  have hread := reaches_read h called
  unfold receiveUnless
  split
  · exact h
  · split <;> rename_i hr <;> rw [hr] at hread <;> exact hread

theorem reaches_receiveAll {α : Type} (h : Line.Reaches limits w₀ sent call.line)
    (accept : Message → α → Except Error α) (a : α) :
    Line.Reaches limits w₀ sent (call.receiveAll Host.service none accept a).2.line := by
  fun_induction ClientCall.receiveAll Host.service none accept a call with
  | case1 a call m call' hm e ha =>
      have hnext := reaches_receiveUnless h none
      rwa [hm] at hnext
  | case2 a call m call' hm a' ha ih =>
      have hnext := reaches_receiveUnless h none
      rw [hm] at hnext
      exact ih hnext
  | case3 a call call' hm | case4 a call e call' hm =>
      have hnext := reaches_receiveUnless h none
      rwa [hm] at hnext
  | case5 a call call' hm =>
      have hcalled := receiveUnless_ne_called Host.service call
      rw [hm] at hcalled
      exact absurd rfl hcalled

/-! ### Requests -/

section Requests

variable {m : Negotiation} {x : Message} {timeout : Duration} {limit : Nat} {n n' : Network (Host σ)}

def requestFrames (m : Negotiation) (x : Message) (timeout : Duration) : List Frame :=
  [.opening protocolVersion (.negotiate m) timeout.announced, .message x, .halfClose]

theorem reaches_ask (h : Line.Reaches limits w₀ sent call.line) (x : Message) :
    ∃ part, part <+: Frame.encodeAll [.message x, .halfClose] ∧
      Line.Reaches limits w₀ (sent ++ part) (call.ask Host.service x).2.line := by
  obtain ⟨part, hpart, hdone, hsent⟩ := reaches_write h (.message x)
  unfold ask send
  split
  · rename_i e call₁ hs
    rw [hs] at hsent
    exact ⟨part, hpart.trans (List.prefix_append _ _), hsent⟩
  · rename_i call₁ hs
    rw [hs] at hdone hsent
    obtain rfl := hdone rfl
    obtain ⟨part', hpart', -, hsent'⟩ := reaches_write hsent .halfClose
    refine ⟨(Frame.message x).encode ++ part', ?_, ?_⟩
    · obtain ⟨left, hleft⟩ := hpart'
      exact ⟨left, by simp [← hleft]⟩
    · rw [← List.append_assoc]
      unfold halfClose
      split
      · rename_i e call₂ hc
        rwa [hc] at hsent'
      · rename_i call₂ hc
        rw [hc] at hsent'
        exact reaches_receiveAll hsent' _ _

theorem reaches_dial (hremote : n.remote = .inProcess limits) (method : Method) (timeout : Duration)
    (limit : Nat) :
    (∀ call, dial Host.service n method timeout limit = .ok call →
      Line.Reaches limits n.world (Frame.opening protocolVersion method timeout.announced).encode
        call.line) ∧
    ∀ e n', dial Host.service n method timeout limit = .error (e, n') → ∀ more,
      Network.After limits n.world
        ((Frame.opening protocolVersion method timeout.announced).encode ++ more) n' := by
  have hdial : (Line.dial n (Duration.deadline n.clock timeout) : Line.Dialled (Host σ) Host.Task) =
      .connected (.ofFarEnd n (.hosted (.fresh limits)) pipeBytes) := by
    rw [Line.dial, hremote]
  have hfresh : Line.Reaches limits n.world []
      (ClientCall.line ⟨method, timeout, Duration.deadline n.clock timeout, limit, false,
        .ofFarEnd n (.hosted (.fresh limits)) pipeBytes⟩) :=
    ⟨hremote, [], _, [], rfl, .fresh, rfl⟩
  obtain ⟨part, ⟨left, hleft⟩, hdone, hopened⟩ :=
    reaches_write hfresh (.opening protocolVersion method timeout.announced)
  rw [dial, hdial]
  dsimp only
  split
  · rename_i call hw
    rw [hw] at hdone hopened
    obtain rfl := hdone rfl
    refine ⟨fun call' hcall => ?_, by simp⟩
    cases hcall
    exact hopened
  · rename_i e call hw
    rw [hw] at hopened
    refine ⟨by simp, fun e' n' he more => ?_⟩
    cases he
    rw [← hleft, List.append_assoc]
    exact hopened.hangUp _

theorem after_request (hremote : n.remote = .inProcess limits) (m : Negotiation) (x : Message)
    (timeout : Duration) (limit : Nat) :
    Network.After limits n.world (Frame.encodeAll (requestFrames m x timeout))
      (request Host.service n (.negotiate m) x timeout limit).2 := by
  obtain ⟨hopened, hrefused⟩ := reaches_dial hremote (.negotiate m) timeout limit
  unfold request within
  split
  · rename_i e n' hdial
    exact hrefused e n' hdial _
  · rename_i call hdial
    obtain ⟨part, ⟨left, hleft⟩, hasked⟩ := reaches_ask (hopened call hdial) x
    have hall : (Frame.opening protocolVersion (.negotiate m) timeout.announced).encode ++ part ++
        left = Frame.encodeAll (requestFrames m x timeout) := by
      rw [List.append_assoc, hleft]
      rfl
    exact hall ▸ hasked.hangUp left

theorem carries_ask {call' : ClientCall (Host σ) Host.Task} {sent : List UInt8} {ms : List Message}
    (hfinished : call.finished = false)
    (h : Line.Carries limits w₀ call.limit sent [] call.line)
    (hok : call.ask Host.service x = (.ok ms, call')) :
    ∃ status : Status, status.isOk ∧
      Line.Carries limits w₀ call.limit (sent ++ Frame.encodeAll [.message x, .halfClose])
        (ms.map .message ++ [.close status]) call'.line := by
  unfold ask at hok
  split at hok
  · cases hok
  · rename_i call₁ hs
    obtain ⟨l₁, rfl, h₁⟩ := carries_write h hs
    split at hok
    · cases hok
    · rename_i call₂ hc
      obtain ⟨l₂, rfl, h₂⟩ := carries_write h₁ hc
      obtain ⟨ms', status, hstatus, h₃, hfold⟩ :=
        carries_receiveAll (by exact hfinished) (by exact h₂) hok
      have hcollect (l l' : List Message) :
          l.foldlM (fun ms m => (Except.ok (ms ++ [m]) : Except Error (List Message))) l' =
            .ok (l' ++ l) := by
        induction l generalizing l' with
        | nil => rw [List.append_nil]; rfl
        | cons m l ih =>
            rw [List.foldlM_cons]
            exact (ih (l' ++ [m])).trans (by rw [List.append_assoc]; rfl)
      rw [hcollect, List.nil_append] at hfold
      cases hfold
      refine ⟨status, hstatus, ?_⟩
      simpa using h₃

/-- What a client gets for a request, and what the server has done. Either the client has got the
whole answer of a server that has carried the request out; or the request has failed, and the server
has carried it out or not. -/
theorem outcome_of_request {r : Except Error (List Message)} (hremote : n.remote = .inProcess limits)
    (hx : x.Fits)
    (hanswer : ∀ messages h', n.world.negotiate m x = (.ok messages, h') → ∀ y ∈ messages, y.Fits)
    (h : request Host.service n (.negotiate m) x timeout limit = (r, n')) :
    n'.remote = .inProcess limits ∧
      ((∃ messages, r = .ok messages ∧ n.world.negotiate m x = (.ok messages, n'.world)) ∨
        ∃ e, r = .error e ∧ (n'.world = n.world ∨ n'.world = (n.world.negotiate m x).2)) := by
  have hafter := after_request hremote m x timeout limit
  rw [h] at hafter
  refine ⟨hafter.remote, ?_⟩
  cases r with
  | error e =>
      obtain ⟨c, arrived, taken, more, hrun, hall⟩ := hafter.served
      obtain ⟨answer, houtcome, -⟩ := Host.exists_outcome_of_run hrun hall timeout.announced_lt hx
      exact .inr ⟨e, rfl, houtcome.cases_host⟩
  | ok ms =>
      refine .inl ⟨ms, rfl, ?_⟩
      unfold request within at h
      split at h
      · cases h
      · rename_i call hdial
        obtain ⟨hfinished, hopened⟩ := carries_dial hremote hdial
        obtain ⟨hr, rfl⟩ := Prod.mk.inj h
        have hok : call.ask Host.service x = (.ok ms, (call.ask Host.service x).2) := Prod.ext hr rfl
        obtain ⟨status, hstatus, hasked⟩ := carries_ask hfinished hopened hok
        obtain ⟨l', hleft, hworld⟩ := hasked.hangUp
        obtain ⟨taken, ⟨c, arrived, -, hrun, hsent⟩, hread⟩ := hleft.connects
        obtain ⟨answer, houtcome, htells⟩ :=
          Host.exists_outcome_of_run hrun hsent timeout.announced_lt hx
        have hfits : ∀ y ∈ answer.getD [], y.Fits := by
          cases answer with
          | none => nofun
          | some messages => exact hanswer messages _ houtcome.negotiate_eq
        obtain rfl := htells.eq_some hfits hread hstatus
        exact houtcome.negotiate_eq.trans (congrArg (Prod.mk _) hworld.symm)

end Requests

end ClientCall

end RemoteDiscipline
