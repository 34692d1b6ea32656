import RemoteDiscipline.Client.Compute
import RemoteDiscipline.Proofs.Arguments
import RemoteDiscipline.Proofs.Assembly
import RemoteDiscipline.Proofs.Frames
import RemoteDiscipline.Proofs.Plans
/-!
A client's end of a call, whoever is at the other end.

A client gets something across when the far end makes room for it (`Line.Accepting`). What it makes
of the answer depends on the frames alone that it gets to read: the messages, up to the first thing
that is none (`Line.Yields`). That one decides whether the messages were all of them
(`ClientCall.receiveAll_of_yields`), and only a closing frame with a good status says so.
-/

namespace RemoteDiscipline

theorem Duration.lt_deadline {timeout : Duration} (now : Nat) (h : 0 < timeout) :
    now < Duration.deadline now timeout := by
  rw [Duration.deadline]
  split
  · exact Nat.lt_add_of_pos_right h
  · exact Nat.lt_add_of_pos_right (by decide)

/-! ### Sending -/

namespace Line

variable {ω τ : Type} {s : Service ω τ} {deadline : Nat} {P : List UInt8 → Line ω τ → Prop}
  {bytes more : List UInt8} {l : Line ω τ}

/-- Lines on which something is being sent, of which some bytes have not been put on their way. The
far end is there, and when there is no room it makes some as long as more has to come. -/
structure Accepting (s : Service ω τ) (deadline : Nat) (P : List UInt8 → Line ω τ → Prop) : Prop where
  isGone {more : List UInt8} {l : Line ω τ} : P more l → l.far.isGone = false
  clock {more : List UInt8} {l : Line ω τ} : P more l → l.clock < deadline
  push {bytes more : List UInt8} {l : Line ω τ} : P (bytes ++ more) l → P more (l.push bytes)
  letRun {more : List UInt8} {l : Line ω τ} : P more l → more ≠ [] →
    P more (l.letRun s false) ∧ 0 < (l.letRun s false).window

theorem Accepting.sendRest (hP : Accepting s deadline P) (h : P (bytes ++ more) l)
    (hstirred : l.isStirred = true) :
    ∃ l', l.sendRest s deadline bytes = (.done, l') ∧ P more l' ∧ l'.isStirred = true := by
  -- In every round the clock stands still, the far end is there, and letting it go on makes room.
  fun_induction Line.sendRest s deadline bytes l with
  | case1 l => exact ⟨l, rfl, h, hstirred⟩
  | case2 l bytes hbytes hlate => exact absurd (hP.clock h) (Nat.not_lt.mpr hlate)
  | case3 l bytes hbytes hlate l₁ hgone =>
      obtain ⟨h₁, -⟩ := hP.letRun h (by simp [hbytes])
      rw [hP.isGone h₁] at hgone
      cases hgone
  | case4 l bytes hbytes hlate l₁ hgone hfull =>
      obtain ⟨-, hroom⟩ := hP.letRun h (by simp [hbytes])
      exact absurd hfull (Nat.ne_of_gt hroom)
  | case5 l bytes hbytes hlate l₁ hgone hfull ih =>
      obtain ⟨h₁, -⟩ := hP.letRun h (by simp [hbytes])
      refine ih ?_ rfl
      apply hP.push
      rw [← List.append_assoc, List.take_append_drop]
      exact h₁

theorem Accepting.sendFrame (hP : Accepting s deadline P) {f : Frame}
    (hf : f.isAnnounceable = true) (h : P (f.encode ++ more) l) :
    ∃ l', l.sendFrame s deadline f = (.done, l') ∧ P more l' ∧ l'.isStirred = true := by
  rw [Line.sendFrame, Frame.pack_of_isAnnounceable hf]
  dsimp only
  rw [Line.send, hP.isGone h]
  refine hP.sendRest ?_ rfl
  apply hP.push
  rw [← List.append_assoc, List.take_append_drop]
  exact h

theorem send_of_sendFrame {f : Frame} {l' : Line ω τ}
    (h : l.sendFrame s deadline f = (.done, l')) :
    f.isAnnounceable = true ∧ l.send s deadline f.encode = (.done, l') := by
  rw [Line.sendFrame, Frame.pack] at h
  cases hf : f.isAnnounceable with
  | true => exact ⟨rfl, by simpa [hf] using h⟩
  | false => simp [hf] at h

end Line

namespace ClientCall

variable {ω τ : Type} {s : Service ω τ} {P : List UInt8 → Line ω τ → Prop} {more : List UInt8}
  {call : ClientCall ω τ}

theorem write_accepting (call : ClientCall ω τ) (hP : Line.Accepting s call.deadline P) {f : Frame}
    (hf : f.isAnnounceable = true) (h : P (f.encode ++ more) call.line) :
    ∃ l, call.write s f = (.ok (), { call with line := l }) ∧ P more l ∧ l.isStirred = true := by
  obtain ⟨l, hsend, hl, hstirred⟩ := hP.sendFrame hf h
  refine ⟨l, ?_, hl, hstirred⟩
  rw [write, hsend]

theorem transmit_go_accepting (hP : Line.Accepting s call.deadline P) (p : Plan)
    (parcels : List Parcel)
    (hall : ∀ q ∈ parcels, (Frame.message (.chunk q.chunk)).isAnnounceable = true)
    (h : P (Frame.encodeAll (parcels.map fun q => .message (.chunk q.chunk)) ++ more) call.line) :
    ∃ l, Plan.transmit.go (fun call => call.line.isDue none)
          (fun c call => call.send s (.chunk c)) p parcels call =
        (p.ending, { call with line := l }) ∧
      P more l := by
  induction parcels generalizing call with
  | nil => exact ⟨call.line, rfl, h⟩
  | cons parcel parcels ih =>
      rw [List.map_cons, Frame.encodeAll_cons, List.append_assoc] at h
      obtain ⟨hparcel, hall⟩ := List.forall_mem_cons.mp hall
      obtain ⟨l, hwrite, hl, -⟩ := write_accepting call hP hparcel h
      have hsend : call.send s (.chunk parcel.chunk) = (.ok (), { call with line := l }) := hwrite
      obtain ⟨l', hgo, hl'⟩ := @ih { call with line := l } hP hall hl
      refine ⟨l', ?_, hl'⟩
      rw [Plan.transmit.go, if_neg (show ¬ call.line.isDue none = true from Bool.false_ne_true),
        hsend]
      exact hgo

theorem transmit_accepting (hP : Line.Accepting s call.deadline P) (p : Plan)
    (hall : ∀ k ∈ p.chunks, (Frame.message (.chunk k)).isAnnounceable = true)
    (h : P (Frame.encodeAll (p.chunks.map fun c => .message (.chunk c)) ++ more) call.line) :
    ∃ l, p.transmit (fun call => call.line.isDue none)
          (fun c call => call.send s (.chunk c)) call =
        (p.ending, { call with line := l }) ∧
      P more l := by
  rw [Plan.chunks, List.map_map] at h
  exact transmit_go_accepting hP p p.parcels (List.forall_mem_map.mp hall) h

end ClientCall

/-! ### Receiving -/

inductive Ending
  | closed (status : Status)
  /-- A frame that servers do not send. -/
  | misplaced (f : Frame)
  /-- The stream ends, and nothing has been said about the call. -/
  | ended
  | unreadable (e : ReadFault)
  deriving DecidableEq

/-- Whether an end of the messages is something that was said, and not just the end of the stream. -/
def Ending.isSaid : Ending → Bool
  | .closed _ | .misplaced _ => true
  | .ended => false
  | .unreadable e => e.isInvalidData

/-- Whether a client has got all messages when they end like this, and the error of the call if not.
-/
def Ending.verdict (method : Method) (timeout : Duration) : Ending → Except Error Unit
  | .closed status => if status.isOk then .ok () else .error (.ofStatus status timeout)
  | .misplaced f => .error (.protocol s!"unexpected {f.name} frame from server")
  | .ended => .error (.transport s!"{method.name} stream ended without a status")
  | .unreadable e =>
    let text := s!"{method.name}: {e.text}"
    .error (if e.isInvalidData then .serialization text else .transport text)

namespace Line

/-- What an arrival that is no message says about the end of the messages. When the client has not
waited for it, it says nothing. -/
def Arrival.ending : Arrival → Option Ending
  | .frame (.message _) => none
  | .frame (.close status) => some (.closed status)
  | .frame f => some (.misplaced f)
  | .ended => some .ended
  | .fault e => some (.unreadable e)
  | .late | .called => none

theorem receive_ne_called {ω τ : Type} (s : Service ω τ) (l : Line ω τ) (limit deadline : Nat) :
    (l.receive s limit deadline none).1 ≠ .called := by
  fun_induction Line.receive s limit deadline none l with
  | case1 l r hpick =>
      rw [Line.pick] at hpick
      split at hpick <;> cases hpick <;> simp
  | case2 l _ hdue => cases hdue
  | case3 l => simp
  | case4 l _ _ _ _ ih => exact ih
  | case5 l => simp [await]

/-- The messages that a client gets to read on a line, and how they end. -/
inductive Yields {ω τ : Type} (s : Service ω τ) (limit deadline : Nat) (called : Option Nat) :
    Line ω τ → List Message → Ending → Prop
  | message {l l' : Line ω τ} {m : Message} {ms : List Message} {e : Ending} :
      l.receive s limit deadline called = (.frame (.message m), l') →
      Yields s limit deadline called l' ms e → Yields s limit deadline called l (m :: ms) e
  | ending {l l' : Line ω τ} {a : Arrival} {e : Ending} :
      l.receive s limit deadline called = (a, l') → a.ending = some e →
      Yields s limit deadline called l [] e

theorem Yields.of_receive_eq {ω τ : Type} {s : Service ω τ} {limit deadline : Nat}
    {called : Option Nat} {l l' : Line ω τ} {ms : List Message} {e : Ending}
    (h : l'.Yields s limit deadline called ms e)
    (heq : l.receive s limit deadline called = l'.receive s limit deadline called) :
    l.Yields s limit deadline called ms e := by
  cases h with
  | message hreceive hrest => exact .message (heq.trans hreceive) hrest
  | ending hreceive he => exact .ending (heq.trans hreceive) he

end Line

namespace Frame

/-- The messages in front of some frames, and how they end: with the first frame that is none, or
behind all frames with the stream, which may have a fault there. -/
def untilEnding (fault : Option ReadFault) : List Frame → List Message × Ending
  | [] => ([], match fault with
    | none => .ended
    | some e => .unreadable e)
  | .message m :: fs => (m :: (untilEnding fault fs).1, (untilEnding fault fs).2)
  | .close status :: _ => ([], .closed status)
  | f :: _ => ([], .misplaced f)

def responses (limit : Nat) (bytes : List UInt8) : List Message × Ending :=
  untilEnding (readAll limit bytes).2 (readAll limit bytes).1

theorem untilEnding_of_ending {fault : Option ReadFault} {f : Frame} {fs : List Frame} {e : Ending}
    (h : (Line.Arrival.frame f).ending = some e) : untilEnding fault (f :: fs) = ([], e) := by
  cases f <;> cases h <;> rfl

theorem untilEnding_eq_closed_iff {fault : Option ReadFault} {fs : List Frame} {ms : List Message}
    {status : Status} :
    untilEnding fault fs = (ms, .closed status) ↔
      ∃ later, fs = ms.map .message ++ .close status :: later := by
  induction fs generalizing ms with
  | nil => cases fault <;> simp [untilEnding]
  | cons f fs ih =>
      cases ms with
      | nil => cases f <;> simp [untilEnding]
      | cons m ms =>
          cases f with
          | message m' =>
              simp only [untilEnding, Prod.mk.injEq, List.cons.injEq, List.map_cons,
                List.cons_append, Frame.message.injEq, exists_and_left]
              rw [and_assoc, ← ih, Prod.ext_iff]
          | opening | halfClose | cancel | close => simp [untilEnding]

end Frame

theorem Ending.verdict_eq_ok_iff {e : Ending} {method : Method} {timeout : Duration} :
    e.verdict method timeout = .ok () ↔ ∃ status, status.isOk = true ∧ e = .closed status := by
  cases e with
  | closed status => simp [verdict]
  | misplaced | ended | unreadable => simp [verdict]

namespace Frame

variable {limit : Nat} {bytes : List UInt8} {method : Method} {timeout : Duration}

/-- All messages were got exactly when a closing frame with a good status stands behind them. -/
theorem accepted_iff {ms : List Message} :
    (responses limit bytes).1 = ms ∧ (responses limit bytes).2.verdict method timeout = .ok () ↔
      ∃ status later, status.isOk = true ∧
        (readAll limit bytes).1 = ms.map .message ++ .close status :: later := by
  rw [Ending.verdict_eq_ok_iff]
  constructor
  · rintro ⟨hms, status, hok, hend⟩
    obtain ⟨later, hlater⟩ := untilEnding_eq_closed_iff.mp (Prod.ext hms hend)
    exact ⟨status, later, hok, hlater⟩
  · rintro ⟨status, later, hok, hall⟩
    have hresponses : responses limit bytes = (ms, .closed status) :=
      untilEnding_eq_closed_iff.mpr ⟨later, hall⟩
    exact ⟨congrArg Prod.fst hresponses, status, hok, congrArg Prod.snd hresponses⟩

theorem bind_accepted_iff {α β : Type} {take : List Message → Except Error α}
    {finish : α → Except Error β} {b : β} :
    ((take (responses limit bytes).1).bind fun a =>
        ((responses limit bytes).2.verdict method timeout).bind fun _ => finish a) = .ok b ↔
      ∃ (ms : List Message) (status : Status) (later : List Frame) (a : α), status.isOk = true ∧
        (readAll limit bytes).1 = ms.map .message ++ .close status :: later ∧
        take ms = .ok a ∧ finish a = .ok b := by
  constructor
  · intro h
    obtain ⟨a, ha, h⟩ := exists_of_bind_eq_ok h
    obtain ⟨u, hu, hb⟩ := exists_of_bind_eq_ok h
    obtain ⟨status, later, hok, hall⟩ := accepted_iff.mp ⟨rfl, hu⟩
    exact ⟨_, status, later, a, hok, hall, ha, hb⟩
  · rintro ⟨ms, status, later, a, hok, hall, ha, hb⟩
    obtain ⟨hms, hu⟩ := accepted_iff.mpr ⟨status, later, hok, hall⟩
    rw [hms, ha, hu]
    exact hb

end Frame

namespace ClientCall

variable {ω τ α : Type} {s : Service ω τ} {called : Option Nat} {call call' : ClientCall ω τ}
  {accept : Message → α → Except Error α}

theorem receiveAll_of_message {m : Message} (a : α)
    (h : call.receiveUnless s called = (.message m, call')) :
    call.receiveAll s called accept a =
      match accept m a with
      | .error err => (.error err, call')
      | .ok a => call'.receiveAll s called accept a := by
  rw [receiveAll]
  split <;> rename_i heq <;> rw [h] at heq <;> cases heq
  rfl

theorem receiveAll_of_ended (a : α) (h : call.receiveUnless s called = (.ended, call')) :
    call.receiveAll s called accept a = (.ok a, call') := by
  rw [receiveAll]
  split <;> rename_i heq <;> rw [h] at heq <;> cases heq
  rfl

theorem receiveAll_of_failed {err : Error} (a : α)
    (h : call.receiveUnless s called = (.failed err, call')) :
    call.receiveAll s called accept a = (.error err, call') := by
  rw [receiveAll]
  split <;> rename_i heq <;> rw [h] at heq <;> cases heq
  rfl

theorem receiveUnless_ne_called (s : Service ω τ) (call : ClientCall ω τ) :
    (call.receiveUnless s none).1 ≠ .called := by
  have hread : (call.read s none).1 ≠ .called :=
    Line.receive_ne_called s call.line call.limit call.deadline
  unfold receiveUnless
  split
  · simp
  · split
    case h_7 hr =>
      rw [hr] at hread
      exact absurd rfl hread
    case h_2 =>
      dsimp only
      split <;> simp
    all_goals simp

/-- What no reception takes from a line is still there when the reason for a failed write has been
searched for. -/
theorem line_explainBroken {P : Line ω τ → Prop} (e : WriteFault)
    (hP : ∀ l limit deadline, P l → P (l.receive s limit deadline none).2) (h : P call.line) :
    P (call.explainBroken s e).2.line := by
  have hread (c : ClientCall ω τ) (hc : P c.line) : P (c.read s none).2.line :=
    hP c.line c.limit c.deadline hc
  fun_induction explainBroken s e call with
  | case1 c status c' hr | case2 c status c' hr =>
      have hnext := hread c h
      rwa [hr] at hnext
  | case3 c m c' hr ih =>
      have hnext := hread c h
      rw [hr] at hnext
      exact ih hnext
  | case4 c c' hr =>
      have hnext := hread c h
      rwa [hr] at hnext
  | case5 c a c' =>
      rename_i hr
      have hnext := hread c h
      rwa [hr] at hnext

theorem read_eq {arrival : Line.Arrival} {l : Line ω τ}
    (h : call.line.receive s call.limit call.deadline called = (arrival, l)) :
    call.read s called = (arrival, { call with line := l }) := by
  rw [read, h]

theorem receiveAll_of_ending {arrival : Line.Arrival} {l : Line ω τ} {e : Ending} (a : α)
    (hfinished : call.finished = false)
    (h : call.line.receive s call.limit call.deadline called = (arrival, l))
    (he : arrival.ending = some e) :
    (call.receiveAll s called accept a).1 =
      (e.verdict call.method call.timeout).map fun _ => a := by
  have hunless := receiveUnless.eq_1 s called call
  rw [if_neg (by simp [hfinished]), read_eq h] at hunless
  cases arrival with
  | frame f =>
      cases f with
      | message m => cases he
      | close status =>
          cases he
          cases hok : status.isOk with
          | true =>
              simp only [hok, if_true] at hunless
              rw [receiveAll_of_ended a hunless, Ending.verdict, if_pos hok]
              rfl
          | false =>
              simp only [hok, Bool.false_eq_true, if_false] at hunless
              rw [receiveAll_of_failed a hunless, Ending.verdict, if_neg (by simp [hok])]
              rfl
      | opening | halfClose | cancel =>
          cases he
          rw [receiveAll_of_failed a hunless]
          rfl
  | ended | fault =>
      cases he
      rw [receiveAll_of_failed a hunless]
      rfl
  | late | called => cases he

/-- The client takes in the messages, one after another, and then their end decides. -/
theorem receiveAll_of_yields (call : ClientCall ω τ) (accept : Message → α → Except Error α) (a : α)
    {ms : List Message} {e : Ending} (hfinished : call.finished = false)
    (h : call.line.Yields s call.limit call.deadline called ms e) :
    (call.receiveAll s called accept a).1 =
      (ms.foldlM (fun a m => accept m a) a).bind fun a =>
        (e.verdict call.method call.timeout).map fun _ => a := by
  obtain ⟨method, timeout, deadline, limit, finished, line⟩ := call
  cases hfinished
  change line.Yields s limit deadline called ms e at h
  induction h generalizing a with
  | ending hreceive he => exact receiveAll_of_ending a rfl hreceive he
  | @message l l' m ms e hreceive _ ih =>
      have hunless : receiveUnless s called ⟨method, timeout, deadline, limit, false, l⟩ =
          (.message m, ⟨method, timeout, deadline, limit, false, l'⟩) := by
        rw [receiveUnless, if_neg Bool.false_ne_true, read_eq hreceive]
      rw [receiveAll_of_message a hunless, List.foldlM_cons]
      cases accept m a with
      | error err => rfl
      | ok a' => exact ih a'

theorem exists_line_of_write {f : Frame} (h : call.write s f = (.ok (), call')) :
    ∃ l, call' = { call with line := l } := by
  rw [write] at h
  split at h
  rename_i sending l hsend
  cases sending with
  | done =>
      cases h
      exact ⟨l, rfl⟩
  | late | broken => cases h

theorem exists_line_of_dial {n : Network ω} {method : Method} {timeout : Duration} {limit : Nat}
    (h : dial s n method timeout limit = .ok call) :
    ∃ l, call = ⟨method, timeout, Duration.deadline n.clock timeout, limit, false, l⟩ := by
  rw [dial] at h
  dsimp only at h
  split at h
  · cases h
  · cases h
  · split at h
    · rename_i hwrite
      cases h
      exact exists_line_of_write hwrite
    · cases h

theorem request_of_yields {n : Network ω} {method : Method} {m : Message} {timeout : Duration}
    {limit : Nat} {sent closed : ClientCall ω τ} {ms : List Message} {e : Ending}
    (hdial : dial s n method timeout limit = .ok call) (hsend : call.send s m = (.ok (), sent))
    (hclose : sent.halfClose s = (.ok (), closed))
    (h : closed.line.Yields s limit closed.deadline none ms e) :
    (request s n method m timeout limit).1 = (e.verdict method timeout).map fun _ => ms := by
  have hcollect (done : List Message) :
      ms.foldlM (fun ms m => (.ok (ms ++ [m]) : Except Error (List Message))) done =
        .ok (done ++ ms) := by
    clear h
    induction ms generalizing done with
    | nil => rw [List.append_nil]; rfl
    | cons m ms ih => exact (ih (done ++ [m])).trans (by rw [List.append_assoc]; rfl)
  obtain ⟨l, rfl⟩ := exists_line_of_dial hdial
  obtain ⟨l₁, rfl⟩ := exists_line_of_write hsend
  obtain ⟨l₂, rfl⟩ := exists_line_of_write hclose
  rw [request, within, hdial]
  dsimp only
  rw [ask, hsend]
  dsimp only
  rw [hclose]
  dsimp only
  rw [receiveAll_of_yields _ _ _ rfl h, hcollect]
  rfl

end ClientCall

/-! ### Computations -/

namespace Client

variable {ω τ : Type} {s : Service ω τ} {c : Client} {p : Plan} {y : Yield}
  {call : ClientCall ω τ}

theorem cancel_eq (x : Transcript ω τ) : (x.cancel s fun _ => id).call = x.call.cancel s := by
  unfold ClientCall.cancel Transcript.cancel
  split <;> rfl

theorem transmit_eq :
    c.transmit s p call =
      match p.transmit (fun call => call.line.isDue c.called)
        (fun k call => call.send s (.chunk k)) call with
      | (.error (.cancelled m), call) => (.error (.cancelled m), call.cancel s)
      | r => r := by
  have hwrite (k : Chunk) (x : Transcript ω τ) : x.call.send s (.chunk k) =
      ((x.write s (fun _ => id) (.message (.chunk k))).1,
        (x.write s (fun _ => id) (.message (.chunk k))).2.call) := rfl
  have hmap : p.transmit (fun call => call.line.isDue c.called)
      (fun k call => call.send s (.chunk k)) call = _ :=
    Plan.transmit_map Transcript.call (fun _ => rfl) hwrite p (.opened (fun _ => id) call)
  rw [hmap, transmit, transmitAmid]
  obtain ⟨e | _, x⟩ := p.transmit _ _ _
  · cases e with
    | cancelled m => simp only [cancel_eq]
    | _ => rfl
  · rfl

theorem exchange_eq :
    c.exchange s p y call =
      match c.transmit s p call with
      | (.error e, call) => (.error e, call)
      | (.ok (), call) =>
        match call.halfClose s with
        | (.error e, call) => (.error e, call)
        | (.ok (), call) => c.collect s y call := by
  rw [exchange, exchangeAmid, transmit]
  obtain ⟨e | _, x⟩ := c.transmitAmid s (fun _ => id) p (.opened (fun _ => id) call)
  · rfl
  · have hwrite : x.call.halfClose s =
        ((x.write s (fun _ => id) .halfClose).1, (x.write s (fun _ => id) .halfClose).2.call) := rfl
    dsimp only
    rw [hwrite]
    obtain ⟨e | _, x⟩ := x.write s (fun _ => id) .halfClose <;> rfl

end Client

theorem Client.exchange_of_yields {ω τ : Type} {s : Service ω τ} {c : Client} {p : Plan} (y : Yield)
    {call sent closed : ClientCall ω τ} {ms : List Message} {e : Ending}
    (htransmit : c.transmit s p call = (.ok (), sent))
    (hclose : sent.halfClose s = (.ok (), closed)) (hfinished : closed.finished = false)
    (h : closed.line.Yields s closed.limit closed.deadline c.called ms e) :
    (c.exchange s p y call).1 =
      (ms.foldlM (fun r m => Assembly.receive y m r) (.start c.variableList c.blockList y)).bind
        fun r => (e.verdict closed.method closed.timeout).bind fun _ => r.finish := by
  have hreceive : (c.exchange s p y call).1 =
      (closed.receiveAll s c.called (Assembly.receive y)
        (.start c.variableList c.blockList y)).1.bind fun r => r.finish := by
    rw [exchange_eq, htransmit]
    dsimp only
    rw [hclose]
    rfl
  rw [hreceive, ClientCall.receiveAll_of_yields closed _ _ hfinished h]
  cases ms.foldlM (fun r m => Assembly.receive y m r) (.start c.variableList c.blockList y) with
  | error e => rfl
  | ok r => cases e.verdict closed.method closed.timeout <;> rfl

/-- The client sends everything that was planned, and then puts the results together. -/
theorem Client.exchange_accepting {ω τ : Type} {s : Service ω τ} {P : List UInt8 → Line ω τ → Prop}
    {c : Client} (call : ClientCall ω τ) (hP : Line.Accepting s call.deadline P) {p : Plan}
    (y : Yield) (hending : p.ending = .ok ()) (hcalled : c.called = none)
    (hall : ∀ k ∈ p.chunks, (Frame.message (.chunk k)).isAnnounceable = true)
    (h : P (Frame.encodeAll ((p.chunks.map fun k => .message (.chunk k)) ++ [.halfClose]))
      call.line) :
    ∃ l, P [] l ∧ l.isStirred = true ∧
      c.exchange s p y call =
        (({ call with line := l }.receiveAll s none (Assembly.receive y)
            (.start c.variableList c.blockList y)).1.bind fun r => r.finish,
          ({ call with line := l }.receiveAll s none (Assembly.receive y)
            (.start c.variableList c.blockList y)).2) := by
  rw [Frame.encodeAll_append] at h
  obtain ⟨l₁, htransmit, hl₁⟩ := ClientCall.transmit_accepting hP p hall h
  have hrest : P (Frame.halfClose.encode ++ []) l₁ := hl₁
  obtain ⟨l₂, hclose, hl₂, hstirred⟩ :=
    ClientCall.write_accepting { call with line := l₁ } hP (f := .halfClose) (by decide) hrest
  refine ⟨l₂, hl₂, hstirred, ?_⟩
  have hhalfClose : ClientCall.halfClose s { call with line := l₁ } =
      (.ok (), { call with line := l₂ }) := hclose
  have hsent : c.transmit s p call = (.ok (), { call with line := l₁ }) := by
    rw [Client.transmit_eq, hcalled, htransmit, hending]
  rw [Client.exchange_eq, hsent]
  dsimp only
  rw [hhalfClose]
  dsimp only
  rw [Client.collect, hcalled]
  rfl

end RemoteDiscipline
