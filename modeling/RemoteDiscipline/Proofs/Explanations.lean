import RemoteDiscipline.Proofs.Finishing
/-!
Why something could not be sent.

A client that fails to send something looks through what it has not read yet, and what it finds is
compared here with what a client gets that waits instead. `Line.Unread` says what there is to find:
some messages, the first thing that is none, and the line behind it. Both ways lead through the same
messages to the same thing, and when this is a bad status they end with the same error
(`ClientCall.explanation_agrees`).
-/

namespace RemoteDiscipline

namespace Line

variable {ω τ : Type}

/-- What a client has not read yet: some messages, then the first thing that is no message. The line
is left behind the latter. -/
inductive Unread (s : Service ω τ) (limit deadline : Nat) :
    Line ω τ → List Message → Arrival → Line ω τ → Prop
  | message {l l' l'' : Line ω τ} {m : Message} {ms : List Message} {a : Arrival} :
      l.receive s limit deadline none = (.frame (.message m), l') →
      Unread s limit deadline l' ms a l'' → Unread s limit deadline l (m :: ms) a l''
  | other {l l' : Line ω τ} {a : Arrival} :
      l.receive s limit deadline none = (a, l') → (∀ m, a ≠ .frame (.message m)) →
      Unread s limit deadline l [] a l'

def Arrival.isRefusal : Arrival → Bool
  | .frame (.close status) => !status.isOk
  | _ => false

variable {s : Service ω τ} {limit deadline : Nat} {l l' : Line ω τ} {ms : List Message} {a : Arrival}

/-- There are finitely many messages to be read, because each of them brings the far end closer to
its end or leaves less to read. -/
theorem exists_unread (s : Service ω τ) (limit deadline : Nat) (l : Line ω τ) :
    ∃ ms a l', l.Unread s limit deadline ms a l' := by
  rcases hreceive : l.receive s limit deadline none with ⟨a, l₁⟩
  by_cases ha : ∃ m, a = .frame (.message m)
  · obtain ⟨m, rfl⟩ := ha
    have hless := receive_frame hreceive
    obtain ⟨ms, a, l', h⟩ := exists_unread s limit deadline l₁
    exact ⟨m :: ms, a, l', .message hreceive h⟩
  · exact ⟨[], a, l₁, .other hreceive fun m hm => ha ⟨m, hm⟩⟩
termination_by (l.rank, l.incoming.length)
decreasing_by exact Prod.lex_def.mpr hless

theorem receive_of_read {called : Option Nat} {f : Frame} {rest : List UInt8}
    (h : Frame.read limit l.far.isEnded l.incoming = .frame f rest) :
    l.receive s limit deadline called = (.frame f, { l with incoming := rest }) := by
  rw [receive, pick, h]

theorem receive_of_isEnded (s : Service ω τ) (limit deadline : Nat) (hended : l.far.isEnded = true) :
    ∃ a l', l.receive s limit deadline none = (a, l') ∧ l'.far.isEnded = true ∧
      match Frame.read limit true l.incoming with
      | .frame f rest => a = .frame f ∧ l'.incoming = rest
      | .ended => a = .ended
      | .fault e _ => a = .fault e
      | .waiting => False := by
  cases hread : Frame.read limit true l.incoming with
  | frame f rest =>
      rw [receive_of_read (hended ▸ hread)]
      exact ⟨_, _, rfl, hended, rfl, rfl⟩
  | ended =>
      rw [receive, pick, hended, hread]
      exact ⟨_, _, rfl, hended, rfl⟩
  | fault e rest =>
      rw [receive, pick, hended, hread]
      exact ⟨_, _, rfl, hended, rfl⟩
  | waiting => exact absurd hread Frame.read_ne_waiting

theorem Unread.responses (h : l.Unread s limit deadline ms a l') (hended : l.far.isEnded = true) :
    (Frame.responses limit l.incoming).1 = ms ∧
      a.ending = some (Frame.responses limit l.incoming).2 := by
  induction h with
  | @message l l₁ l₂ m ms a hreceive _ ih =>
      obtain ⟨a', l', hreceive', hended', hread⟩ :=
        receive_of_isEnded (l := l) s limit deadline hended
      obtain ⟨rfl, rfl⟩ := Prod.mk.inj (hreceive.symm.trans hreceive')
      split at hread
      · rename_i f rest hf
        obtain ⟨hframe, rfl⟩ := hread
        cases hframe
        obtain ⟨hms, ha⟩ := ih hended'
        rw [Frame.responses, Frame.readAll_of_read hf]
        exact ⟨congrArg _ hms, ha⟩
      all_goals cases hread
  | @other l l₁ a hreceive ha =>
      obtain ⟨a', l', hreceive', -, hread⟩ := receive_of_isEnded (l := l) s limit deadline hended
      obtain ⟨rfl, rfl⟩ := Prod.mk.inj (hreceive.symm.trans hreceive')
      split at hread
      · rename_i f rest hf
        obtain ⟨rfl, -⟩ := hread
        rw [Frame.responses, Frame.readAll_of_read hf]
        cases f with
        | message m => exact absurd rfl (ha m)
        | opening | halfClose | cancel | close => exact ⟨rfl, rfl⟩
      · rename_i hended
        rw [Frame.responses, Frame.readAll_of_ended hended, hread]
        exact ⟨rfl, rfl⟩
      · rename_i e rest hfault
        rw [Frame.responses, Frame.readAll_of_fault hfault, hread]
        exact ⟨rfl, rfl⟩
      · exact hread.elim

end Line

namespace ClientCall

variable {ω τ : Type} {s : Service ω τ} {c c' : ClientCall ω τ} {ms : List Message}
  {a : Line.Arrival} {l : Line ω τ} {limit deadline : Nat}

def ownError (c : ClientCall ω τ) : WriteFault → Error
  | .oversized length =>
    .serialization s!"{c.method.name}: payload exceeds u32::MAX: {length} bytes"
  | .stream text => .transport s!"{c.method.name}: {text}"

/-- The reason that a client gives when a write has failed with `e` and it then comes upon something
behind the messages. -/
def reason (c : ClientCall ω τ) (e : WriteFault) : Line.Arrival → Error
  | .frame (.close status) => if status.isOk then c.ownError e else .ofStatus status c.timeout
  | .late => .timeout c.timeout.announced s!"{c.method.name} deadline exceeded"
  | _ => c.ownError e

/-! ### The search -/

theorem streamError_true (c : ClientCall ω τ) (text : String) :
    c.streamError true text = .serialization s!"{c.method.name}: {text}" := by
  rw [streamError, if_pos rfl]

theorem streamError_false (c : ClientCall ω τ) (text : String) :
    c.streamError false text = .transport s!"{c.method.name}: {text}" := by
  rw [streamError, if_neg Bool.false_ne_true]

theorem unwritten_eq (c : ClientCall ω τ) (e : WriteFault) : c.unwritten e = c.ownError e := by
  cases e with
  | oversized length =>
      have hjoin : (": payload exceeds u32::MAX: " : String) =
          ": " ++ "payload exceeds u32::MAX: " := rfl
      refine (c.streamError_true _).trans (congrArg _ ?_)
      show c.method.name ++ ": " ++ ("payload exceeds u32::MAX: " ++ toString length ++ " bytes") =
        c.method.name ++ ": payload exceeds u32::MAX: " ++ toString length ++ " bytes"
      rw [hjoin]
      simp only [String.append_assoc]
  | stream reason => exact c.streamError_false reason

theorem explainBroken_of_message {e : WriteFault} {m : Message}
    (h : c.read s none = (.frame (.message m), c')) :
    c.explainBroken s e = c'.explainBroken s e := by
  rw [explainBroken]
  split <;> rename_i heq <;> rw [h] at heq <;> cases heq
  · rfl
  · rename_i hother _
    exact absurd rfl (hother m)

theorem explainBroken_of_other (e : WriteFault)
    (h : c.line.receive s c.limit c.deadline none = (a, l)) (ha : ∀ m, a ≠ .frame (.message m)) :
    c.explainBroken s e =
      (c.reason e a, { c with line := l, finished := c.finished || a.isRefusal }) := by
  rw [explainBroken]
  split <;> rename_i heq <;> rw [read_eq h] at heq <;> cases heq
  case h_1 status =>
    by_cases hok : status.isOk = true
    · simp only [hok, reason, Line.Arrival.isRefusal, unwritten_eq, if_true, Bool.not_true,
        Bool.or_false]
    · simp [hok, reason, Line.Arrival.isRefusal, classify]
  case h_2 m => exact absurd rfl (ha m)
  case h_3 =>
    have hlate : c.overdue = c.reason e .late := rfl
    simp [← hlate, Line.Arrival.isRefusal]
  case h_4 hclose hmessage hlate =>
    have hrefusal : a.isRefusal = false := by
      unfold Line.Arrival.isRefusal
      split
      · exact absurd rfl (hclose _)
      · rfl
    have hreason : c.reason e a = c.ownError e := by
      unfold reason
      split
      · exact absurd rfl (hclose _)
      · exact absurd rfl hlate
      · rfl
    rw [hrefusal, hreason, unwritten_eq, Bool.or_false]

/-- The search leads through the messages, and no further than to what comes behind them. -/
theorem explainBroken_of_unread (c : ClientCall ω τ)
    (h : c.line.Unread s c.limit c.deadline ms a l) :
    (∀ e, c.explainBroken s e =
        (c.reason e a, { c with line := l, finished := c.finished || a.isRefusal })) ∧
      c.searched s = ms.map .message ++ a.frames := by
  obtain ⟨method, timeout, deadline, limit, finished, line⟩ := c
  dsimp only at h
  induction h with
  | message hreceive _ ih =>
      rw [searched_of_message (read_eq hreceive), ih.2]
      exact ⟨fun e => (explainBroken_of_message (read_eq hreceive)).trans (ih.1 e), rfl⟩
  | other hreceive ha =>
      exact ⟨fun e => explainBroken_of_other e hreceive ha, searched_of_other (read_eq hreceive) ha⟩

/-! ### Waiting -/

theorem receive_of_message {m : Message} (hfinished : c.finished = false)
    (h : c.line.receive s c.limit c.deadline none = (.frame (.message m), l)) :
    c.receive s = (.ok (some m), { c with line := l }) := by
  rw [receive, receiveUnless, if_neg (by simp [hfinished]), read_eq h]

theorem receive_of_refusal {status : Status} (hfinished : c.finished = false)
    (hbad : status.isOk = false)
    (h : c.line.receive s c.limit c.deadline none = (.frame (.close status), l)) :
    (c.receive s).1 = .error (.ofStatus status c.timeout) := by
  rw [receive, receiveUnless, if_neg (by simp [hfinished]), read_eq h]
  simp [hbad, classify]

/-- A client that waits instead gets the messages, and then the bad status behind them. -/
theorem receives_of_unread {status : Status} (c : ClientCall ω τ) (hfinished : c.finished = false)
    (h : c.line.Unread s c.limit c.deadline ms (.frame (.close status)) l)
    (hbad : status.isOk = false) :
    (c.deeds s (List.replicate (ms.length + 1) (id, .receive))).map (Deed.answer s) =
      ms.map (fun m => .received (.ok (some m))) ++
        [.received (.error (.ofStatus status c.timeout))] := by
  obtain ⟨method, timeout, deadline, limit, finished, line⟩ := c
  cases hfinished
  dsimp only at h ⊢
  generalize ha : Line.Arrival.frame (.close status) = a at h
  induction h with
  | @message l l₁ l₂ m ms a hreceive _ ih =>
      have hfirst :=
        receive_of_message (c := ⟨method, timeout, deadline, limit, false, l⟩) rfl hreceive
      rw [List.length_cons, List.replicate_succ, deeds, List.map_cons]
      simp only [Deed.answer, Deed.left, perform, id, hfirst]
      exact congrArg _ (ih ha)
  | @other l l₁ a hreceive _ =>
      subst ha
      have hlast := receive_of_refusal (c := ⟨method, timeout, deadline, limit, false, l⟩) rfl hbad
        hreceive
      exact congrArg (fun r => [Answer.received r]) hlast

def Action.frame? : Action → Option Frame
  | .send m => some (.message m)
  | .halfClose => some .halfClose
  | .receive => none

theorem perform_of_frame? {action : Action} {f : Frame} (hf : action.frame? = some f) :
    c.perform s action = (.sent (c.write s f).1, (c.write s f).2) ∧
      (Deed.mk c action).frames s = c.readBehind s f := by
  cases action with
  | send m | halfClose =>
      cases hf
      exact ⟨rfl, rfl⟩
  | receive => cases hf

theorem write_of_broken {f : Frame} {e : WriteFault}
    (h : c.line.sendFrame s c.deadline f = (.broken e, l)) :
    c.write s f = (.error ({ c with line := l }.explainBroken s e).1,
      ({ c with line := l }.explainBroken s e).2) := by
  rw [write, h]

/-- A call on which something could not be sent, whatever there is to be read on its line: there are
some messages, and then something else. Only on a call that is not finished does a client that waits
read on, and so come upon the same. -/
theorem explanation_agrees (s : Service ω τ) (c : ClientCall ω τ) :
    (∃ ms a l, c.line.Unread s c.limit c.deadline ms a l) ∧
    ∀ ms a l, c.line.Unread s c.limit c.deadline ms a l →
      (c.line.far.isEnded = true →
        (Frame.responses c.limit c.line.incoming).1 = ms ∧
          a.ending = some (Frame.responses c.limit c.line.incoming).2) ∧
      (∀ e, c.explainBroken s e =
        (c.reason e a, { c with line := l, finished := c.finished || a.isRefusal })) ∧
      (∀ l₀ action f e, action.frame? = some f →
        l₀.sendFrame s c.deadline f = (.broken e, c.line) →
        let d : Deed ω τ := ⟨{ c with line := l₀ }, action⟩
        d.answer s = .sent (.error (c.reason e a)) ∧
          d.left s = { c with line := l, finished := c.finished || a.isRefusal } ∧
          d.frames s = ms.map .message ++ a.frames) ∧
      ∀ status, a = .frame (.close status) → status.isOk = false → c.finished = false →
        (c.deeds s (List.replicate (ms.length + 1) (id, .receive))).map (Deed.answer s) =
          ms.map (fun m => .received (.ok (some m))) ++
            [.received (.error (.ofStatus status c.timeout))] ∧
        ∀ e, c.reason e a = .ofStatus status c.timeout := by
  refine ⟨Line.exists_unread s c.limit c.deadline c.line, fun ms a l h => ?_⟩
  obtain ⟨hexplained, hsearched⟩ := c.explainBroken_of_unread h
  refine ⟨h.responses, hexplained, ?_, ?_⟩
  · intro l₀ action f e hf hbroken d
    obtain ⟨hperform, hframes⟩ := perform_of_frame? (s := s) (c := { c with line := l₀ }) hf
    rw [write_of_broken hbroken, hexplained] at hperform
    refine ⟨congrArg Prod.fst hperform, congrArg Prod.snd hperform, hframes.trans ?_⟩
    rw [readBehind, hbroken]
    exact hsearched
  · rintro status rfl hbad hfinished
    exact ⟨c.receives_of_unread hfinished h hbad, fun e => by rw [reason, if_neg (by simp [hbad])]⟩

def hungUp (frames : List Frame) : Line Habit Habit.Task :=
  { Line.ofFarEnd ⟨0, .echo, .peers [], []⟩ (.scripted .early) peerBytes with
    incoming := Frame.encodeAll frames }

theorem receive_hungUp {f : Frame} (hf : f.Travels limit) (frames : List Frame) :
    (hungUp (f :: frames)).receive Habit.service limit deadline none = (.frame f, hungUp frames) :=
  Line.receive_of_read (Frame.read_encode hf true _)

theorem sendFrame_hungUp {f : Frame} (hf : f.isAnnounceable = true) (frames : List Frame) :
    (hungUp frames).sendFrame Habit.service deadline f = (Line.hungUp, hungUp frames) := by
  rw [Line.sendFrame, Frame.pack_of_isAnnounceable hf]
  rfl

theorem travels_boom : (Frame.close ⟨.internal, "boom"⟩).Travels defaultMaxFrameBytes :=
  Frame.InRange.travels trivial ⟨by decide, by decide⟩

theorem travels_empty : (Frame.message .empty).Travels defaultMaxFrameBytes :=
  Frame.InRange.travels trivial ⟨by decide, by decide⟩

theorem unread_boom {deadline : Nat} :
    (hungUp [.message .empty, .close ⟨.internal, "boom"⟩]).Unread Habit.service
      defaultMaxFrameBytes deadline [.empty] (.frame (.close ⟨.internal, "boom"⟩)) (hungUp []) :=
  .message (receive_hungUp travels_empty _) (.other (receive_hungUp travels_boom _) (by simp))

/-- A client that says it is done is told what it would have read behind the message. -/
theorem explanation_agrees_after_message :
    let c : ClientCall Habit Habit.Task := ⟨.compute .function, 60000, 60000, defaultMaxFrameBytes,
      false, hungUp [.message .empty, .close ⟨.internal, "boom"⟩]⟩
    let d : Deed Habit Habit.Task := ⟨c, .halfClose⟩
    d.answer Habit.service = .sent (.error (.remote .internal "boom")) ∧
      d.frames Habit.service = [.message .empty, .close ⟨.internal, "boom"⟩] ∧
      (c.deeds Habit.service [(id, .receive), (id, .receive)]).map (Deed.answer Habit.service) =
        [.received (.ok (some .empty)), .received (.error (.remote .internal "boom"))] := by
  intro c d
  obtain ⟨-, hall⟩ := explanation_agrees Habit.service c
  obtain ⟨-, -, hfailed, hwaited⟩ := hall _ _ _ unread_boom
  obtain ⟨hanswer, -, hframes⟩ :=
    hfailed c.line .halfClose .halfClose _ rfl (sendFrame_hungUp (by decide) _)
  exact ⟨hanswer, hframes, (hwaited _ rfl rfl rfl).1⟩

/-- The same frames behind a good closing frame, which the client has read: when something cannot be
sent they are searched through, but a client that waits does not read on. -/
theorem explanation_differs_after_close :
    let c : ClientCall Habit Habit.Task := ⟨.compute .function, 60000, 60000, defaultMaxFrameBytes,
      false, hungUp [.close .ok, .message .empty, .close ⟨.internal, "boom"⟩]⟩
    (c.deeds Habit.service [(id, .receive), (id, .halfClose)]).map (Deed.answer Habit.service) =
        [.received (.ok none), .sent (.error (.remote .internal "boom"))] ∧
      (c.deeds Habit.service [(id, .receive), (id, .receive), (id, .receive)]).map
          (Deed.answer Habit.service) =
        [.received (.ok none), .received (.ok none), .received (.ok none)] := by
  intro c
  have hok : (Frame.close .ok).Travels defaultMaxFrameBytes :=
    Frame.InRange.travels trivial ⟨by decide, by decide⟩
  let c₁ : ClientCall Habit Habit.Task :=
    { c with finished := true, line := hungUp [.message .empty, .close ⟨.internal, "boom"⟩] }
  have hfirst : c.receive Habit.service = (.ok none, c₁) := by
    rw [receive, receiveUnless, if_neg (show ¬ c.finished = true from Bool.false_ne_true),
      read_eq (receive_hungUp hok _)]
    rfl
  have hagain : c₁.receive Habit.service = (.ok none, c₁) :=
    (receive_of_finished Habit.service rfl).1
  have hbroken : (c₁.halfClose Habit.service).1 = .error (.remote .internal "boom") := by
    rw [halfClose, write_of_broken (sendFrame_hungUp (by decide) _),
      (c₁.explainBroken_of_unread unread_boom).1]
    rfl
  simp only [deeds, List.map_cons, List.map_nil, Deed.answer, Deed.left, perform, id, hfirst, hagain,
    hbroken, and_self]

end ClientCall

end RemoteDiscipline
