import RemoteDiscipline.Proofs.Answering
import RemoteDiscipline.Proofs.Calling
/-!
How a client gets a request across, and what it reads afterwards.

While a client sends, the pieces of its request are on their way, with the connection, or still with
the client, and together they are the request (`Line.Underway`). When there is no room for more, the
connection goes on and makes some. The client's first look for an answer lets the connection settle;
from then on the whole reply lies before the client (`Line.Brings`), and nothing that it does changes
the world of the server any more (`Line.Quiet`).
-/

namespace RemoteDiscipline

namespace Line

variable {σ : Type} {e : Errand σ} {timeout deadline : Nat} {limits : Limits}
  {bytes more : List UInt8} {l : Line (Host σ) Host.Task}

/-! ### Sending -/

/-- A line on which a request is being sent, of which `more` has not been put on its way. -/
structure Underway (e : Errand σ) (timeout : Nat) (limits : Limits) (deadline : Nat)
    (more : List UInt8) (l : Line (Host σ) Host.Task) : Prop where
  far : ∃ c, l.far = .hosted c ∧ Errand.Connected limits c ∧ c.isEnded = false ∧ c.output = [] ∧
    Errand.Along e timeout (l.sent.reverse.flatten ++ more) l.world c
  incoming : l.incoming = []
  clock : l.clock < deadline
  capacity : 0 < l.capacity

theorem Underway.isGone (h : Underway e timeout limits deadline more l) : l.far.isGone = false := by
  obtain ⟨c, hfar, -, hopen, -⟩ := h.far
  rw [hfar, FarEnd.isGone]
  cases hphase : c.phase with
  | closed =>
      rw [Connection.isEnded, hphase] at hopen
      cases hopen
  | opening | serving | lingering => rfl

theorem Underway.push (h : Underway e timeout limits deadline (bytes ++ more) l) :
    Underway e timeout limits deadline more (l.push bytes) := by
  obtain ⟨c, hfar, hconnected, hopen, houtput, halong⟩ := h.far
  refine ⟨⟨c, hfar, hconnected, hopen, houtput, ?_⟩, h.incoming, h.clock, h.capacity⟩
  show Errand.Along e timeout ((bytes :: l.sent).reverse.flatten ++ more) l.world c
  rw [List.reverse_cons, List.flatten_append, List.append_assoc]
  simpa using halong

theorem Underway.settle (hp : e.Passes timeout limits)
    (h : Underway e timeout limits deadline more l) (waiting : Option Nat)
    (hreads : more = [] → waiting = none) :
    ∃ c w' c', l.far = .hosted c ∧
      (c.arrive l.sent.reverse.flatten).settle Host.service l.clock waiting l.world = (w', c') ∧
      Errand.Along e timeout more w' c' ∧ Errand.Connected limits c' ∧
      (more ≠ [] ∧ Errand.Paused c' ∨ more = [] ∧ e.Answered w' c') := by
  obtain ⟨c, hfar, hconnected, -, -, halong⟩ := h.far
  have harrived : Errand.Connected limits (c.arrive l.sent.reverse.flatten) :=
    ⟨hconnected.limits, hconnected.inputEnded, hconnected.abandoned⟩
  exact ⟨c, _, _, hfar, rfl, halong.arrive.settle hp harrived hreads rfl⟩

/-- When the client cannot send, the connection takes what there is, and then there is room. -/
theorem Underway.letRun (hp : e.Passes timeout limits)
    (h : Underway e timeout limits deadline more l) (hmore : more ≠ []) :
    Underway e timeout limits deadline more (l.letRun Host.service false) ∧
      0 < (l.letRun Host.service false).window := by
  obtain ⟨c, w', c', hfar, hsettle, halong, hconnected, ⟨-, hpaused⟩ | ⟨hnil, -⟩⟩ :=
    h.settle hp (some l.incoming.length) fun hnil => absurd hnil hmore
  -- A connection that waits for more has said nothing, so taking its output leaves it as it is.
  · have hsame : { c' with output := [] } = c' := by
      rw [← hpaused.output]
    have hrun : l.letRun Host.service false = { l with
        world := w'
        far := .hosted c'
        sent := []
        window := l.capacity
        isStirred := false } := by
      simp only [Line.letRun, hfar, FarEnd.arrive, FarEnd.settle, Bool.false_eq_true, if_false,
        hsettle, FarEnd.takeOutput, Connection.takeOutput, hpaused.output, hsame, FarEnd.isTaking,
        hpaused.isTaking, if_true, FarEnd.isReplying, List.reverse_nil, List.flatten_nil,
        List.append_nil]
    rw [hrun]
    refine ⟨⟨⟨c', rfl, hconnected, hpaused.isOpen, hpaused.output, halong⟩, h.incoming, h.clock,
      h.capacity⟩, h.capacity⟩
  · exact absurd hnil hmore

theorem accepting_underway (hp : e.Passes timeout limits) :
    Accepting Host.service deadline (Underway e timeout limits deadline) where
  isGone h := h.isGone
  clock h := h.clock
  push h := h.push
  letRun h hmore := h.letRun hp hmore

/-! ### Receiving -/

/-- A line to a connection that has answered. -/
structure Quiet (w : Host σ) (l : Line (Host σ) Host.Task) : Prop where
  lingering : ∃ c, l.far = .hosted c ∧ c.phase = .lingering
  world : l.world = w

/-- A line on which some frames wait for the client, and nothing else comes. -/
structure Brings (w : Host σ) (frames : List Frame) (l : Line (Host σ) Host.Task) : Prop
    extends Quiet w l where
  incoming : l.incoming = Frame.encodeAll frames

variable {w : Host σ} {frames : List Frame} {limit : Nat}

theorem Underway.answered (hp : e.Passes timeout limits)
    (h : Underway e timeout limits deadline [] l) :
    Quiet e.left (l.letRun Host.service true) ∧
      ((∀ f ∈ e.reply, f.isAnnounceable = true) →
        (l.letRun Host.service true).incoming = Frame.encodeAll e.reply) := by
  obtain ⟨c, w', c', hfar, hsettle, -, -, ⟨hnil, -⟩ | ⟨-, hanswered⟩⟩ := h.settle hp none fun _ => rfl
  · exact absurd rfl hnil
  · have hrun : (l.letRun Host.service true).far = .hosted { c' with output := [] } ∧
        (l.letRun Host.service true).world = w' ∧
        (l.letRun Host.service true).incoming = l.incoming ++ c'.output.reverse.flatten := by
      simp only [Line.letRun, hfar, FarEnd.arrive, FarEnd.settle, if_true, hsettle,
        FarEnd.takeOutput, Connection.takeOutput, and_self]
    obtain ⟨hfar', hworld, hincoming⟩ := hrun
    refine ⟨⟨⟨_, hfar', hanswered.phase⟩, hworld.trans hanswered.world⟩, fun hall => ?_⟩
    rw [hincoming, h.incoming, hanswered.output hall]
    rfl

/-- A connection that has answered makes no more steps. -/
theorem Quiet.letRun (h : Quiet w l) : Quiet w (l.letRun Host.service true) := by
  obtain ⟨⟨c, hfar, hphase⟩, hworld⟩ := h
  have hsettle : (c.arrive l.sent.reverse.flatten).settle Host.service l.clock none l.world =
      (l.world, c.arrive l.sent.reverse.flatten) := by
    have hstep : (c.arrive l.sent.reverse.flatten).step Host.service l.clock none l.world = none := by
      rw [Connection.step, Connection.arrive, hphase]
    rw [Connection.settle]
    split
    · rename_i h
      rw [hstep] at h
      cases h
    · rfl
  have hrun : (l.letRun Host.service true).far =
        .hosted { c.arrive l.sent.reverse.flatten with output := [] } ∧
      (l.letRun Host.service true).world = l.world := by
    simp only [Line.letRun, hfar, FarEnd.arrive, FarEnd.settle, if_true, hsettle,
      FarEnd.takeOutput, Connection.takeOutput, and_self]
  exact ⟨⟨_, hrun.1, hphase⟩, hrun.2.trans hworld⟩

theorem Quiet.receive (h : Quiet w l) : Quiet w (l.receive Host.service limit deadline none).2 := by
  fun_induction Line.receive Host.service limit deadline none l with
  | case1 l r hpick =>
      rw [Line.pick] at hpick
      split at hpick <;> cases hpick <;> exact ⟨h.lingering, h.world⟩
  | case2 l _ hdue => cases hdue
  | case3 l => exact ⟨h.lingering, h.world⟩
  | case4 l _ _ _ _ ih => exact ih h.letRun
  | case5 l => exact ⟨h.lingering, h.world⟩

theorem Brings.receive {f : Frame} (h : Brings w (f :: frames) l) (hf : f.Travels limit) :
    ∃ l', l.receive Host.service limit deadline none = (.frame f, l') ∧ Brings w frames l' := by
  obtain ⟨c, hfar, hphase⟩ := h.lingering
  have hpick : l.pick limit =
      some (.frame f, { l with incoming := Frame.encodeAll frames }) := by
    rw [Line.pick, h.incoming, Frame.encodeAll_cons, Frame.read_encode hf]
  refine ⟨{ l with incoming := Frame.encodeAll frames }, ?_, ⟨h.lingering, h.world⟩, rfl⟩
  rw [Line.receive]
  split
  · rename_i h
    rw [hpick] at h
    cases h
    rfl
  · rename_i h
    rw [hpick] at h
    cases h

theorem Underway.receive (h : Underway e timeout limits deadline [] l) (hstirred : l.isStirred = true) :
    l.receive Host.service limit deadline none =
      (l.letRun Host.service true).receive Host.service limit deadline none := by
  obtain ⟨c, hfar, -, hopen, -⟩ := h.far
  have hpick : l.pick limit = none := by
    rw [Line.pick, hfar, FarEnd.isEnded, hopen, h.incoming]
    rfl
  rw [Line.receive]
  split
  · rename_i h
    rw [hpick] at h
    cases h
  · rw [if_neg (show ¬ l.isDue none = true from Bool.false_ne_true), if_neg (Nat.not_le.mpr h.clock),
      dif_pos hstirred]

/-- A line on which the client awaits some frames: those in front lie before it, or it has not looked
for an answer yet. -/
inductive Awaits (e : Errand σ) (timeout : Nat) (limits : Limits) (deadline : Nat) :
    List Frame → Line (Host σ) Host.Task → Prop
  | first {l : Line (Host σ) Host.Task} :
      Underway e timeout limits deadline [] l → l.isStirred = true →
      Awaits e timeout limits deadline e.reply l
  | next {frames : List Frame} {l : Line (Host σ) Host.Task} :
      Brings e.left frames l → Awaits e timeout limits deadline frames l

theorem Awaits.receive (hp : e.Passes timeout limits)
    (hall : ∀ f ∈ e.reply, f.isAnnounceable = true) {f : Frame}
    (h : Awaits e timeout limits deadline (f :: frames) l) (hf : f.Travels limit) :
    ∃ l', l.receive Host.service limit deadline none = (.frame f, l') ∧
      Awaits e timeout limits deadline frames l' := by
  generalize hframes : f :: frames = all at h
  cases h with
  | first hunderway hstirred =>
      obtain ⟨hquiet, hincoming⟩ := hunderway.answered hp
      have hbrings : Brings _ e.reply _ := ⟨hquiet, hincoming hall⟩
      rw [← hframes] at hbrings
      rw [hunderway.receive hstirred]
      obtain ⟨l', hreceive, hrest⟩ := hbrings.receive hf
      exact ⟨l', hreceive, .next hrest⟩
  | next hbrings =>
      rw [← hframes] at hbrings
      obtain ⟨l', hreceive, hrest⟩ := hbrings.receive hf
      exact ⟨l', hreceive, .next hrest⟩

theorem Awaits.quiet (hp : e.Passes timeout limits)
    (h : Awaits e timeout limits deadline frames l) :
    Quiet e.left (l.receive Host.service limit deadline none).2 := by
  cases h with
  | first hunderway hstirred =>
      rw [hunderway.receive hstirred]
      exact (hunderway.answered hp).1.receive
  | next hbrings => exact hbrings.toQuiet.receive

theorem Quiet.hangUp (h : Quiet w l) : (l.hangUp Host.service).world = w := by
  obtain ⟨⟨c, hfar, hphase⟩, hworld⟩ := h
  have hleft : Quiet w { l with
      far := (l.far.arrive l.sent.reverse.flatten).hangUp
      sent := [] } := by
    refine ⟨⟨(c.arrive l.sent.reverse.flatten).hangUp, ?_, hphase⟩, hworld⟩
    rw [hfar]
    rfl
  exact hleft.letRun.world

end Line

/-! ### Calls -/

namespace ClientCall

theorem dial_underway {σ : Type} {e : Errand σ} {limits : Limits} {timeout : Duration}
    {n : Network (Host σ)} (hp : e.Passes timeout.announced limits) (limit : Nat)
    (hremote : n.remote = .inProcess limits) (hhost : n.world = e.host) (htimeout : 0 < timeout) :
    ∃ call, dial Host.service n e.method timeout limit = .ok call ∧
      call.finished = false ∧ call.limit = limit ∧
      Line.Underway e timeout.announced limits call.deadline
        (Frame.encodeAll (e.messages.map .message ++ [.halfClose])) call.line := by
  have hdial : (Line.dial n (Duration.deadline n.clock timeout) : Line.Dialled (Host σ) Host.Task) =
      .connected (.ofFarEnd n (.hosted (.fresh limits)) pipeBytes) := by
    rw [Line.dial, hremote]
  have hstart : Line.Underway e timeout.announced limits (Duration.deadline n.clock timeout)
      (Frame.encodeAll (e.request timeout.announced))
      (.ofFarEnd n (.hosted (.fresh limits)) pipeBytes) := by
    refine ⟨⟨_, rfl, ⟨rfl, rfl, rfl⟩, rfl, rfl, ?_⟩, rfl, Duration.lt_deadline n.clock htimeout, ?_⟩
    · show Errand.Along e timeout.announced _ n.world _
      rw [hhost]
      exact .opening rfl rfl rfl
    · exact Nat.zero_lt_of_lt (show 1 < pipeBytes by decide)
  obtain ⟨l, hwrite, hl, -⟩ := write_accepting
    ⟨e.method, timeout, Duration.deadline n.clock timeout, limit, false,
      .ofFarEnd n (.hosted (.fresh limits)) pipeBytes⟩ (Line.accepting_underway hp)
    (hp.travels _ List.mem_cons_self).isAnnounceable hstart
  refine ⟨⟨e.method, timeout, Duration.deadline n.clock timeout, limit, false, l⟩, ?_,
    rfl, rfl, hl⟩
  rw [ClientCall.dial, hdial]
  dsimp only
  rw [hwrite]

variable {σ : Type} {e : Errand σ} {timeout : Nat} {limits : Limits} {more : List UInt8}
  {w : Host σ} {call : ClientCall (Host σ) Host.Task}

theorem receiveUnless_eq (hfinished : call.finished = false) {a : Line.Arrival}
    {l : Line (Host σ) Host.Task}
    (hreceive : call.line.receive Host.service call.limit call.deadline none = (a, l)) :
    ∃ r b, call.receiveUnless Host.service none = (r, { call with finished := b, line := l }) ∧
      (∀ m, r = .message m → b = false) ∧ r ≠ .called := by
  have hcalled : a ≠ .called := by
    have := call.line.receive_ne_called Host.service call.limit call.deadline
    rwa [hreceive] at this
  obtain ⟨method, timeout, deadline, limit, finished, line⟩ := call
  cases hfinished
  have hread : (⟨method, timeout, deadline, limit, false, line⟩ : ClientCall _ _).read Host.service
      none = (a, ⟨method, timeout, deadline, limit, false, l⟩) := by
    rw [read, hreceive]
  rw [receiveUnless, hread]
  cases a with
  | frame f =>
      cases f with
      | message m => exact ⟨.message m, false, rfl, fun _ _ => rfl, by simp⟩
      | close status =>
          refine ⟨_, true, rfl, ?_, ?_⟩
          · split <;> simp
          · split <;> simp
      | opening | halfClose | cancel => exact ⟨.failed _, false, rfl, by simp, by simp⟩
  | ended | fault | late => exact ⟨.failed _, false, rfl, by simp, by simp⟩
  | called => exact absurd rfl hcalled

theorem quiet_receiveUnless (hfinished : call.finished = false)
    (h : Line.Quiet w (call.line.receive Host.service call.limit call.deadline none).2)
    {r : Received} {call' : ClientCall (Host σ) Host.Task}
    (hr : call.receiveUnless Host.service none = (r, call')) :
    Line.Quiet w call'.line ∧ (∀ m, r = .message m → call'.finished = false) ∧ r ≠ .called := by
  obtain ⟨a, l, hreceive⟩ : ∃ a l, call.line.receive Host.service call.limit call.deadline none =
      (a, l) := ⟨_, _, rfl⟩
  obtain ⟨r', b, heq, hmessage, hcalled⟩ := receiveUnless_eq hfinished hreceive
  rw [hreceive] at h
  rw [heq] at hr
  cases hr
  exact ⟨h, hmessage, hcalled⟩

/-- Whatever the client makes of a reply, the world of a server that has answered stays as it is. -/
theorem quiet_receiveAll {α : Type} (accept : Message → α → Except Error α) (a : α)
    (call : ClientCall (Host σ) Host.Task) (hfinished : call.finished = false)
    (h : Line.Quiet w (call.line.receive Host.service call.limit call.deadline none).2) :
    Line.Quiet w (call.receiveAll Host.service none accept a).2.line := by
  fun_induction ClientCall.receiveAll Host.service none accept a call with
  | case1 a c m c' hreceive e haccept => exact (quiet_receiveUnless hfinished h hreceive).1
  | case2 a c m c' hreceive a' haccept ih =>
      obtain ⟨hquiet, hmessage, -⟩ := quiet_receiveUnless hfinished h hreceive
      exact ih (hmessage m rfl) hquiet.receive
  | case3 a c c' hreceive => exact (quiet_receiveUnless hfinished h hreceive).1
  | case4 a c e c' hreceive => exact (quiet_receiveUnless hfinished h hreceive).1
  | case5 a c c' hreceive =>
      exact absurd rfl (quiet_receiveUnless hfinished h hreceive).2.2

theorem yields_awaits (hp : e.Passes timeout limits)
    (hall : ∀ f ∈ e.reply, f.isAnnounceable = true) {limit deadline : Nat}
    {messages : List Message} {status : Status} {l : Line (Host σ) Host.Task}
    (h : Line.Awaits e timeout limits deadline (messages.map .message ++ [.close status]) l)
    (hfits : ∀ f ∈ messages.map Frame.message ++ [.close status], f.Travels limit) :
    l.Yields Host.service limit deadline none messages (.closed status) := by
  induction messages generalizing l with
  | nil =>
      obtain ⟨l', hreceive, -⟩ := h.receive hp hall (hfits _ (by simp))
      exact .ending hreceive rfl
  | cons m messages ih =>
      obtain ⟨l', hreceive, hrest⟩ := h.receive hp hall (hfits _ (by simp))
      exact .message hreceive (ih hrest fun f hf => hfits f (by simp [hf]))

end ClientCall

end RemoteDiscipline
