import RemoteDiscipline.Client.Compute
import RemoteDiscipline.Proofs.Assembly
import RemoteDiscipline.Proofs.Evaluations
import RemoteDiscipline.Proofs.Sizes
import RemoteDiscipline.Proofs.Transfer
/-!
What a computation comes to for the client that makes it.

The client's values travel in pieces of the client's size, the hook runs once on what they amount to, and
the results travel back in pieces of the server's size. `Client.compute_exact` says that nothing of
this changes a value: the hook sees what was given, and zeros elsewhere, and the client returns what
the hook has left.
-/

namespace RemoteDiscipline

/-! ### The errand of a client -/

/-- Whether a host lets computations in at once. -/
structure Host.IsFree {σ : Type} (h : Host σ) : Prop where
  linked : h.linked = true
  /-- Nobody waits for a turn. -/
  line : ∀ g, h.gate = some g → g.line = []

namespace Host

variable {σ : Type} {h : Host σ}

theorem IsFree.exists_ticket (hfree : h.IsFree) (k : Computation) :
    ∃ ticket, (h.letIn (.compute k)).2 = .queued k ticket ∧
      (h.letIn (.compute k)).1.hasTurn ticket = true := by
  obtain ⟨linked, lifecycle, gate⟩ := h
  obtain ⟨hlinked, hline⟩ := hfree
  cases hlinked
  cases gate with
  | none => exact ⟨none, rfl, rfl⟩
  | some g =>
      refine ⟨some g.next, rfl, ?_⟩
      show decide ((g.line ++ [g.next]).head? = some g.next) = true
      rw [hline g rfl]
      simp

theorem IsFree.exists_evaluation (hfree : h.IsFree) {k : Computation}
    (hserved : k.servedBy h.lifecycle.kind) (hready : h.lifecycle.state = .ready)
    {messages : List Message} {b : Arguments}
    (hb : (Arguments.zeros h.lifecycle.metadata k).receiveAll h.lifecycle.metadata k messages =
      .ok b) :
    ∃ e : Evaluation σ, e.host = h ∧ e.computation = k ∧ e.messages = messages ∧
      (e.outcome.2.release e.ticket).lifecycle = { h.lifecycle with
        memory := (h.lifecycle.discipline.compute k b (h.lifecycle.metadata.buffers k.yield)
          h.lifecycle.memory).2 } ∧
      ∀ values, (h.lifecycle.discipline.compute k b (h.lifecycle.metadata.buffers k.yield)
          h.lifecycle.memory).1 = .ok values →
        e.outcome.1 = .ok (Plan.reply h.lifecycle.metadata h.lifecycle.chunkSize k values) := by
  obtain ⟨ticket, hletIn, hturn⟩ := hfree.exists_ticket k
  have hlifecycle := lifecycle_letIn h (.compute k)
  have htaken : (h.letIn (.compute k)).1.snapshot k =
      .ok ⟨h.lifecycle.metadata, h.lifecycle.chunkSize, h.lifecycle.generation⟩ := by
    rw [snapshot_eq_ok_iff, hlifecycle]
    exact ⟨hserved, hready, rfl⟩
  have hcurrent : (h.letIn (.compute k)).1.requireCurrent
      ⟨h.lifecycle.metadata, h.lifecycle.chunkSize, h.lifecycle.generation⟩ = .ok () := by
    rw [requireCurrent, Lifecycle.requireReady, hlifecycle, if_pos hready]
    exact if_pos rfl
  let e : Evaluation σ := ⟨h, k, ticket, _, messages, b, hletIn, hturn, htaken, hb⟩
  have houtcome : e.outcome = _ := evaluate_of_ok hcurrent k b
  rw [hlifecycle] at houtcome
  refine ⟨e, rfl, rfl, rfl, ?_, ?_⟩
  · rw [lifecycle_release, houtcome]
  · intro values hvalues
    rw [houtcome, hvalues]
    rfl

end Host

/-! ### What the client sends -/

namespace Client

structure Knows (c : Client) (m : Metadata) : Prop where
  hasDefinitions : c.hasDefinitions = true
  variableList : c.variableList = m.variableList
  blockList : c.blockList = m.blockList

variable {c : Client} {m : Metadata} {k : Computation} {a : Arguments}

theorem selected_eq (hknows : c.Knows m) {role : Role} {values : Variables}
    (hsized : ∀ v ∈ m.variableList.filter (fun v => v.role = role), ∀ x,
      values.find? v.name = some x → x.length = v.shape.count) :
    c.selected role values =
      .ok (Arguments.given role values (m.variableList.filter fun v => v.role = role)) := by
  rw [selected, hknows.hasDefinitions, hknows.variableList]
  show selected.select role values _ = _
  generalize m.variableList.filter (fun v => v.role = role) = infos at hsized
  induction infos with
  | nil => rfl
  | cons v infos ih =>
      have hrest := ih fun w hw => hsized w (List.mem_cons_of_mem v hw)
      rw [selected.select, Arguments.given, List.filterMap_cons]
      cases hx : values.find? v.name with
      | none => exact hrest
      | some x =>
          dsimp only
          rw [if_pos (hsized v (by simp) x hx), hrest]
          rfl

theorem outgoing_eq (hknows : c.Knows m) (ha : a.Sized m k) :
    c.outgoing k a = .ok (Arguments.outgoing m k a) := by
  rw [outgoing, selected_eq hknows ha.1, Arguments.outgoing]
  dsimp only
  by_cases htakes : k.takesOutputs
  · rw [if_pos htakes, if_pos htakes, selected_eq hknows (ha.2 htakes)]
    rfl
  · rw [if_neg htakes, if_neg htakes, List.append_nil]
    rfl

end Client

/-! ### The conversation -/

section Conversation

variable {σ : Type} {e : Evaluation σ} {limits : Limits} {n : Network (Host σ)} {c : Client}
  {a : Arguments} {given : List (Tag × Variable)}

/-- The client makes a computation that the host takes in. -/
theorem Client.compute_errand (hp : e.errand.Passes c.config.timeout.announced limits)
    (hremote : n.remote = .inProcess limits) (hhost : n.world = e.host)
    (houtgoing : c.outgoing e.computation a = .ok given)
    (hmessages : e.messages = Arguments.messages c.config.chunkSize given)
    (hsize : 1 ≤ c.config.chunkSize) (hcalled : c.called = none) (htimeout : 0 < c.config.timeout) :
    (c.compute Host.service e.computation a n).2.world = e.outcome.2.release e.ticket ∧
      (e.status = .ok → (∀ f ∈ e.errand.reply, f.Travels c.config.maxFrameBytes) →
        (c.compute Host.service e.computation a n).1 =
          (e.chunks.foldlM (fun r k => Assembly.accept k e.computation.yield r)
            (.start c.variableList c.blockList e.computation.yield)).bind fun r => r.finish) := by
  obtain ⟨hending, hchunks⟩ := Plan.sends_ofVariables given hsize
  obtain ⟨call, hdial, hfinished, hlimit, hunderway⟩ := ClientCall.dial_underway hp
    c.config.maxFrameBytes hremote hhost htimeout
  have hdial : ClientCall.dial Host.service n (.compute e.computation) c.config.timeout
      c.config.maxFrameBytes = .ok call := hdial
  have hplanned : e.errand.messages.map Frame.message =
      (Plan.ofVariables given c.config.chunkSize).chunks.map fun k => .message (.chunk k) := by
    show e.messages.map Frame.message = _
    rw [hmessages, hchunks, Arguments.messages, List.map_flatMap, List.map_flatMap]
    simp only [List.map_map, Function.comp_def]
  have hallowed : ∀ k ∈ (Plan.ofVariables given c.config.chunkSize).chunks, (Frame.message (.chunk k)).isAnnounceable = true := by
    intro k hk
    refine (hp.travels (.message (.chunk k)) ?_).isAnnounceable
    rw [Errand.request, hplanned]
    simp [hk]
  rw [hplanned] at hunderway
  obtain ⟨l, hl, hstirred, hexchange⟩ := Client.exchange_accepting (c := c) call
    (Line.accepting_underway hp) e.computation.yield hending hcalled hallowed hunderway
  have hawaits : Line.Awaits e.errand c.config.timeout.announced limits call.deadline
      e.errand.reply l :=
    .first hl hstirred
  have hcompute : c.compute Host.service e.computation a n =
      ((c.exchange Host.service (Plan.ofVariables given c.config.chunkSize)
          e.computation.yield call).1,
        (c.exchange Host.service (Plan.ofVariables given c.config.chunkSize)
          e.computation.yield call).2.hangUp Host.service) := by
    rw [Client.compute, houtgoing]
    dsimp only
    rw [ClientCall.within, hdial]
  rw [hcompute, hexchange]
  constructor
  -- Whatever the client makes of the reply, the host has done its errand and is left alone.
  · have hquiet := ClientCall.quiet_receiveAll (Assembly.receive e.computation.yield)
      (.start c.variableList c.blockList e.computation.yield) { call with line := l } hfinished
      (hawaits.quiet hp)
    exact hquiet.hangUp
  · intro hstatus hfits
    have hall : ∀ f ∈ e.errand.reply, f.isAnnounceable = true := fun f hf => (hfits f hf).isAnnounceable
    have hreply : e.errand.reply = (e.chunks.map .chunk).map .message ++ [.close .ok] := by
      rw [Errand.reply, ← hstatus]
      rfl
    rw [hreply] at hawaits hfits
    have hyields := ClientCall.yields_awaits hp hall hawaits hfits
    rw [← hlimit] at hyields
    have hreceived := ClientCall.receiveAll_of_yields { call with line := l }
      (Assembly.receive e.computation.yield)
      (.start c.variableList c.blockList e.computation.yield) hfinished hyields
    dsimp only
    rw [hreceived, List.foldlM_map]
    show ((e.chunks.foldlM (fun r k => Assembly.accept k e.computation.yield r) _).bind _).bind _ = _
    cases e.chunks.foldlM (fun r k => Assembly.accept k e.computation.yield r)
        (Assembly.start c.variableList c.blockList e.computation.yield) with
    | error err => rfl
    | ok r => rfl

end Conversation

/-! ### The frames on the way -/

def Client.request (c : Client) (m : Metadata) (k : Computation) (a : Arguments) : List Frame :=
  .opening protocolVersion (.compute k) c.config.timeout.announced ::
    ((Arguments.messages c.config.chunkSize (Arguments.outgoing m k a)).map .message ++ [.halfClose])

def Metadata.answer (m : Metadata) (size : Nat) (k : Computation) (values : k.Values) : List Frame :=
  ((m.outcomes k.yield values).flatMap (Outcome.pieces size)).map (fun c => .message (.chunk c)) ++
    [.close .ok]

/-- Whether the positions in a value can be counted with 64 bits and a sign, as they can in all values
that a machine holds. -/
def Variable.IsCountable (x : Variable) : Prop := x.length < 0x8000_0000_0000_0000

section Frames

variable {m : Metadata} {k : Computation} {limit : Nat}

theorem Variable.IsCountable.isInteger_piece {x : Variable} (hx : x.IsCountable) (tag : Tag)
    (size i : Nat) : Wire.Format.IsInteger (x.piece tag size i).start ∧
      Wire.Format.IsInteger (x.piece tag size i).stop := by
  rw [IsCountable] at hx
  have hstart := Chunk.position_le x.length size i
  have hstop := Chunk.position_le x.length size (i + 1)
  constructor
  · show Wire.Format.IsInteger (Chunk.position x.length size i : Nat)
    constructor <;> omega
  · show Wire.Format.IsInteger (if Chunk.position x.length size (i + 1) ≤
      Chunk.position x.length size i then _ else _)
    split <;> constructor <;> omega

theorem Variable.IsCountable.travels_piece {x : Variable} (hx : x.IsCountable) {tag : Tag}
    {size i : Nat} (h : Frame.IsAllowed limit (.message (.chunk (x.piece tag size i)))) :
    Frame.Travels limit (.message (.chunk (x.piece tag size i))) :=
  Frame.InRange.travels (f := .message (.chunk _)) (hx.isInteger_piece tag size i) h

theorem Client.travels_request {c : Client} {a : Arguments}
    (hcountable : ∀ p ∈ Arguments.outgoing m k a, p.2.IsCountable)
    (h : ∀ f ∈ c.request m k a, f.IsAllowed limit) : ∀ f ∈ c.request m k a, f.Travels limit := by
  intro f hf
  have hallowed := h f hf
  simp only [request, List.mem_cons, List.mem_append, List.mem_map, Arguments.messages,
    List.mem_flatMap, List.not_mem_nil, or_false] at hf
  obtain rfl | ⟨x, ⟨p, hp, piece, hpiece, rfl⟩, rfl⟩ | rfl := hf
  · exact ⟨hallowed, by decide, c.config.timeout.announced_lt⟩
  · obtain ⟨i, -, rfl⟩ := List.mem_map.mp hpiece
    exact (hcountable p hp).travels_piece hallowed
  · exact ⟨hallowed, trivial⟩

theorem Metadata.travels_answer {size : Nat} {values : k.Values}
    (hvalues : Outcome.AllThere (m.outcomes k.yield values))
    (hcountable : ∀ o ∈ m.outcomes k.yield values, ∀ x, o.value = some x → x.IsCountable)
    (h : ∀ f ∈ m.answer size k values, f.IsAllowed limit) :
    ∀ f ∈ m.answer size k values, f.Travels limit := by
  intro f hf
  have hallowed := h f hf
  simp only [answer, List.mem_append, List.mem_map, List.mem_flatMap, List.mem_singleton] at hf
  obtain ⟨piece, ⟨o, ho, hpiece⟩, rfl⟩ | rfl := hf
  · obtain ⟨x, hx, -⟩ := hvalues o ho
    rw [Outcome.pieces, hx] at hpiece
    obtain ⟨i, -, rfl⟩ := List.mem_map.mp hpiece
    exact (hcountable o ho x hx).travels_piece hallowed
  · have hfits : "".utf8ByteSize < 0x1_0000_0000_0000_0000 := by decide
    exact ⟨hallowed, hfits⟩

end Frames

/-! ### The whole computation -/

/-- A computation of a client that sends what the declarations of a ready discipline ask for, whatever
it expects itself. If the hook leaves all declared results, the client takes in their pieces. -/
theorem Client.compute_of_outgoing {σ : Type} {d : Discipline σ} {memory : σ}
    {ops : List Operation} {n : Network (Host (σ × List HookCall))} {config : ServerConfig}
    {c : Client} {k : Computation} {a : Arguments}
    (hlifecycle : n.world.lifecycle = (Lifecycle.register d.recorded (memory, [])).run ops)
    (hready : n.world.lifecycle.state = .ready) (hserved : k.servedBy d.kind)
    (hfree : n.world.IsFree) (hremote : n.remote = .inProcess config.limits)
    (houtgoing : c.outgoing k a = .ok (Arguments.outgoing n.world.lifecycle.metadata k a))
    (hsize : 1 ≤ c.config.chunkSize) (hcalled : c.called = none) (htimeout : 0 < c.config.timeout)
    (ha : a.Sized n.world.lifecycle.metadata k)
    (hcountable : ∀ p ∈ Arguments.outgoing n.world.lifecycle.metadata k a, p.2.IsCountable)
    (hrequest : ∀ f ∈ c.request n.world.lifecycle.metadata k a, f.IsAllowed config.maxFrameBytes) :
    ∃ b, Arguments.Conveys n.world.lifecycle.metadata k a b ∧
      (c.compute Host.service k a n).2.world.lifecycle = { n.world.lifecycle with
        memory :=
          ((d.compute k b (n.world.lifecycle.metadata.buffers k.yield)
              n.world.lifecycle.memory.1).2,
            n.world.lifecycle.memory.2 ++
              [.compute k b (n.world.lifecycle.metadata.buffers k.yield)]) } ∧
      ∀ values,
        (d.compute k b (n.world.lifecycle.metadata.buffers k.yield)
            n.world.lifecycle.memory.1).1 = .ok values →
        Outcome.AllThere (n.world.lifecycle.metadata.outcomes k.yield values) →
        (∀ o ∈ n.world.lifecycle.metadata.outcomes k.yield values,
          ∀ x, o.value = some x → x.IsCountable) →
        (∀ f ∈ n.world.lifecycle.metadata.answer n.world.lifecycle.chunkSize k values,
          f.IsAllowed c.config.maxFrameBytes) →
        (c.compute Host.service k a n).1 =
          (((n.world.lifecycle.metadata.outcomes k.yield values).flatMap
              (Outcome.pieces n.world.lifecycle.chunkSize)).foldlM
            (fun r piece => Assembly.accept piece k.yield r)
            (.start c.variableList c.blockList k.yield)).bind fun r => r.finish := by
  obtain ⟨hsound, hdiscipline⟩ :=
    (Lifecycle.sound_register d.recorded (memory, [])).run ops
  rw [← hlifecycle] at hsound hdiscipline
  have hkind : k.servedBy n.world.lifecycle.kind := by
    rw [Lifecycle.kind, hdiscipline]
    exact hserved
  -- The request makes the arguments for the hook, and the host is free to run it on them.
  obtain ⟨b, hb, hconveys⟩ := Arguments.receiveAll_outgoing (hsound.valid hready) ha hsize
  obtain ⟨e, hhost, rfl, hmessages, hworld, houtcome⟩ := hfree.exists_evaluation hkind hready hb
  have hp : e.errand.Passes c.config.timeout.announced config.limits := by
    refine ⟨Nat.le_max_left 1 config.channelCapacity, ?_⟩
    have htravels := Client.travels_request hcountable hrequest
    rw [Client.request, ← hmessages] at htravels
    exact htravels
  obtain ⟨hleft, hgot⟩ := Client.compute_errand hp hremote hhost.symm houtgoing hmessages hsize
    hcalled htimeout
  rw [hdiscipline] at hworld houtcome
  refine ⟨b, hconveys, ?_, ?_⟩
  · rw [hleft]
    exact hworld
  · intro values hvalues hthere hheld hanswer
    have hplan := houtcome values hvalues
    obtain ⟨hending, hchunks⟩ := Plan.sends_reply hthere hsound.chunkSize
    have hpieces : e.chunks = (n.world.lifecycle.metadata.outcomes e.computation.yield values).flatMap
        (Outcome.pieces n.world.lifecycle.chunkSize) := by
      rw [Evaluation.chunks, hplan, ← hchunks]
    have hstatus : e.status = .ok := by
      rw [Evaluation.status, hplan]
      show Plan.status (Plan.ending _) = _
      rw [hending]
      rfl
    have hreply : e.errand.reply = n.world.lifecycle.metadata.answer n.world.lifecycle.chunkSize
        e.computation values := by
      show (e.chunks.map Message.chunk).map Frame.message ++ [.close e.status] = _
      rw [hpieces, hstatus, Metadata.answer, List.map_map]
      rfl
    rw [hgot hstatus (by rw [hreply]; exact Metadata.travels_answer hthere hheld hanswer), hpieces]

/-- A computation of a client that knows the declarations of a ready discipline and that is neither
called away nor short of time, on a connection where no frame is too large. The hook runs exactly once,
on what was given for the declared variables and on zeros elsewhere, however it
ends. If it leaves all declared results with their declared lengths, the client returns just these. The
sizes of the chunks in the two directions do not matter. -/
theorem Client.compute_exact {σ : Type} {d : Discipline σ} {memory : σ} {ops : List Operation}
    {n : Network (Host (σ × List HookCall))} {config : ServerConfig} {c : Client} {k : Computation}
    {a : Arguments}
    (hlifecycle : n.world.lifecycle = (Lifecycle.register d.recorded (memory, [])).run ops)
    (hready : n.world.lifecycle.state = .ready) (hserved : k.servedBy d.kind)
    (hfree : n.world.IsFree) (hremote : n.remote = .inProcess config.limits)
    (hknows : c.Knows n.world.lifecycle.metadata) (hsize : 1 ≤ c.config.chunkSize)
    (hcalled : c.called = none) (htimeout : 0 < c.config.timeout)
    (ha : a.Sized n.world.lifecycle.metadata k)
    (hcountable : ∀ p ∈ Arguments.outgoing n.world.lifecycle.metadata k a, p.2.IsCountable)
    (hrequest : ∀ f ∈ c.request n.world.lifecycle.metadata k a, f.IsAllowed config.maxFrameBytes) :
    ∃ b, Arguments.Conveys n.world.lifecycle.metadata k a b ∧
      (c.compute Host.service k a n).2.world.lifecycle = { n.world.lifecycle with
        memory :=
          ((d.compute k b (n.world.lifecycle.metadata.buffers k.yield)
              n.world.lifecycle.memory.1).2,
            n.world.lifecycle.memory.2 ++
              [.compute k b (n.world.lifecycle.metadata.buffers k.yield)]) } ∧
      ∀ values,
        (d.compute k b (n.world.lifecycle.metadata.buffers k.yield)
            n.world.lifecycle.memory.1).1 = .ok values →
        Outcome.AllThere (n.world.lifecycle.metadata.outcomes k.yield values) →
        (∀ o ∈ n.world.lifecycle.metadata.outcomes k.yield values,
          ∀ x, o.value = some x → x.IsCountable) →
        (∀ f ∈ n.world.lifecycle.metadata.answer n.world.lifecycle.chunkSize k values,
          f.IsAllowed c.config.maxFrameBytes) →
        ∃ got, (c.compute Host.service k a n).1 = .ok got ∧
          n.world.lifecycle.metadata.Returns k.yield values got := by
  obtain ⟨hsound, -⟩ := (Lifecycle.sound_register d.recorded (memory, [])).run ops
  rw [← hlifecycle] at hsound
  obtain ⟨b, hconveys, hleft, hgot⟩ := Client.compute_of_outgoing hlifecycle hready hserved hfree
    hremote (Client.outgoing_eq hknows ha) hsize hcalled htimeout ha hcountable hrequest
  refine ⟨b, hconveys, hleft, fun values hvalues hthere hheld hanswer => ?_⟩
  -- What the hook has left is sent in full, so the client can put it together again.
  obtain ⟨r, got, hfold, hfinish, hreturns⟩ :=
    Assembly.returns_of_pieces (hsound.valid hready) hsound.chunkSize k.yield hthere
  refine ⟨got, ?_, hreturns⟩
  rw [hgot values hvalues hthere hheld hanswer, hknows.variableList, hknows.blockList, hfold]
  exact hfinish

/-- A discipline with one input and one output of two values, which takes over its input. -/
def Discipline.copying : Discipline Unit where
  kind := .explicit
  setup s := .declare (.input "x" [2] "") fun _ => .declare (.output "y" [2] "") fun _ =>
    .done (.ok (), s)
  compute
    | .function, arguments, values, s =>
      (.ok (((arguments.inputs.find? "x").map fun x => values.insert "y" x).getD values), s)
    | _, _, values, s => (.ok values, s)

def Lifecycle.copying : Lifecycle (Unit × List HookCall) :=
  (Lifecycle.register Discipline.copying.recorded ((), [])).run [.initialise, .setup]

def Variable.pair : Variable := ⟨.input, [2], [⟨1⟩, ⟨2⟩], rfl⟩

def Arguments.pair : Arguments := ⟨.ofList [("x", .pair)], .ofList []⟩

section Copying

theorem Variable.isCountable_pair : Variable.pair.IsCountable :=
  show 2 < 0x8000_0000_0000_0000 by decide

theorem Arguments.find?_pair : Arguments.pair.inputs.find? "x" = some .pair :=
  Table.find?_insert_self _ _ _

theorem Arguments.sized_pair : Arguments.pair.Sized Lifecycle.copying.metadata .function := by
  refine ⟨?_, nofun⟩
  intro v hv y hy
  change v ∈ [(⟨"x", .input, [2], ""⟩ : VariableInfo)] at hv
  rw [List.mem_singleton] at hv
  subst hv
  cases find?_pair.symm.trans hy
  rfl

theorem Arguments.isCountable_of_outgoing_pair :
    ∀ p ∈ Arguments.outgoing Lifecycle.copying.metadata .function .pair, p.2.IsCountable := by
  intro p hp
  change p ∈ Arguments.given .input Arguments.pair.inputs [⟨"x", .input, [2], ""⟩] ++ [] at hp
  rw [List.append_nil, Arguments.given, List.filterMap_cons, find?_pair] at hp
  rw [List.mem_singleton.mp hp]
  exact Variable.isCountable_pair

theorem Discipline.compute_copying {b : Arguments}
    (hconveys : Arguments.Conveys Lifecycle.copying.metadata .function .pair b) :
    (copying.compute .function b (Lifecycle.copying.metadata.buffers (.vectors .output)) ()).1 =
      .ok (Lifecycle.copying.metadata.outputBuffers.insert "y" .pair) := by
  have hx : b.inputs.find? "x" = some .pair := by
    rw [hconveys.inputs, Arguments.find?_pair]
    rfl
  show Except.ok _ = _
  rw [hx]
  rfl

theorem Lifecycle.outcome_copying : ∀ o ∈ copying.metadata.outcomes (.vectors .output)
    (copying.metadata.outputBuffers.insert "y" .pair), o.value = some .pair ∧ o.shape.count = 2 := by
  intro o ho
  change o ∈ [(⟨.ofVariable "y" .output, "y", [2], _⟩ : Outcome)] at ho
  rw [List.mem_singleton] at ho
  subst ho
  exact ⟨Table.find?_insert_self _ _ _, rfl⟩

end Copying

/-- A client that cuts its values after each of them gets them back from a server that does not. -/
theorem Client.compute_copied :
    let l := (Lifecycle.register Discipline.copying.recorded ((), [])).run [.initialise, .setup]
    let n : Network (Host (Unit × List HookCall)) :=
      ⟨0, ⟨true, l, none⟩, .inProcess ({} : ServerConfig).limits, []⟩
    let c : Client := { config := { chunkSize := 1 }
                        variableList := l.metadata.variableList
                        blockList := l.metadata.blockList
                        hasDefinitions := true }
    let x : Variable := ⟨.input, [2], [⟨1⟩, ⟨2⟩], rfl⟩
    l.state = .ready ∧ l.chunkSize ≠ 1 ∧
      ∃ got, (c.compute Host.service .function ⟨.ofList [("x", x)], .ofList []⟩ n).1 = .ok got ∧
        (Table.find? (got : Variables) "y").map (·.data) = some [⟨1⟩, ⟨2⟩] := by
  intro l n c x
  have hrequest : ∀ f ∈ c.request l.metadata .function .pair,
      (Wire.frame.write f).length < 0x1_0000_0000 ∧
        (Wire.frame.write f).length ≤ defaultMaxFrameBytes := by
    decide +kernel
  obtain ⟨b, hconveys, -, hvalues⟩ := Client.compute_exact (n := n) (c := c) (k := .function)
    (a := .pair)
    (show n.world.lifecycle = (Lifecycle.register Discipline.copying.recorded ((), [])).run
      [.initialise, .setup] from rfl)
    rfl rfl ⟨rfl, by simp [n]⟩ (show n.remote = .inProcess ({} : ServerConfig).limits from rfl)
    ⟨rfl, rfl, rfl⟩ (by decide) rfl (by decide) Arguments.sized_pair
    Arguments.isCountable_of_outgoing_pair (fun f hf => ⟨(hrequest f hf).1, (hrequest f hf).2⟩)
  have hanswer : ∀ f ∈ l.metadata.answer l.chunkSize .function
      (l.metadata.outputBuffers.insert "y" x),
      (Wire.frame.write f).length < 0x1_0000_0000 ∧
        (Wire.frame.write f).length ≤ defaultMaxFrameBytes := by
    decide +kernel
  obtain ⟨got, hgot, hreturns⟩ := hvalues _ (Discipline.compute_copying hconveys)
    (fun o ho => ⟨x, (Lifecycle.outcome_copying o ho).1, (Lifecycle.outcome_copying o ho).2.symm⟩)
    (fun o ho y hy => Option.some.inj ((Lifecycle.outcome_copying o ho).1.symm.trans hy) ▸
      Variable.isCountable_pair)
    fun f hf => ⟨(hanswer f hf).1, (hanswer f hf).2⟩
  have hy := hreturns "y"
  refine ⟨rfl, by decide, got, hgot, ?_⟩
  rw [hy, Table.find?_insert_self]
  rfl

end RemoteDiscipline
