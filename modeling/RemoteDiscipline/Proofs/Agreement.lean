import RemoteDiscipline.Proofs.Computation
import RemoteDiscipline.Proofs.Exchanges
/-!
What a client returns when it may be wrong about the declarations.

A client with old or foreign declarations gets the reply of a hook that has run, or an error:
whatever it has taken in is a plan that its server has carried out to the end
(`Client.exists_course_of_ok`), and of such a plan it takes only what agrees with its declarations.
So nothing is cut off, filled up or left over from before (`Client.compute_agrees`).
-/

namespace RemoteDiscipline

def Tag.Fits (t : Tag) : Prop :=
  Wire.FitsText t.name ∧ ∀ s, t.inputName = some s → Wire.FitsText s

/-- Whether the results that are declared can be named and counted on the wire, as all results can
that a machine holds. -/
def Metadata.Sendable (m : Metadata) (y : Yield) : Prop :=
  ∀ d ∈ y.declared m.variableList m.blockList,
    (y.tag d.1).Fits ∧ d.2.count < 0x8000_0000_0000_0000

section Courses

variable {σ : Type} {l l' : Lifecycle σ} {k : Computation} {plan : Plan}

theorem Metadata.Sendable.fits {m : Metadata} {values : k.Values} {size : Nat} {c : Chunk}
    (h : m.Sendable k.yield) (hsize : 1 ≤ size) (hc : c ∈ (Plan.reply m size k values).chunks) :
    c.Fits := by
  obtain ⟨o, ho, x, i, hlength, rfl⟩ := Plan.exists_piece_of_reply hsize hc
  rw [Yield.outcomes_eq, List.mem_map] at ho
  obtain ⟨d, hd, rfl⟩ := ho
  obtain ⟨⟨hname, hinput⟩, hcount⟩ := h d hd
  have hx : x.IsCountable := by
    rw [Variable.IsCountable, hlength]
    exact hcount
  obtain ⟨hstart, hstop⟩ := hx.isInteger_piece (k.yield.tag d.1) size i
  refine ⟨hname, hinput, hstart, hstop, ?_⟩
  show ((x.data.drop _).take _).length < _
  rw [List.length_take, List.length_drop]
  rw [Variable.IsCountable, Variable.length] at hx
  omega

theorem Host.Course.fits (h : Host.Course l k l' plan) (hsend : l.metadata.Sendable k.yield)
    (hsize : 1 ≤ l.chunkSize) : ∀ c ∈ plan.chunks, c.Fits := by
  cases h with
  | refused => nofun
  | evaluated b =>
      intro c hc
      cases hvalues : (l.discipline.compute k b (l.metadata.buffers k.yield) l.memory).1 with
      | error f =>
          rw [hvalues] at hc
          cases hc
      | ok values =>
          rw [hvalues] at hc
          exact hsend.fits hsize hc

/-- A plan that ends well is the reply of a hook that has run and left all results. -/
theorem Host.Course.of_ok (h : Host.Course l k l' plan) (hending : plan.ending = .ok ()) :
    ∃ b values, k.servedBy l.kind ∧ l.state = .ready ∧
      (l.discipline.compute k b (l.metadata.buffers k.yield) l.memory).1 = .ok values ∧
      l' = { l with
        memory := (l.discipline.compute k b (l.metadata.buffers k.yield) l.memory).2 } ∧
      plan = Plan.reply l.metadata l.chunkSize k values := by
  cases h with
  | refused => cases hending
  | evaluated b hserved hready =>
      cases hvalues : (l.discipline.compute k b (l.metadata.buffers k.yield) l.memory).1 with
      | error f =>
          rw [hvalues] at hending
          cases hending
      | ok values => exact ⟨b, values, hserved, hready, hvalues, rfl, rfl⟩

end Courses

/-- A computation of a client that may know old declarations, or wrong ones, or none. It fails, or
the hook has run once and everything that it has left for the declared results is returned as it was
left; then the client expects every declared result with as many values as the server declares, and
what it expects beyond these has no values. The sizes of the chunks in the two directions do not
matter, nor does what else happens on the connection. -/
theorem Client.compute_agrees {σ : Type} {d : Discipline σ} {memory : σ} {ops : List Operation}
    {n : Network (Host (σ × List HookCall))} {limits : Limits} {c : Client} {k : Computation}
    {a : Arguments}
    (hlifecycle : n.world.lifecycle = (Lifecycle.register d.recorded (memory, [])).run ops)
    (hremote : n.remote = .inProcess limits)
    (hsend : n.world.lifecycle.metadata.Sendable k.yield) :
    (∃ e, (c.compute Host.service k a n).1 = .error e) ∨
      ∃ got b values, (c.compute Host.service k a n).1 = .ok got ∧
        n.world.lifecycle.state = .ready ∧ k.servedBy d.kind ∧
        (d.compute k b (n.world.lifecycle.metadata.buffers k.yield)
          n.world.lifecycle.memory.1).1 = .ok values ∧
        (c.compute Host.service k a n).2.world.lifecycle = { n.world.lifecycle with
          memory :=
            ((d.compute k b (n.world.lifecycle.metadata.buffers k.yield)
                n.world.lifecycle.memory.1).2,
              n.world.lifecycle.memory.2 ++
                [.compute k b (n.world.lifecycle.metadata.buffers k.yield)]) } ∧
        k.yield.Delivers
          (k.yield.declared n.world.lifecycle.metadata.variableList
            n.world.lifecycle.metadata.blockList)
          (k.yield.expected c.variableList c.blockList) values got := by
  obtain ⟨hsound, hdiscipline⟩ :=
    (Lifecycle.sound_register d.recorded (memory, [])).run ops
  rw [← hlifecycle] at hsound hdiscipline
  cases hok : (c.compute Host.service k a n).1 with
  | error e => exact .inl ⟨e, rfl⟩
  | ok got =>
      obtain ⟨plan, hcourse, hending, hgot⟩ := Client.exists_course_of_ok hremote
        (fun _ _ h => h.fits hsend hsound.chunkSize) hok
      obtain ⟨b, values, hserved, hready, hvalues, hworld, rfl⟩ := hcourse.of_ok hending
      have hthere := Plan.allThere_of_reply hending
      rw [(Plan.sends_reply hthere hsound.chunkSize).chunks] at hgot
      have hhook : n.world.lifecycle.discipline.compute = d.recorded.compute :=
        congrArg Discipline.compute hdiscipline
      rw [hhook] at hvalues hworld
      rw [Lifecycle.kind, hdiscipline] at hserved
      exact .inr ⟨got, b, values, rfl, hready, hserved, hvalues, hworld,
        Assembly.delivers_of_pieces (hsound.valid hready) hsound.chunkSize hthere _ _ hgot⟩

theorem Client.compute_copying {c : Client} {n : Network (Host (Unit × List HookCall))}
    (hlifecycle : n.world.lifecycle = .copying) (hfree : n.world.IsFree)
    (hremote : n.remote = .inProcess ({} : ServerConfig).limits)
    (houtgoing : c.outgoing .function .pair =
      .ok (Arguments.outgoing Lifecycle.copying.metadata .function .pair))
    (hconfig : c.config = { chunkSize := 1 }) (hcalled : c.called = none) :
    (c.compute Host.service .function .pair n).1 =
      (((Lifecycle.copying.metadata.outcomes (.vectors .output)
            (Lifecycle.copying.metadata.outputBuffers.insert "y" .pair)).flatMap
          (Outcome.pieces Lifecycle.copying.chunkSize)).foldlM
        (fun r piece => Assembly.accept piece (.vectors .output) r)
        (.start c.variableList c.blockList (.vectors .output))).bind fun r => r.finish := by
  have hrequest : ∀ f ∈ c.request n.world.lifecycle.metadata .function .pair,
      (Wire.frame.write f).length < 0x1_0000_0000 ∧
        (Wire.frame.write f).length ≤ defaultMaxFrameBytes := by
    rw [Client.request, hlifecycle, hconfig]
    decide +kernel
  have hanswer : ∀ f ∈ Lifecycle.copying.metadata.answer Lifecycle.copying.chunkSize .function
      (Lifecycle.copying.metadata.outputBuffers.insert "y" .pair),
      (Wire.frame.write f).length < 0x1_0000_0000 ∧
        (Wire.frame.write f).length ≤ defaultMaxFrameBytes := by
    decide +kernel
  have hleft := Lifecycle.outcome_copying
  obtain ⟨b, hconveys, -, hvalues⟩ := Client.compute_of_outgoing (n := n) (c := c) (k := .function)
    (a := .pair)
    (show n.world.lifecycle = (Lifecycle.register Discipline.copying.recorded ((), [])).run
      [.initialise, .setup] from hlifecycle)
    (by rw [hlifecycle]; rfl) rfl hfree
    hremote (by rw [hlifecycle]; exact houtgoing) (by simp [hconfig]) hcalled
    (by rw [hconfig]; decide) (by rw [hlifecycle]; exact Arguments.sized_pair)
    (by rw [hlifecycle]; exact Arguments.isCountable_of_outgoing_pair)
    fun f hf => ⟨(hrequest f hf).1, (hrequest f hf).2⟩
  rw [hlifecycle] at hconveys hvalues
  refine hvalues _ (Discipline.compute_copying hconveys)
    (fun o ho => ⟨.pair, (hleft o ho).1, (hleft o ho).2.symm⟩) (fun o ho y hy => ?_)
    fun f hf => ⟨(hanswer f hf).1, hconfig ▸ (hanswer f hf).2⟩
  rw [← Option.some.inj ((hleft o ho).1.symm.trans hy)]
  exact Variable.isCountable_pair

/-- A client that still expects three values of a result that has two by now gets an error for it.
One that expects the two values in another arrangement gets them, and nothing for a result that is
not declared any more. -/
theorem Client.compute_skewed :
    let l := (Lifecycle.register Discipline.copying.recorded ((), [])).run [.initialise, .setup]
    let n : Network (Host (Unit × List HookCall)) :=
      ⟨0, ⟨true, l, none⟩, .inProcess ({} : ServerConfig).limits, []⟩
    let c (shape : Shape) : Client :=
      { config := { chunkSize := 1 }
        variableList :=
          [⟨"x", .input, [2], ""⟩, ⟨"y", .output, shape, ""⟩, ⟨"z", .output, [0], ""⟩]
        hasDefinitions := true }
    let x : Variable := ⟨.input, [2], [⟨1⟩, ⟨2⟩], rfl⟩
    let a : Arguments := ⟨.ofList [("x", x)], .ofList []⟩
    l.state = .ready ∧ l.metadata.Sendable (.vectors .output) ∧
      (∃ e, ((c [3]).compute Host.service .function a n).1 = .error e) ∧
      ∃ got : Variables, ((c [2, 1]).compute Host.service .function a n).1 = .ok got ∧
        (got.find? "y").map (·.data) = some [⟨1⟩, ⟨2⟩] ∧
        (got.find? "z").map (·.outline) = some (.output, [0]) := by
  intro l n c x a
  have hsend : l.metadata.Sendable (.vectors .output) := by
    intro d hd
    change d ∈ [("y", [2])] at hd
    obtain rfl := List.mem_singleton.mp hd
    have hname : "y".utf8ByteSize < 0x1_0000_0000_0000_0000 := by decide
    exact ⟨⟨hname, nofun⟩, by decide⟩
  have hagrees (shape : Shape) := Client.compute_agrees (n := n) (c := c shape) (k := .function)
    (a := a)
    (show n.world.lifecycle = (Lifecycle.register Discipline.copying.recorded ((), [])).run
      [.initialise, .setup] from rfl)
    (show n.remote = .inProcess ({} : ServerConfig).limits from rfl) hsend
  refine ⟨rfl, hsend, ?_, ?_⟩
  · rcases hagrees [3] with he | ⟨got, b, values, -, -, -, -, -, hdelivers⟩
    · exact he
    · obtain ⟨shape, hshape, hcount⟩ := hdelivers.declared ("y", [2]) (.head _)
      have hthree : ((Yield.vectors .output).expected (c [3]).variableList (c [3]).blockList).find?
          "y" = some [3] := by decide +kernel
      cases hthree.symm.trans hshape
      cases hcount
  · have houtgoing : (c [2, 1]).outgoing .function .pair =
        .ok (Arguments.outgoing Lifecycle.copying.metadata .function .pair) := by
      decide +kernel
    have hfold := Client.compute_copying (n := n) (c := c [2, 1]) rfl ⟨rfl, by simp [n]⟩ rfl
      houtgoing rfl rfl
    have hdata : ((c [2, 1]).compute Host.service .function a n).1.map
        (fun got : Variables => (got.find? "y").map (·.data)) = .ok (some [⟨1⟩, ⟨2⟩]) := by
      change ((c [2, 1]).compute Host.service .function .pair n).1.map _ = _
      rw [hfold]
      decide +kernel
    rcases hagrees [2, 1] with ⟨e, he⟩ | ⟨got, b', values, hok, -, -, -, -, hdelivers⟩
    · rw [he] at hdata
      cases hdata
    · rw [hok] at hdata
      have hempty : ((Yield.vectors .output).expected (c [2, 1]).variableList
          (c [2, 1]).blockList).find? "z" = some [0] := by decide +kernel
      have hz := hdelivers.outline "z"
      refine ⟨got, hok, Except.ok.inj hdata, hz.trans ?_⟩
      exact congrArg (Option.map fun shape => (Role.output, shape)) hempty

end RemoteDiscipline
