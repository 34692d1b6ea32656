import RemoteDiscipline.Proofs.Metadata
/-!
Lifecycles after any operations.

A run is any sequence of operations on a registered discipline, whose hooks declare what they like
and end as they like. `Lifecycle.Sound` is what every operation keeps: the metadata store is sound,
the stored chunk size can be used, and the declarations of a discipline that is ready are valid. The
last part needs the others, because blocks are declared while later declarations may still follow and
a setup that fails leaves whatever it had declared.
-/

namespace RemoteDiscipline

inductive Operation
  | properties
  | initialise
  | setStreamOptions (chunkSize : Nat)
  | setOptions (values : Options)
  | setup
  | compute (c : Computation) (arguments : Arguments) (values : c.Values)

theorem mapError_ok {ε ε' α : Type} (f : ε → ε') (a : α) :
    (Except.ok a : Except ε α).mapError f = .ok a := rfl

namespace Lifecycle

variable {σ : Type}

def perform (l : Lifecycle σ) : Operation → Except Error Unit × Lifecycle σ
  | .properties => (l.properties.1.map fun _ => (), l.properties.2)
  | .initialise => l.initialise
  | .setStreamOptions chunkSize => l.setStreamOptions chunkSize
  | .setOptions values => l.setOptions values
  | .setup => l.setup
  | .compute c arguments values =>
    let r := l.afterHook (.compute c) (l.discipline.compute c arguments values l.memory)
    (r.1.map fun _ => (), r.2)

/-- The lifecycle after some operations, however each of them ends. -/
def run (l : Lifecycle σ) (ops : List Operation) : Lifecycle σ :=
  ops.foldl (fun l op => (l.perform op).2) l

/-! ### What operations do -/

/-- A hook that declares things changes the memory and the declarations, and nothing else. -/
theorem runDeclaring_eq {l : Lifecycle σ} (hm : l.metadata.Sound) (hook : Hook)
    (program : σ → Declaring (Except Fault Unit × σ)) :
    ∃ r memory metadata, metadata.Sound ∧ metadata.kind = l.metadata.kind ∧
      l.runDeclaring hook program = (r, { l with memory := memory, metadata := metadata }) :=
  ⟨_, _, _, Declaring.sound_run (program l.memory) hm, Declaring.kind_run (program l.memory) _, rfl⟩

theorem runValidated_eq {l : Lifecycle σ} (hm : l.metadata.Sound) (hook : Hook)
    (program : σ → Declaring (Except Fault Unit × σ)) :
    ∃ r memory metadata, metadata.Sound ∧ metadata.kind = l.metadata.kind ∧
      l.runValidated hook program = (r, { l with memory := memory, metadata := metadata }) ∧
      (r = .ok () → metadata.validate = .ok ()) := by
  obtain ⟨r, memory, metadata, hsound, hkind, hrun⟩ := runDeclaring_eq hm hook program
  unfold runValidated
  rw [hrun]
  cases r with
  | error e => exact ⟨_, memory, metadata, hsound, hkind, rfl, fun h => by cases h⟩
  | ok u =>
      refine ⟨_, memory, metadata, hsound, hkind, rfl, fun h => ?_⟩
      cases hv : metadata.validate with
      | ok u => rfl
      | error e =>
          simp only [hv] at h
          cases h

theorem initialise_cases {l : Lifecycle σ} (hm : l.metadata.Sound) :
    l.state ≠ .created ∧ l.initialise = (.error (l.refuse "initialize"), l) ∨
      l.state = .created ∧ ∃ r memory metadata state, metadata.Sound ∧
        metadata.kind = l.metadata.kind ∧ state ≠ .ready ∧
        l.initialise =
          (r, { l with memory := memory, metadata := metadata, state := state }) := by
  unfold initialise
  split
  · rename_i hc
    obtain ⟨r, memory, metadata, hsound, hkind, hrun⟩ :=
      runDeclaring_eq hm .initialise l.discipline.initialise
    refine .inr ⟨hc, ?_⟩
    rw [hrun]
    cases r with
    | error e => exact ⟨_, memory, metadata, l.state, hsound, hkind, by simp [hc], rfl⟩
    | ok u => exact ⟨_, memory, metadata, .initialised, hsound, hkind, by simp, rfl⟩
  · rename_i hc
    exact .inl ⟨hc, rfl⟩

theorem setStreamOptions_cases (l : Lifecycle σ) (size : Nat) :
    size = 0 ∧ (∃ e, l.setStreamOptions size = (.error e, l)) ∨
      0 < size ∧ l.setStreamOptions size = (.ok (), { l with chunkSize := size }) := by
  unfold setStreamOptions checkChunkSize
  by_cases h : size = 0
  · left
    exact ⟨h, _, by simp [h]; rfl⟩
  · right
    exact ⟨Nat.pos_of_ne_zero h, by simp [h]⟩

theorem setOptions_cases (l : Lifecycle σ) (values : Options) :
    (∃ e memory, l.setOptions values = (.error e, { l with memory := memory })) ∨
      l.state ≠ .created ∧ ∃ memory,
        l.setOptions values = (.ok (), { l with memory := memory, state := .configured }) := by
  unfold setOptions
  split
  · exact .inl ⟨_, l.memory, rfl⟩
  · rename_i hc
    simp only [afterHook]
    cases (l.discipline.setOptions values l.memory).1 with
    | error f => exact .inl ⟨_, _, rfl⟩
    | ok u =>
        simp only [mapError_ok]
        cases (l.discipline.configure (l.discipline.setOptions values l.memory).2).1 with
        | error f => exact .inl ⟨_, _, rfl⟩
        | ok u => exact .inr ⟨hc, _, rfl⟩

theorem state_beginSetup (l : Lifecycle σ) : l.beginSetup.state ≠ .ready := by
  simp only [beginSetup]
  cases l.state <;> decide

/-- A setup that gets past its check starts a new generation. It stops on the way, where the
discipline is not ready, or ends with declarations that were validated after the last of them. -/
theorem setup_cases (l : Lifecycle σ) :
    l.state = .created ∧ l.setup = (.error (l.refuse "set up"), l) ∨
      l.state ≠ .created ∧ ∃ r memory metadata state, metadata.Sound ∧
        metadata.kind = l.metadata.kind ∧
        l.setup =
          (r, { l with
            memory := memory
            metadata := metadata
            state := state
            generation := l.generation + 1 }) ∧
        (state = .ready ↔ r = .ok ()) ∧ (r = .ok () → metadata.validate = .ok ()) := by
  unfold setup
  split
  · rename_i hc
    exact .inl ⟨hc, rfl⟩
  · rename_i hc
    refine .inr ⟨hc, ?_⟩
    obtain ⟨r₁, memory₁, metadata₁, hsound₁, hkind₁, hrun₁, -⟩ :=
      runValidated_eq (l := l.beginSetup) (Metadata.sound_cleared l.metadata) .setup
        l.discipline.setup
    rw [hrun₁]
    cases r₁ with
    | error e =>
        refine ⟨_, memory₁, metadata₁, l.beginSetup.state, hsound₁, hkind₁, rfl, ?_, ?_⟩
        · simp [state_beginSetup]
        · simp
    | ok u =>
        -- The variables stay as the first hook has left them, so its blocks are still justified.
        obtain ⟨r₂, memory₂, metadata₂, hsound₂, hkind₂, hrun₂, hvalid₂⟩ :=
          runValidated_eq
            (l := { l.beginSetup with
              memory := memory₁
              metadata := metadata₁
              state := .variablesDeclared })
            hsound₁ .setupPartials l.discipline.setupPartials
        simp only [beginSetup] at hrun₂ ⊢
        rw [hrun₂]
        cases r₂ with
        | error e =>
            exact ⟨_, memory₂, metadata₂, .variablesDeclared, hsound₂, hkind₂.trans hkind₁, rfl,
              by simp, by simp⟩
        | ok u =>
            exact ⟨_, memory₂, metadata₂, .ready, hsound₂, hkind₂.trans hkind₁, rfl, by simp,
              fun _ => hvalid₂ rfl⟩

/-! ### The invariant -/

/-- What holds of a lifecycle after any operations. -/
structure Sound (l : Lifecycle σ) : Prop where
  metadata : l.metadata.Sound
  kind : l.metadata.kind = l.kind
  chunkSize : 1 ≤ l.chunkSize
  valid : l.state = .ready → l.metadata.Valid l.kind

theorem sound_register (d : Discipline σ) (memory : σ) : (register d memory).Sound where
  metadata := Metadata.sound_fresh d.kind
  kind := rfl
  chunkSize := Nat.le_of_ble_eq_true rfl
  valid h := by cases h

theorem Sound.perform {l : Lifecycle σ} (h : l.Sound) (op : Operation) :
    (l.perform op).2.Sound ∧ (l.perform op).2.discipline = l.discipline := by
  cases op with
  | properties => exact ⟨⟨h.metadata, h.kind, h.chunkSize, h.valid⟩, rfl⟩
  | compute c arguments values => exact ⟨⟨h.metadata, h.kind, h.chunkSize, h.valid⟩, rfl⟩
  | initialise =>
      simp only [Lifecycle.perform]
      obtain ⟨-, he⟩ | ⟨-, r, memory, metadata, state, hsound, hkind, hstate, he⟩ :=
        initialise_cases h.metadata
      · rw [he]
        exact ⟨h, rfl⟩
      · rw [he]
        exact ⟨⟨hsound, hkind.trans h.kind, h.chunkSize, fun hr => absurd hr hstate⟩, rfl⟩
  | setStreamOptions size =>
      simp only [Lifecycle.perform]
      obtain ⟨-, e, he⟩ | ⟨hpos, he⟩ := l.setStreamOptions_cases size
      · rw [he]
        exact ⟨h, rfl⟩
      · rw [he]
        exact ⟨⟨h.metadata, h.kind, hpos, h.valid⟩, rfl⟩
  | setOptions values =>
      simp only [Lifecycle.perform]
      obtain ⟨e, memory, he⟩ | ⟨-, memory, he⟩ := l.setOptions_cases values
      · rw [he]
        exact ⟨⟨h.metadata, h.kind, h.chunkSize, h.valid⟩, rfl⟩
      · rw [he]
        exact ⟨⟨h.metadata, h.kind, h.chunkSize, fun hr => by cases hr⟩, rfl⟩
  | setup =>
      simp only [Lifecycle.perform]
      obtain ⟨-, he⟩ | ⟨-, r, memory, metadata, state, hsound, hkind, he, hstate, hvalid⟩ :=
        l.setup_cases
      · rw [he]
        exact ⟨h, rfl⟩
      · rw [he]
        refine ⟨⟨hsound, hkind.trans h.kind, h.chunkSize, fun hr => ?_⟩, rfl⟩
        have := hsound.valid (hvalid (hstate.mp hr))
        rwa [hkind, h.kind] at this

theorem Sound.run {l : Lifecycle σ} (h : l.Sound) (ops : List Operation) :
    (l.run ops).Sound ∧ (l.run ops).discipline = l.discipline := by
  induction ops generalizing l with
  | nil => exact ⟨h, rfl⟩
  | cons op ops ih =>
      obtain ⟨hl, hd⟩ := h.perform op
      obtain ⟨hrun, hrund⟩ := ih hl
      exact ⟨hrun, hrund.trans hd⟩

/-- After any operations on a registered discipline, whatever its hooks declare and however they
end, the stored chunk size can be used, and the declarations of a discipline that is ready are
valid. -/
theorem valid_of_ready (d : Discipline σ) (memory : σ) (ops : List Operation) :
    1 ≤ ((register d memory).run ops).chunkSize ∧
      (((register d memory).run ops).state = .ready →
        ((register d memory).run ops).metadata.Valid d.kind) := by
  obtain ⟨h, hd⟩ := (sound_register d memory).run ops
  refine ⟨h.chunkSize, fun hr => ?_⟩
  have hvalid := h.valid hr
  rwa [kind, hd] at hvalid

end Lifecycle

end RemoteDiscipline
