import RemoteDiscipline.Proofs.Configuration
import RemoteDiscipline.Proofs.Stores
/-!
Setups that start from different pasts.

A setup forgets the variables and the blocks that were declared before, so its outcome depends on
what its hooks declare and on nothing that happened earlier (`Lifecycle.setup_agrees`). Stores are
compared up to their options, which a setup does not forget (`Metadata.Agrees`): every declaration
of a variable or a block keeps two such stores alike, and a declaration of an option does not count.
-/

namespace RemoteDiscipline

def Declaration.isListed : Declaration → Bool
  | .option _ _ => false
  | .input _ _ _ | .output _ _ _ | .block _ _ => true

namespace Metadata

/-- Two stores that differ in their options at most. -/
def Agrees (m m' : Metadata) : Prop := ∃ options, m' = { m with options := options }

/-- What a store shows of its variables and blocks: both lists, and what is found under every name. -/
def view (m : Metadata) : List VariableInfo × List BlockInfo × (String → Option VariableInfo) :=
  (m.variableList, m.blockList, m.lookup)

theorem record_withOptions {d : Declaration} (hd : d.isListed) (m : Metadata)
    (options : Table String OptionType) :
    ({ m with options := options }.record d).2 = { (m.record d).2 with options := options } := by
  cases d with
  | input name shape units | output name shape units =>
      simp only [record, addVariable]
      split <;> rfl
  | option name type => cases hd
  | block output input =>
      have hshape : { m with options := options }.blockShape output input
          m.kind.allowsOutputAsInput = m.blockShape output input m.kind.allowsOutputAsInput := rfl
      simp only [record, addBlock, hshape]
      cases m.blockShape output input m.kind.allowsOutputAsInput <;> rfl

theorem agrees_apply {d : Declaration} (hd : d.isListed = false) (m : Metadata) :
    m.Agrees (m.apply (.declare d)).2 := by
  cases d with
  | option name type =>
      by_cases hname : name.isEmpty
      · simp only [apply, record, addOption, if_pos hname]
        exact ⟨m.options, rfl⟩
      · simp only [apply, record, addOption, if_neg hname]
        exact ⟨_, rfl⟩
  | input | output | block => cases hd

namespace Agrees

variable {m m' m'' : Metadata}

theorem refl (m : Metadata) : m.Agrees m := ⟨m.options, rfl⟩

theorem symm (h : m.Agrees m') : m'.Agrees m := by
  obtain ⟨options, rfl⟩ := h
  exact ⟨m.options, rfl⟩

theorem trans (h : m.Agrees m') (h' : m'.Agrees m'') : m.Agrees m'' := by
  obtain ⟨options, rfl⟩ := h
  obtain ⟨options', rfl⟩ := h'
  exact ⟨options', rfl⟩

theorem validate (h : m.Agrees m') : m.validate = m'.validate := by
  obtain ⟨options, rfl⟩ := h
  rfl

theorem view (h : m.Agrees m') : m.view = m'.view := by
  obtain ⟨options, rfl⟩ := h
  rfl

/-- A new setup forgets whatever else made two stores of one kind differ. -/
theorem cleared (h : m.kind = m'.kind) :
    m.clearVariables.clearBlocks.Agrees m'.clearVariables.clearBlocks :=
  ⟨m'.options, by simp [clearVariables, clearBlocks, h]⟩

theorem apply_declare (h : m.Agrees m') {d : Declaration} (hd : d.isListed) :
    (m.apply (.declare d)).2.Agrees (m'.apply (.declare d)).2 := by
  obtain ⟨options, rfl⟩ := h
  exact ⟨options, record_withOptions hd m options⟩

/-- Of some declarations, only those of variables and blocks count. -/
theorem applyAll_filter (h : m.Agrees m') (declared : List Declaration) :
    (m.applyAll (declared.map .declare)).Agrees
      (m'.applyAll ((declared.filter Declaration.isListed).map .declare)) := by
  induction declared generalizing m m' with
  | nil => exact h
  | cons d declared ih =>
      by_cases hd : d.isListed
      · rw [List.filter_cons_of_pos hd]
        exact ih (h.apply_declare hd)
      · rw [List.filter_cons_of_neg hd]
        exact ih ((agrees_apply (by simpa using hd) m).symm.trans h)

theorem applyAll (h : m.Agrees m') {declared declared' : List Declaration}
    (hlisted : declared.filter Declaration.isListed = declared'.filter Declaration.isListed) :
    (m.applyAll (declared.map .declare)).Agrees (m'.applyAll (declared'.map .declare)) := by
  have hleft := h.applyAll_filter declared
  have hright := (refl m').applyAll_filter declared'
  rw [hlisted] at hleft
  exact hleft.trans hright.symm

end Agrees

end Metadata

/-! ### Hooks that declare -/

namespace Declaring

variable {α σ : Type}

def made : Declaring α → Metadata → List Declaration
  | .done _, _ => []
  | .declare d next, m =>
    d :: (next (m.apply (.declare d)).1).made (m.apply (.declare d)).2

theorem run_eq_applyAll (program : Declaring α) (m : Metadata) :
    (program.run m).2 = m.applyAll ((program.made m).map .declare) := by
  induction program generalizing m with
  | done a => rfl
  | declare d next ih =>
      rw [run, made]
      exact ih _ _

/-- What a hook does as far as a setup is concerned: the variables and blocks that it declares,
accepted or not, and how it ends. -/
def account (program : Declaring (Except Fault Unit × σ)) (m : Metadata) :
    List Declaration × Except Fault Unit :=
  ((program.made m).filter Declaration.isListed, (program.run m).1.1)

end Declaring

namespace Lifecycle

section Halves

variable {σ : Type} (l : Lifecycle σ)

theorem runValidated_fst (hook : Hook) (program : σ → Declaring (Except Fault Unit × σ)) :
    (l.runValidated hook program).1 =
      (((program l.memory).run l.metadata).1.1.mapError (Fault.toError hook)).bind fun _ =>
        ((program l.memory).run l.metadata).2.validate.mapError fun e =>
          .callback hook.name e.text := by
  unfold runValidated runDeclaring afterHook
  rcases (program l.memory).run l.metadata with ⟨⟨_ | _, memory⟩, metadata⟩ <;> rfl

theorem metadata_runValidated (hook : Hook) (program : σ → Declaring (Except Fault Unit × σ)) :
    (l.runValidated hook program).2.metadata = ((program l.memory).run l.metadata).2 := by
  unfold runValidated runDeclaring afterHook
  rcases (program l.memory).run l.metadata with ⟨⟨_ | _, memory⟩, metadata⟩ <;> rfl

def declareVariables : Except Error Unit × Lifecycle σ :=
  l.beginSetup.runValidated .setup l.discipline.setup

def declareBlocks : Except Error Unit × Lifecycle σ :=
  { l with state := .variablesDeclared }.runValidated .setupPartials l.discipline.setupPartials

/-- A setup ends with its first half if that fails, and otherwise with its second half. -/
theorem setup_halves (hl : l.state ≠ .created) :
    (∃ e, l.declareVariables.1 = .error e ∧ l.setup.1 = .error e ∧
      l.setup.2.metadata = l.declareVariables.2.metadata) ∨
    l.declareVariables.1 = .ok () ∧ l.setup.1 = l.declareVariables.2.declareBlocks.1 ∧
      l.setup.2.metadata = l.declareVariables.2.declareBlocks.2.metadata := by
  rw [setup, if_neg hl, ← declareVariables]
  rcases l.declareVariables with ⟨e | u, l'⟩
  · exact .inl ⟨e, rfl, rfl, rfl⟩
  · refine .inr ⟨rfl, ?_⟩
    dsimp only
    rw [← declareBlocks]
    rcases l'.declareBlocks with ⟨e | u, l''⟩ <;> exact ⟨rfl, rfl⟩

end Halves

variable {σ₁ σ₂ : Type} {l₁ : Lifecycle σ₁} {l₂ : Lifecycle σ₂}

/-- Two lifecycles of one kind whose hooks do the same when they are set up now. What the second
hook does counts only where it runs. -/
structure SetsUpLike (l₁ : Lifecycle σ₁) (l₂ : Lifecycle σ₂) : Prop where
  kind : l₁.metadata.kind = l₂.metadata.kind
  first : (l₁.discipline.setup l₁.memory).account l₁.metadata.clearVariables.clearBlocks =
    (l₂.discipline.setup l₂.memory).account l₂.metadata.clearVariables.clearBlocks
  second : l₁.declareVariables.1 = .ok () → l₂.declareVariables.1 = .ok () →
    let l₁' := l₁.declareVariables.2
    let l₂' := l₂.declareVariables.2
    (l₁'.discipline.setupPartials l₁'.memory).account l₁'.metadata =
      (l₂'.discipline.setupPartials l₂'.memory).account l₂'.metadata

theorem runValidated_agrees (hm : l₁.metadata.Agrees l₂.metadata) (hook : Hook)
    {program₁ : σ₁ → Declaring (Except Fault Unit × σ₁)}
    {program₂ : σ₂ → Declaring (Except Fault Unit × σ₂)}
    (h : (program₁ l₁.memory).account l₁.metadata = (program₂ l₂.memory).account l₂.metadata) :
    (l₁.runValidated hook program₁).1 = (l₂.runValidated hook program₂).1 ∧
      (l₁.runValidated hook program₁).2.metadata.Agrees
        (l₂.runValidated hook program₂).2.metadata := by
  obtain ⟨hmade, hend⟩ := Prod.mk.inj h
  have hagrees := hm.applyAll hmade
  rw [← Declaring.run_eq_applyAll, ← Declaring.run_eq_applyAll] at hagrees
  rw [runValidated_fst, runValidated_fst, metadata_runValidated, metadata_runValidated, hend,
    hagrees.validate]
  exact ⟨rfl, hagrees⟩

theorem SetsUpLike.agrees (h : l₁.SetsUpLike l₂) (h₁ : l₁.state ≠ .created)
    (h₂ : l₂.state ≠ .created) :
    l₁.setup.1 = l₂.setup.1 ∧ l₁.setup.2.metadata.Agrees l₂.setup.2.metadata := by
  obtain ⟨hresult, hmetadata⟩ : l₁.declareVariables.1 = l₂.declareVariables.1 ∧
      l₁.declareVariables.2.metadata.Agrees l₂.declareVariables.2.metadata :=
    runValidated_agrees (.cleared h.kind) .setup h.first
  obtain ⟨e, he, hr₁, hm₁⟩ | ⟨hok₁, hr₁, hm₁⟩ := l₁.setup_halves h₁
  · obtain ⟨e', he', hr₂, hm₂⟩ | ⟨hok₂, -⟩ := l₂.setup_halves h₂
    · rw [hr₁, hr₂, hm₁, hm₂, ← he, ← he']
      exact ⟨hresult, hmetadata⟩
    · rw [he, hok₂] at hresult
      cases hresult
  · obtain ⟨e', he', -⟩ | ⟨hok₂, hr₂, hm₂⟩ := l₂.setup_halves h₂
    · rw [hok₁, he'] at hresult
      cases hresult
    · rw [hr₁, hm₁, hr₂, hm₂]
      exact @runValidated_agrees _ _ { l₁.declareVariables.2 with state := .variablesDeclared }
        { l₂.declareVariables.2 with state := .variablesDeclared } hmetadata .setupPartials _ _
        (h.second hok₁ hok₂)

def setups {σ : Type} (l : Lifecycle σ) : Nat → Lifecycle σ
  | 0 => l
  | n + 1 => (l.setups n).setup.2

theorem state_eq_created_iff (s : LifecycleState) : s = .created ↔ s.rank = 0 := by
  cases s <;> decide

theorem state_setups {σ : Type} {l : Lifecycle σ} (hl : l.state ≠ .created) (n : Nat) :
    (l.setups n).state ≠ .created := by
  induction n with
  | zero => exact hl
  | succ n ih =>
      rw [setups, ne_eq, state_eq_created_iff]
      obtain ⟨hcreated, -⟩ | ⟨-, ⟨-, hstate⟩ | ⟨-, hstate⟩⟩ := (l.setups n).state_setup
      · exact absurd hcreated ih
      all_goals
        rw [ne_eq, state_eq_created_iff] at ih
        omega

/-- What a setup gives and leaves follows from what its hooks do, whatever happened to the two
lifecycles before, and wherever the setup stops. So the last one of any number of setups leaves what
the first one did, as long as the hooks do the same. -/
theorem setup_agrees (h₁ : l₁.state ≠ .created) (h₂ : l₂.state ≠ .created)
    (h : l₁.SetsUpLike l₂) :
    (l₁.setup.1 = l₂.setup.1 ∧ l₁.setup.2.metadata.view = l₂.setup.2.metadata.view) ∧
    ∀ n, (l₁.setups n).SetsUpLike l₁ →
      (l₁.setups n).setup.1 = l₁.setup.1 ∧
        (l₁.setups (n + 1)).metadata.view = l₁.setup.2.metadata.view := by
  obtain ⟨hresult, hmetadata⟩ := h.agrees h₁ h₂
  refine ⟨⟨hresult, hmetadata.view⟩, fun n hn => ?_⟩
  obtain ⟨hresult', hmetadata'⟩ := hn.agrees (state_setups h₁ n) h₁
  exact ⟨hresult', hmetadata'.view⟩

/-- A setup that broke off in the middle of other declarations leaves no trace in the next one. -/
theorem setup_agrees_after_panic :
    let declared {σ : Type} (s : σ) : Declaring (Except Fault Unit × σ) :=
      .declare (.input "x" [2] "m") fun _ => .declare (.output "f" [] "s") fun _ => .done (.ok (), s)
    let blocks {σ : Type} (s : σ) : Declaring (Except Fault Unit × σ) :=
      .declare (.block "f" "x") fun _ => .done (.ok (), s)
    let d₁ : Discipline Unit := { kind := .explicit, setup := declared, setupPartials := blocks }
    let d₂ : Discipline Nat :=
      { kind := .explicit
        setup := fun n =>
          if n = 0 then .declare (.output "x" [7] "") fun _ => .done (.error (.panicked none), 1)
          else declared (n + 1)
        setupPartials := blocks }
    let l₁ := (register d₁ ()).run [.initialise]
    let l₂ := (register d₂ 0).run [.initialise, .setStreamOptions 3, .setup]
    l₁.metadata.view ≠ l₂.metadata.view ∧
      (l₁.setup.1 = l₂.setup.1 ∧ l₁.setup.2.metadata.view = l₂.setup.2.metadata.view) ∧
      (l₁.setups 3).metadata.view = l₁.setup.2.metadata.view := by
  intro declared blocks d₁ d₂ l₁ l₂
  have hsame : l₁.SetsUpLike l₂ :=
    ⟨by decide +kernel, by decide +kernel, fun _ _ => by decide +kernel⟩
  have hrepeated : (l₁.setups 2).SetsUpLike l₁ :=
    ⟨by decide +kernel, by decide +kernel, fun _ _ => by decide +kernel⟩
  have h₁ : l₁.state ≠ .created := by decide +kernel
  have h₂ : l₂.state ≠ .created := by decide +kernel
  obtain ⟨htwo, hagain⟩ := setup_agrees h₁ h₂ hsame
  refine ⟨fun hview => ?_, htwo, (hagain 2 hrepeated).2⟩
  have hlist : l₁.metadata.variableList = l₂.metadata.variableList := congrArg Prod.fst hview
  cases hlist

end Lifecycle

end RemoteDiscipline
