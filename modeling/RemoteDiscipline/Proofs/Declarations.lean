import RemoteDiscipline.Proofs.Lifecycle
/-!
What hooks declare, and what a lifecycle keeps of it.

A hook declares one thing after another, and some of it is refused. The lists of a metadata store
are what has been accepted, in this order (`Declaring.variableList_run`, `Declaring.blockKeys_run`).
A setup starts from empty lists, so afterwards they hold what its two hooks have declared and nothing
else (`Lifecycle.setup_recorded`). On a recorded discipline every operation adds to the record just
the hooks that ran.
-/

namespace RemoteDiscipline

namespace Declaration

def toVariable? : Declaration → Option VariableInfo
  | .input name shape units => some ⟨name, .input, shape, units⟩
  | .output name shape units => some ⟨name, .output, shape, units⟩
  | _ => none

def toBlock? : Declaration → Option BlockKey
  | .block f x => some ⟨f, x⟩
  | _ => none

end Declaration

/-- A declaration that is accepted comes at the end of its list. -/
theorem Metadata.lists_of_declare {m m' : Metadata} {d : Declaration} (hm : m.declare d = .ok m') :
    m'.variableList = m.variableList ++ d.toVariable?.toList ∧
      m'.blockList.map BlockInfo.key = m.blockList.map BlockInfo.key ++ d.toBlock?.toList := by
  rw [declare_eq_ok_iff] at hm
  cases d with
  | input name shape units | output name shape units =>
      simp only [record, addVariable] at hm
      split at hm <;> cases hm
      simp [Declaration.toVariable?, Declaration.toBlock?]
  | option name type =>
      simp only [record, addOption] at hm
      split at hm <;> cases hm
      simp [Declaration.toVariable?, Declaration.toBlock?]
  | block output input =>
      simp only [record, addBlock] at hm
      cases hs : m.blockShape output input m.kind.allowsOutputAsInput with
      | error e =>
          rw [hs] at hm
          cases hm
      | ok shape =>
          rw [hs] at hm
          cases hm
          simp [Declaration.toVariable?, Declaration.toBlock?, BlockInfo.key]

namespace Declaring

variable {α β : Type}

def accepted : Declaring α → Metadata → List Declaration
  | .done _, _ => []
  | .declare d next, m =>
    match m.declare d with
    | .ok m => d :: (next (.ok ())).accepted m
    | .error e => (next (.error e)).accepted m

/-- A list to which every accepted declaration adds at the end grows by all that are accepted. -/
theorem list_run (list : Metadata → List β) {added : Declaration → Option β}
    (hadd : ∀ {m d m'}, Metadata.declare m d = .ok m' → list m' = list m ++ (added d).toList)
    (program : Declaring α) (m : Metadata) :
    list (program.run m).2 = list m ++ (program.accepted m).filterMap added := by
  induction program generalizing m with
  | done a => simp [run, accepted]
  | declare d next ih =>
      rw [run, accepted, Metadata.record_eq]
      cases hd : m.declare d with
      | error e => exact ih _ m
      | ok m' =>
          dsimp only
          rw [ih _ m', hadd hd, List.append_assoc]
          cases hv : added d <;> simp [hv]

theorem variableList_run (program : Declaring α) (m : Metadata) :
    (program.run m).2.variableList =
      m.variableList ++ (program.accepted m).filterMap Declaration.toVariable? :=
  list_run _ (fun hd => (Metadata.lists_of_declare hd).1) program m

theorem blockKeys_run (program : Declaring α) (m : Metadata) :
    (program.run m).2.blockList.map BlockInfo.key =
      m.blockList.map BlockInfo.key ++ (program.accepted m).filterMap Declaration.toBlock? :=
  list_run (fun m => m.blockList.map BlockInfo.key)
    (fun hd => (Metadata.lists_of_declare hd).2) program m

theorem run_map (f : α → β) (program : Declaring α) (m : Metadata) :
    (program.map f).run m = (f (program.run m).1, (program.run m).2) := by
  induction program generalizing m with
  | done a => rfl
  | declare d next ih =>
      rw [map, run, run]
      exact ih _ _

end Declaring

namespace Discipline

variable {σ : Type} (d : Discipline σ)

/-- The two hooks of a setup, which start from some declarations: what they leave in the memory, and
all that is declared then. -/
def declareAll (s : σ) (m : Metadata) : σ × Metadata :=
  let r := (d.setup s).run m
  let r' := (d.setupPartials r.1.2).run r.2
  (r'.1.2, r'.2)

def declarations (s : σ) (m : Metadata) : List Declaration :=
  let r := (d.setup s).run m
  (d.setup s).accepted m ++ (d.setupPartials r.1.2).accepted r.2

theorem variableList_declareAll (s : σ) (m : Metadata) :
    (d.declareAll s m).2.variableList =
      m.variableList ++ (d.declarations s m).filterMap Declaration.toVariable? := by
  simp [declareAll, declarations, Declaring.variableList_run]

theorem blockKeys_declareAll (s : σ) (m : Metadata) :
    (d.declareAll s m).2.blockList.map BlockInfo.key =
      m.blockList.map BlockInfo.key ++ (d.declarations s m).filterMap Declaration.toBlock? := by
  simp only [declareAll, declarations, Declaring.blockKeys_run, List.filterMap_append,
    List.append_assoc]

end Discipline

namespace Lifecycle

theorem valid_of_setup {σ : Type} {l : Lifecycle σ} (h : l.setup.1 = .ok ()) :
    l.setup.2.metadata.Valid l.metadata.kind := by
  obtain ⟨-, he⟩ | ⟨-, r, memory, metadata, state, hsound, hkind, he, -, hvalid⟩ := l.setup_cases
  · rw [he] at h
    cases h
  · rw [he] at h ⊢
    exact hkind ▸ hsound.valid (hvalid h)

variable {σ : Type} {d : Discipline σ} {l : Lifecycle (σ × List HookCall)}

/-! ### Operations on a recorded discipline -/

theorem properties_recorded (hd : l.discipline = d.recorded) :
    l.properties = ((d.properties l.memory.1).1.mapError (Fault.toError .properties),
      { l with memory := ((d.properties l.memory.1).2, l.memory.2 ++ [.properties]) }) := by
  simp only [properties, afterHook, hd, Discipline.recorded]

/-- A request to set options adds to the record the hooks that ran, and both if it goes well. -/
theorem setOptions_recorded (hd : l.discipline = d.recorded) (values : Options) :
    (∃ ran, ran <+: [.setOptions values, .configure] ∧
      (l.setOptions values).2.memory.2 = l.memory.2 ++ ran) ∧
    ((l.setOptions values).1 = .ok () → (l.setOptions values).2 = { l with
      memory := ((d.configure (d.setOptions values l.memory.1).2).2,
        l.memory.2 ++ [.setOptions values, .configure])
      state := .configured }) := by
  have hset : l.discipline.setOptions values l.memory =
      ((d.setOptions values l.memory.1).1, (d.setOptions values l.memory.1).2,
        l.memory.2 ++ [.setOptions values]) := by
    rw [hd]
    rfl
  have hconfigure (s : σ × List HookCall) : l.discipline.configure s =
      ((d.configure s.1).1, (d.configure s.1).2, s.2 ++ [.configure]) := by
    rw [hd]
    rfl
  unfold setOptions
  split
  · exact ⟨⟨[], List.nil_prefix, (List.append_nil _).symm⟩, fun hok => by cases hok⟩
  · simp only [afterHook, hset]
    cases (d.setOptions values l.memory.1).1 with
    | error f => exact ⟨⟨[.setOptions values], by simp, rfl⟩, fun hok => by cases hok⟩
    | ok u =>
        simp only [mapError_ok, hconfigure]
        have hboth := List.append_assoc l.memory.2 [HookCall.setOptions values] [.configure]
        cases (d.configure (d.setOptions values l.memory.1).2).1 with
        | error f => exact ⟨⟨_, List.prefix_refl _, hboth⟩, fun hok => by cases hok⟩
        | ok u =>
            refine ⟨⟨_, List.prefix_refl _, hboth⟩, fun _ => ?_⟩
            rw [hboth]
            rfl

theorem runValidated_recorded (l : Lifecycle (σ × List HookCall)) (hook : Hook) (call : HookCall)
    (program : σ → Declaring (Except Fault Unit × σ)) :
    (l.runValidated hook fun s => (program s.1).map fun r => (r.1, r.2, s.2 ++ [call])).2 =
      { l with
        memory := (((program l.memory.1).run l.metadata).1.2, l.memory.2 ++ [call])
        metadata := ((program l.memory.1).run l.metadata).2 } := by
  unfold runValidated runDeclaring afterHook
  simp only [Declaring.run_map]
  split <;> rename_i h <;> exact (congrArg Prod.snd h).symm

/-- A setup adds to the record the hooks that ran. If it goes well, both have run, and what they
have declared is all that is declared then. -/
theorem setup_recorded (hd : l.discipline = d.recorded) :
    (∃ ran, ran <+: [.setup, .setupPartials] ∧ l.setup.2.memory.2 = l.memory.2 ++ ran) ∧
    (l.setup.1 = .ok () → l.setup.2 = { l with
      memory := ((d.declareAll l.memory.1 l.metadata.clearVariables.clearBlocks).1,
        l.memory.2 ++ [.setup, .setupPartials])
      metadata := (d.declareAll l.memory.1 l.metadata.clearVariables.clearBlocks).2
      state := .ready
      generation := l.generation + 1 }) := by
  have hsetup : l.discipline.setup =
      fun s => (d.setup s.1).map fun r => (r.1, r.2, s.2 ++ [.setup]) := by
    rw [hd]
    rfl
  have hpartials : l.discipline.setupPartials =
      fun s => (d.setupPartials s.1).map fun r => (r.1, r.2, s.2 ++ [.setupPartials]) := by
    rw [hd]
    rfl
  unfold setup
  split
  · exact ⟨⟨[], List.nil_prefix, (List.append_nil _).symm⟩, nofun⟩
  · have hfirst := runValidated_recorded l.beginSetup .setup .setup d.setup
    rw [← hsetup] at hfirst
    split
    · rename_i e l₁ hrun
      rw [hrun] at hfirst
      exact ⟨⟨[.setup], by simp, congrArg (·.memory.2) hfirst⟩, nofun⟩
    · rename_i l₁ hrun
      rw [hrun] at hfirst
      cases hfirst
      have hboth := List.append_assoc l.memory.2 [HookCall.setup] [.setupPartials]
      have hsecond := runValidated_recorded
        { l.beginSetup with
          memory := (((d.setup l.memory.1).run l.metadata.clearVariables.clearBlocks).1.2,
            l.memory.2 ++ [.setup])
          metadata := ((d.setup l.memory.1).run l.metadata.clearVariables.clearBlocks).2
          state := .variablesDeclared }
        .setupPartials .setupPartials d.setupPartials
      rw [← hpartials] at hsecond
      split
      · rename_i e l₂ hrun'
        have hl₂ := (congrArg Prod.snd hrun').symm.trans hsecond
        exact ⟨⟨_, List.prefix_refl _, (congrArg (·.memory.2) hl₂).trans hboth⟩, nofun⟩
      · rename_i l₂ hrun'
        have hl₂ := (congrArg Prod.snd hrun').symm.trans hsecond
        refine ⟨⟨_, List.prefix_refl _, (congrArg (·.memory.2) hl₂).trans hboth⟩, fun _ => ?_⟩
        dsimp only at hl₂ ⊢
        rw [hl₂, hboth]
        rfl

end Lifecycle

end RemoteDiscipline
