import RemoteDiscipline.Proofs.Admission
/-!
What it means that a discipline is configured.

Options that are taken in configure a discipline, and a setup that declares its variables takes it
further (`Attempt.Configures`, `Attempt.Declares`). Nothing leads back behind the point that such an
operation has reached for the first time (`Lifecycle.advanced_run`). A setup starts by falling back
to this point, from wherever the discipline was, and stays there when it does not declare its
variables. So a discipline can count as configured that has never been given any options: after a
setup, by a second one that fails (`Lifecycle.configured_iff`).
-/

namespace RemoteDiscipline

namespace Lifecycle

variable {σ : Type}

namespace Attempt

def Configures (a : Attempt σ) : Prop :=
  ∃ values memory memory', a.operation = .setOptions values ∧ a.found.state ≠ .created ∧
    a.found.discipline.setOptions values a.found.memory = (.ok (), memory) ∧
    a.found.discipline.configure memory = (.ok (), memory')

/-- A setup that declares its variables: its first hook ends well, with nothing declared twice. -/
def Declares (a : Attempt σ) : Prop :=
  a.operation = .setup ∧ a.found.state ≠ .created ∧
    ∃ memory metadata,
      (a.found.discipline.setup a.found.memory).run
        a.found.metadata.clearVariables.clearBlocks = ((.ok (), memory), metadata) ∧
      metadata.validate = .ok ()

/-- An operation that takes a discipline beyond its initialisation. -/
def Advances (a : Attempt σ) : Prop := a.Configures ∨ a.Declares

end Attempt

/-! ### One operation -/

theorem rank_earlier (s t : LifecycleState) : (s.earlier t).rank = min s.rank t.rank := by
  unfold LifecycleState.earlier
  split
  · exact (Nat.min_eq_left ‹_›).symm
  · exact (Nat.min_eq_right (Nat.le_of_not_le ‹_›)).symm

theorem state_setOptions (l : Lifecycle σ) (values : Options) :
    (Attempt.mk l (.setOptions values)).Configures ∧ (l.setOptions values).1 = .ok () ∧
        (l.setOptions values).2.state = .configured ∨
      ¬ (Attempt.mk l (.setOptions values)).Configures ∧ (l.setOptions values).1.isOk = false ∧
        (l.setOptions values).2.state = l.state := by
  unfold setOptions
  split
  · rename_i hcreated
    exact .inr ⟨by rintro ⟨_, _, _, -, hne, -⟩; exact hne hcreated, rfl, rfl⟩
  · rename_i hcreated
    simp only [afterHook]
    rcases hset : l.discipline.setOptions values l.memory with ⟨_ | _, memory⟩
    · refine .inr ⟨?_, rfl, rfl⟩
      rintro ⟨values', _, _, hop, -, hok, -⟩
      cases hop
      cases hset.symm.trans hok
    · simp only [mapError_ok]
      rcases hconfigure : l.discipline.configure memory with ⟨_ | _, memory'⟩
      · refine .inr ⟨?_, rfl, rfl⟩
        rintro ⟨values', _, _, hop, -, hok, hok'⟩
        cases hop
        cases hset.symm.trans hok
        cases hconfigure.symm.trans hok'
      · exact .inl ⟨⟨values, memory, memory', rfl, hcreated, hset, hconfigure⟩, rfl, rfl⟩

/-- An operation that takes a discipline beyond its initialisation is one that decides. -/
theorem Attempt.Advances.decides {a : Attempt σ} (h : a.Advances) : a.decides := by
  obtain ⟨l, op⟩ := a
  obtain hyes | ⟨rfl, hcreated, -⟩ := h
  · have hconfigures := hyes
    obtain ⟨values, -, -, rfl, -⟩ := hyes
    obtain ⟨-, hok, -⟩ | ⟨hnot, -⟩ := l.state_setOptions values
    · exact congrArg Except.isOk hok
    · exact absurd hconfigures hnot
  · simpa [Attempt.decides] using hcreated

theorem state_runValidated (l : Lifecycle σ) (hook : Hook)
    (program : σ → Declaring (Except Fault Unit × σ)) :
    (l.runValidated hook program).2.state = l.state := by
  unfold runValidated runDeclaring afterHook
  rcases (program l.memory).run l.metadata with ⟨⟨_ | _, memory⟩, metadata⟩
  · rfl
  · rfl

/-- Such a hook goes well exactly when it ends well and nothing is declared twice after it. -/
theorem runValidated_eq_ok_iff (l : Lifecycle σ) (hook : Hook)
    (program : σ → Declaring (Except Fault Unit × σ)) :
    (l.runValidated hook program).1 = .ok () ↔
      ∃ memory metadata, (program l.memory).run l.metadata = ((.ok (), memory), metadata) ∧
        metadata.validate = .ok () := by
  unfold runValidated runDeclaring afterHook
  rcases (program l.memory).run l.metadata with ⟨⟨_ | _, memory⟩, metadata⟩
  · constructor
    · rintro ⟨⟩
    · rintro ⟨_, _, ⟨⟩, -⟩
  · show metadata.validate.mapError _ = .ok () ↔ _
    cases hvalid : metadata.validate with
    | ok u => exact ⟨fun _ => ⟨memory, metadata, rfl, hvalid⟩, fun _ => rfl⟩
    | error e =>
        constructor
        · rintro ⟨⟩
        · rintro ⟨_, _, ⟨⟩, hok⟩
          cases hvalid.symm.trans hok

/-- A setup declares its variables and gets beyond the options, or it falls back to them. -/
theorem state_setup (l : Lifecycle σ) :
    (l.state = .created ∧ l.setup.2.state = .created) ∨
      l.state ≠ .created ∧
        ((Attempt.mk l .setup).Declares ∧ 3 ≤ l.setup.2.state.rank ∨
          ¬ (Attempt.mk l .setup).Declares ∧ l.setup.2.state.rank = min l.state.rank 2) := by
  unfold setup
  split
  · rename_i hcreated
    exact .inl ⟨hcreated, hcreated⟩
  · rename_i hcreated
    refine .inr ⟨hcreated, ?_⟩
    have hfirst := l.beginSetup.runValidated_eq_ok_iff .setup l.discipline.setup
    have hstate := l.beginSetup.state_runValidated .setup l.discipline.setup
    rcases hrun : l.beginSetup.runValidated .setup l.discipline.setup with ⟨_ | _, l'⟩
    · rw [hrun] at hfirst hstate
      refine .inr ⟨?_, (congrArg LifecycleState.rank hstate).trans (rank_earlier _ _)⟩
      rintro ⟨-, -, hdeclares⟩
      cases hfirst.mpr hdeclares
    · rw [hrun] at hfirst
      refine .inl ⟨⟨rfl, hcreated, hfirst.mp rfl⟩, ?_⟩
      -- From here on the state is one of those that follow the options.
      dsimp only
      have hstate' := ({ l' with state := .variablesDeclared }).state_runValidated
        .setupPartials l'.discipline.setupPartials
      split
      · rename_i hrun'
        rw [hrun'] at hstate'
        exact Nat.le_of_eq (congrArg LifecycleState.rank hstate').symm
      · exact Nat.le_succ 3

/-- No operation leads back behind the options, and only those that advance lead so far. -/
theorem advanced_perform (l : Lifecycle σ) (op : Operation) :
    2 ≤ (l.perform op).2.state.rank ↔ 2 ≤ l.state.rank ∨ (Attempt.mk l op).Advances := by
  cases op with
  | properties | compute =>
      simp [perform, properties, afterHook, Attempt.Advances, Attempt.Configures, Attempt.Declares]
  | setStreamOptions size =>
      obtain ⟨-, e, he⟩ | ⟨-, he⟩ := l.setStreamOptions_cases size
      · simp [perform, he, Attempt.Advances, Attempt.Configures, Attempt.Declares]
      · simp [perform, he, Attempt.Advances, Attempt.Configures, Attempt.Declares]
  | initialise =>
      have hno : ¬ (Attempt.mk l .initialise).Advances := by
        simp [Attempt.Advances, Attempt.Configures, Attempt.Declares]
      obtain hsame | ⟨hcreated, hinitialised⟩ := l.state_initialise
      · simp [perform, hsame, hno]
      · simp [perform, hcreated, hinitialised, hno, LifecycleState.rank]
  | setOptions values =>
      have hno : ¬ (Attempt.mk l (.setOptions values)).Declares := by simp [Attempt.Declares]
      obtain ⟨hyes, -, hstate⟩ | ⟨hnot, -, hstate⟩ := l.state_setOptions values
      · simp [perform, hstate, Attempt.Advances, hyes, LifecycleState.rank]
      · simp [perform, hstate, Attempt.Advances, hnot, hno]
  | setup =>
      have hno : ¬ (Attempt.mk l .setup).Configures := by simp [Attempt.Configures]
      obtain ⟨hcreated, hstate⟩ | ⟨-, ⟨hyes, hrank⟩ | ⟨hnot, hrank⟩⟩ := l.state_setup
      · simp [perform, hstate, hcreated, Attempt.Advances, hno, Attempt.Declares]
      · simp only [perform, Attempt.Advances, hyes, or_true, iff_true]
        omega
      · simp only [perform, Attempt.Advances, hno, hnot, or_false]
        omega

/-- Only operations that decide lead beyond the options, by declaring the variables, or back. -/
theorem declared_perform (l : Lifecycle σ) (op : Operation) :
    3 ≤ (l.perform op).2.state.rank ↔
      if (Attempt.mk l op).decides then (Attempt.mk l op).Declares else 3 ≤ l.state.rank := by
  cases op with
  | properties | compute => rfl
  | setStreamOptions size =>
      obtain ⟨-, e, he⟩ | ⟨-, he⟩ := l.setStreamOptions_cases size
      · simp [perform, he, Attempt.decides]
      · simp [perform, he, Attempt.decides]
  | initialise =>
      obtain hsame | ⟨hcreated, hinitialised⟩ := l.state_initialise
      · simp [perform, hsame, Attempt.decides]
      · simp [perform, hcreated, hinitialised, Attempt.decides, LifecycleState.rank]
  | setOptions values =>
      have hno : ¬ (Attempt.mk l (.setOptions values)).Declares := by simp [Attempt.Declares]
      obtain ⟨-, hok, hstate⟩ | ⟨-, hfailed, hstate⟩ := l.state_setOptions values
      · have hdecides : (Attempt.mk l (.setOptions values)).decides := congrArg Except.isOk hok
        simp [perform, hstate, hdecides, hno, LifecycleState.rank]
      · have hdecides : (Attempt.mk l (.setOptions values)).decides = false := hfailed
        simp [perform, hstate, hdecides]
  | setup =>
      obtain ⟨hcreated, hstate⟩ | ⟨hcreated, ⟨hyes, hrank⟩ | ⟨hnot, hrank⟩⟩ := l.state_setup
      · simp [perform, hstate, hcreated, Attempt.decides]
      · simp [perform, hrank, hyes, Attempt.decides, hcreated]
      · have hfalls : ¬ 3 ≤ l.setup.2.state.rank := by omega
        simp [perform, hfalls, hnot, Attempt.decides, hcreated]

/-! ### Runs -/

theorem advanced_run (l : Lifecycle σ) (ops : List Operation) :
    2 ≤ (l.run ops).state.rank ↔ 2 ≤ l.state.rank ∨ ∃ a ∈ l.attempts ops, a.Advances := by
  induction ops generalizing l with
  | nil => simp [attempts]
  | cons op ops ih =>
      rw [run_cons, ih, advanced_perform, or_assoc, attempts]
      simp only [List.mem_cons, exists_eq_or_imp]

theorem declared_run (l : Lifecycle σ) (ops : List Operation) :
    3 ≤ (l.run ops).state.rank ↔
      match (l.decisions ops).getLast? with
      | some a => a.Declares
      | none => 3 ≤ l.state.rank :=
  @decided_run σ (fun l => 3 ≤ l.state.rank) Attempt.Declares declared_perform l ops

theorem eq_configured_iff (s : LifecycleState) : s = .configured ↔ 2 ≤ s.rank ∧ ¬ 3 ≤ s.rank := by
  cases s <;> decide

/-- A discipline is configured when some operation has taken it beyond its initialisation and the
last one that decides has not declared its variables. -/
theorem configured_run (d : Discipline σ) (memory : σ) (ops : List Operation) :
    ((register d memory).run ops).state = .configured ↔
      (∃ a ∈ (register d memory).attempts ops, a.Advances) ∧
        ∀ a, ((register d memory).decisions ops).getLast? = some a → ¬ a.Declares := by
  have hrank : (register d memory).state.rank = 0 := rfl
  rw [eq_configured_iff, advanced_run, declared_run, hrank]
  cases ((register d memory).decisions ops).getLast? with
  | none => simp
  | some a => simp

theorem setup_of_decides {a : Attempt σ} (hdecides : a.decides) (hnot : ¬ a.Configures) :
    a.operation = .setup := by
  obtain ⟨l, op⟩ := a
  cases op with
  | setup => rfl
  | setOptions values =>
      obtain ⟨hyes, -⟩ | ⟨-, hfailed, -⟩ := l.state_setOptions values
      · exact absurd hyes hnot
      · exact absurd (hfailed.symm.trans hdecides) Bool.false_ne_true
  | properties | initialise | setStreamOptions | compute => cases hdecides

theorem declares_of_result {a : Attempt σ} (hsetup : a.operation = .setup) (hdecides : a.decides)
    (hok : a.result = .ok ()) : a.Declares := by
  have hready := (ready_perform a.found a.operation).mpr (by rw [if_pos hdecides]; exact ⟨hsetup, hok⟩)
  have hdeclared := declared_perform a.found a.operation
  rw [hready, if_pos hdecides] at hdeclared
  exact hdeclared.mp (by decide)

/-- Whoever finds a discipline configured that has never taken in options finds it after a setup
that has declared its variables and a later one that has failed before. -/
theorem setups_of_configured {d : Discipline σ} {memory : σ} {ops : List Operation}
    (h : ((register d memory).run ops).state = .configured)
    (hnever : ¬ ∃ a ∈ (register d memory).attempts ops, a.Configures) :
    ∃ a b, [a, b].Sublist ((register d memory).attempts ops) ∧ a.Declares ∧
      b.operation = .setup ∧ b.result ≠ .ok () ∧ ¬ b.Declares := by
  obtain ⟨⟨a, ha, hadvances⟩, hlast⟩ := (configured_run d memory ops).mp h
  have hdeclares : a.Declares := hadvances.resolve_left fun hc => hnever ⟨a, ha, hc⟩
  have hmem : a ∈ (register d memory).decisions ops := List.mem_filter.mpr ⟨ha, hadvances.decides⟩
  obtain hnil | ⟨init, b, hinit⟩ := List.eq_nil_or_concat ((register d memory).decisions ops)
  · rw [hnil] at hmem
    cases hmem
  · rw [List.concat_eq_append] at hinit
    have hnot : ¬ b.Declares := hlast b (by rw [hinit, List.getLast?_concat])
    obtain ⟨hb, hdecides⟩ : b ∈ (register d memory).attempts ops ∧ b.decides :=
      List.mem_filter.mp (show b ∈ (register d memory).decisions ops by simp [hinit])
    have hsetup := setup_of_decides hdecides fun hc => hnever ⟨b, hb, hc⟩
    have hbefore : a ∈ init := by
      rw [hinit, List.mem_append, List.mem_singleton] at hmem
      exact hmem.resolve_right fun hab => hnot (hab ▸ hdeclares)
    have hsublist : [a, b].Sublist ((register d memory).decisions ops) := by
      rw [hinit]
      exact (List.singleton_sublist.mpr hbefore).append (List.Sublist.refl [b])
    exact ⟨a, b, hsublist.trans List.filter_sublist, hdeclares, hsetup,
      fun hok => hnot (declares_of_result hsetup hdecides hok), hnot⟩

/-- A discipline that is configured has taken in options since its registration, or else a setup has
declared its variables and a later one has failed before it did. More exactly, it is configured when
one of the two has happened and the last operation that decides has not declared the variables. -/
theorem configured_iff (d : Discipline σ) (memory : σ) (ops : List Operation) :
    (((register d memory).run ops).state = .configured →
      (∃ a ∈ (register d memory).attempts ops, a.Configures) ∨
        ∃ a b, [a, b].Sublist ((register d memory).attempts ops) ∧ a.Declares ∧
          b.operation = .setup ∧ b.result ≠ .ok () ∧ ¬ b.Declares) ∧
    (((register d memory).run ops).state = .configured ↔
      (∃ a ∈ (register d memory).attempts ops, a.Configures ∨ a.Declares) ∧
        ∀ a, ((register d memory).decisions ops).getLast? = some a → ¬ a.Declares) := by
  refine ⟨fun h => ?_, configured_run d memory ops⟩
  by_cases hever : ∃ a ∈ (register d memory).attempts ops, a.Configures
  · exact .inl hever
  · exact .inr (setups_of_configured h hever)

/-- A discipline whose second setup fails is configured, and no options were ever set. -/
theorem configured_without_options :
    let d : Discipline Nat :=
      { kind := .explicit
        setup := fun n => .done (if n = 0 then .ok () else .error (.failed "second"), n + 1) }
    let ops : List Operation := [.initialise, .setup, .setup]
    ((register d 0).run ops).state = .configured ∧
      ¬ ∃ a ∈ (register d 0).attempts ops, a.Configures := by
  intro d ops
  refine ⟨rfl, ?_⟩
  rintro ⟨a, ha, values, -, -, hop, -⟩
  obtain ⟨before, after, hops, -⟩ := exists_of_mem_attempts ha
  have hmem : a.operation ∈ ops := by simp [hops]
  simp [ops, hop] at hmem

end Lifecycle

end RemoteDiscipline
