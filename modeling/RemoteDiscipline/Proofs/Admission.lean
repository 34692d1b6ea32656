import RemoteDiscipline.Proofs.Snapshots
/-!
Which operations decide whether computations are admitted.

Two kinds of operations do: a setup that gets past its check, however it ends, and options that are
taken in. Everything else leaves a ready discipline ready and no other one becomes so
(`Lifecycle.ready_perform`). After any run the last one that decides has therefore settled the matter
(`Lifecycle.ready_iff_last_decision`).
-/

namespace RemoteDiscipline

namespace Lifecycle

variable {σ : Type}

/-- An operation, with the lifecycle that it finds. -/
structure Attempt (σ : Type) where
  found : Lifecycle σ
  operation : Operation

namespace Attempt

def result (a : Attempt σ) : Except Error Unit := (a.found.perform a.operation).1

/-- Whether an attempt decides if computations are admitted from now on: a setup of a discipline that
is initialised, or options that are set successfully. -/
def decides (a : Attempt σ) : Bool :=
  match a.operation with
  | .setup => a.found.state ≠ .created
  | .setOptions _ => a.result.isOk
  | .properties | .initialise | .setStreamOptions _ | .compute _ _ _ => false

def Admits (a : Attempt σ) : Prop := a.operation = .setup ∧ a.result = .ok ()

end Attempt

def attempts (l : Lifecycle σ) : List Operation → List (Attempt σ)
  | [] => []
  | op :: ops => ⟨l, op⟩ :: (l.perform op).2.attempts ops

def decisions (l : Lifecycle σ) (ops : List Operation) : List (Attempt σ) :=
  (l.attempts ops).filter Attempt.decides

@[simp] theorem run_nil (l : Lifecycle σ) : l.run [] = l := rfl

@[simp] theorem run_cons (l : Lifecycle σ) (op : Operation) (ops : List Operation) :
    l.run (op :: ops) = (l.perform op).2.run ops := rfl

theorem exists_of_mem_attempts {l : Lifecycle σ} {ops : List Operation} {a : Attempt σ}
    (h : a ∈ l.attempts ops) :
    ∃ before after, ops = before ++ a.operation :: after ∧ a.found = l.run before := by
  induction ops generalizing l with
  | nil => simp [attempts] at h
  | cons op ops ih =>
      obtain rfl | h := List.mem_cons.mp h
      · exact ⟨[], ops, rfl, rfl⟩
      · obtain ⟨before, after, rfl, hfound⟩ := ih h
        exact ⟨op :: before, after, rfl, hfound⟩

/-! ### One operation -/

theorem state_initialise (l : Lifecycle σ) :
    l.initialise.2.state = l.state ∨
      l.state = .created ∧ l.initialise.2.state = .initialised := by
  unfold initialise
  split
  · rename_i hcreated
    have hkeeps : (l.runDeclaring .initialise l.discipline.initialise).2.state = l.state := rfl
    split
    · rename_i e l' heq
      rw [heq] at hkeeps
      exact .inl hkeeps
    · exact .inr ⟨hcreated, rfl⟩
  · exact .inl rfl

theorem ready_initialise (l : Lifecycle σ) : l.initialise.2.state = .ready ↔ l.state = .ready := by
  obtain hsame | ⟨hcreated, hinitialised⟩ := l.state_initialise
  · rw [hsame]
  · simp [hcreated, hinitialised]

/-- Whether a discipline is ready after an operation: one that decides has decided it, and any other
has left it as it was. -/
theorem ready_perform (l : Lifecycle σ) (op : Operation) :
    (l.perform op).2.state = .ready ↔
      if (Attempt.mk l op).decides then (Attempt.mk l op).Admits else l.state = .ready := by
  cases op with
  | properties | compute => rfl
  | initialise => exact l.ready_initialise
  | setStreamOptions size =>
      obtain ⟨-, e, he⟩ | ⟨-, he⟩ := l.setStreamOptions_cases size
      · simp [perform, he, Attempt.decides]
      · simp [perform, he, Attempt.decides]
  | setOptions values =>
      obtain ⟨e, memory, he⟩ | ⟨-, memory, he⟩ := l.setOptions_cases values
      · simp [perform, he, Attempt.decides, Attempt.result, Except.isOk, Except.toBool]
      · simp [perform, he, Attempt.decides, Attempt.result, Attempt.Admits, Except.isOk,
          Except.toBool]
  | setup =>
      obtain ⟨hcreated, he⟩ | ⟨hcreated, r, memory, metadata, state, -, -, he, hstate, -⟩ :=
        l.setup_cases
      · simp [perform, he, Attempt.decides, hcreated]
      · simp [perform, he, Attempt.decides, hcreated, Attempt.Admits, Attempt.result, hstate]

/-! ### Runs -/

/-- What only the operations that decide can change is, after a run, as the last of them has left it,
if there was one. -/
theorem decided_run {P : Lifecycle σ → Prop} {Q : Attempt σ → Prop}
    (hstep : ∀ l op, P (l.perform op).2 ↔
      if (Attempt.mk l op).decides then Q (Attempt.mk l op) else P l)
    (l : Lifecycle σ) (ops : List Operation) :
    P (l.run ops) ↔
      match (l.decisions ops).getLast? with
      | some a => Q a
      | none => P l := by
  induction ops generalizing l with
  | nil => rfl
  | cons op ops ih =>
      rw [run_cons, ih]
      have hfirst := hstep l op
      cases hdecides : (Attempt.mk l op).decides with
      | false =>
          have hsame : l.decisions (op :: ops) = (l.perform op).2.decisions ops :=
            List.filter_cons_of_neg (by simp [hdecides])
          rw [hdecides, if_neg Bool.false_ne_true] at hfirst
          rw [hsame]
          simp only [hfirst]
      | true =>
          have hmore : l.decisions (op :: ops) = ⟨l, op⟩ :: (l.perform op).2.decisions ops :=
            List.filter_cons_of_pos hdecides
          rw [hdecides, if_pos rfl] at hfirst
          rw [hmore, List.getLast?_cons]
          cases ((l.perform op).2.decisions ops).getLast? with
          | none => exact hfirst
          | some a => rfl

theorem ready_run (l : Lifecycle σ) (ops : List Operation) :
    (l.run ops).state = .ready ↔
      match (l.decisions ops).getLast? with
      | some a => a.Admits
      | none => l.state = .ready :=
  @decided_run σ (fun l => l.state = .ready) Attempt.Admits ready_perform l ops

/-- A discipline that is not ready becomes so by a setup that ends well. -/
theorem exists_setup_of_ready {l : Lifecycle σ} {ops : List Operation} (hl : l.state ≠ .ready)
    (h : (l.run ops).state = .ready) :
    ∃ before after, ops = before ++ .setup :: after ∧ (l.run before).setup.1 = .ok () := by
  rw [ready_run] at h
  split at h
  · rename_i a hlast
    have hmem : a ∈ l.attempts ops := (List.mem_filter.mp (List.mem_of_getLast? hlast)).1
    obtain ⟨before, after, hops, hfound⟩ := exists_of_mem_attempts hmem
    obtain ⟨hsetup, hok⟩ := h
    refine ⟨before, after, by rw [hops, hsetup], ?_⟩
    rwa [Attempt.result, hsetup, hfound] at hok
  · exact absurd h hl

theorem requireReady_eq_ok_iff (l : Lifecycle σ) : l.requireReady = .ok () ↔ l.state = .ready := by
  unfold requireReady
  split
  · rename_i h
    simp [h]
  · rename_i h
    simp [h]

/-- A discipline is ready after a run exactly when the last operation that decides was a setup that
ended well. Then and only then it lets computations begin. A setup that fails closes it until another
one ends well, and operations that do not decide neither open nor close it. -/
theorem ready_iff_last_decision (d : Discipline σ) (memory : σ) (ops : List Operation) :
    (((register d memory).run ops).state = .ready ↔
      ∃ a, ((register d memory).decisions ops).getLast? = some a ∧ a.Admits) ∧
    (((register d memory).run ops).requireReady = .ok () ↔
      ((register d memory).run ops).state = .ready) ∧
    (∀ (h : Host σ) (c : Computation), h.lifecycle = (register d memory).run ops →
      c.servedBy d.kind → ((∃ s, h.snapshot c = .ok s) ↔
        ((register d memory).run ops).state = .ready)) ∧
    (∀ op, (Attempt.mk ((register d memory).run ops) op).decides = false →
      (((register d memory).run (ops ++ [op])).state = .ready ↔
        ((register d memory).run ops).state = .ready)) ∧
    ∀ more, ((register d memory).run ops).state ≠ .created →
      ((register d memory).run ops).setup.1 ≠ .ok () →
      ((register d memory).run (ops ++ .setup :: more)).state = .ready →
      ∃ between later, more = between ++ .setup :: later ∧
        ((register d memory).run (ops ++ .setup :: between)).setup.1 = .ok () := by
  have hrun (more : List Operation) :
      (register d memory).run (ops ++ more) = ((register d memory).run ops).run more :=
    List.foldl_append
  refine ⟨?_, requireReady_eq_ok_iff _, ?_, ?_, ?_⟩
  · rw [ready_run]
    cases ((register d memory).decisions ops).getLast? with
    | none => simp [register]
    | some a => simp
  · intro h c hl hserved
    obtain ⟨-, hd⟩ := (sound_register d memory).run ops
    have hkind : c.servedBy h.lifecycle.kind := by rwa [kind, hl, hd]
    simp only [Host.snapshot_eq_ok_iff]
    rw [← hl]
    constructor
    · rintro ⟨s, -, hready, -⟩
      exact hready
    · intro hready
      exact ⟨_, hkind, hready, rfl⟩
  · intro op hop
    rw [hrun, run_cons, run_nil, ready_perform, hop, if_neg Bool.false_ne_true]
  · intro more hcreated hfails hready
    rw [hrun, run_cons] at hready
    have hclosed : (((register d memory).run ops).perform .setup).2.state ≠ .ready := by
      rw [ne_eq, ready_perform, if_pos (by simp [Attempt.decides, hcreated])]
      exact fun h => hfails h.2
    obtain ⟨between, later, hmore, hok⟩ := exists_setup_of_ready hclosed hready
    exact ⟨between, later, hmore, by rwa [hrun, run_cons]⟩

end Lifecycle

end RemoteDiscipline
