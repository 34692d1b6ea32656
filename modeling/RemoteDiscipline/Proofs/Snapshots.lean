import RemoteDiscipline.Proofs.Interleaving
import RemoteDiscipline.Proofs.Lifecycle
import RemoteDiscipline.Proofs.Moves
/-!
Snapshots that are still true.

A computation sizes its buffers by a snapshot of the declarations and runs its hook later; in between
other calls may have set options or set the discipline up. Each step of a call does one of three
things to the lifecycle (`Host.effect_of_move`): it begins a generation, or it takes options in, or
it leaves declarations, generation and state as they are. Hence a snapshot whose generation is that
of a ready discipline is still true, and nothing has happened since that would have changed it.
-/

namespace RemoteDiscipline

namespace Host

variable {σ : Type}

/-- Whether the next step of a task is a setup that gets past its check. -/
def setsUp (h : Host σ) : Task → Prop
  | .applying .setup .empty => h.lifecycle.state ≠ .created
  | _ => False

def takesOptions (h : Host σ) : Task → Prop
  | .applying .setOptions (.options values) => (h.lifecycle.setOptions values).1 = .ok ()
  | _ => False

/-! ### What a step does to the lifecycle -/

/-- The two lifecycles have the same declarations, of the same generation, and the same state. -/
structure Keeps (l l' : Lifecycle σ) : Prop where
  discipline : l'.discipline = l.discipline
  metadata : l'.metadata = l.metadata
  generation : l'.generation = l.generation
  state : l'.state = l.state

theorem Keeps.refl (l : Lifecycle σ) : Keeps l l := ⟨rfl, rfl, rfl, rfl⟩

/-- What a step of a task does to the lifecycle. -/
inductive Effect (h : Host σ) (t : Task) (l : Lifecycle σ) : Prop
  | setup : h.setsUp t → l.discipline = h.lifecycle.discipline →
      l.generation = h.lifecycle.generation + 1 → Effect h t l
  | options : ¬ h.setsUp t → l.discipline = h.lifecycle.discipline →
      l.metadata = h.lifecycle.metadata → l.generation = h.lifecycle.generation →
      l.state = .configured → Effect h t l
  | quiet : ¬ h.setsUp t → ¬ h.takesOptions t → Keeps h.lifecycle l → Effect h t l

theorem effect_negotiate (h : Host σ) (m : Negotiation) (request : Message) :
    Effect h (.applying m request) (h.negotiate m request).2.lifecycle := by
  cases m with
  | setStreamOptions =>
      refine .quiet id id ?_
      simp only [negotiate]
      cases request <;> simp only [Message.expectStreamOptions] <;> try exact .refl _
      rename_i size
      simp only [acknowledge, after]
      obtain ⟨-, e, he⟩ | ⟨-, he⟩ := h.lifecycle.setStreamOptions_cases size
      · rw [he]
        exact .refl _
      · rw [he]
        exact ⟨rfl, rfl, rfl, rfl⟩
  | setOptions =>
      simp only [negotiate]
      cases request <;> simp only [Message.expectOptions] <;> try exact .quiet id id (.refl _)
      rename_i values
      simp only [acknowledge, after]
      obtain ⟨e, memory, he⟩ | ⟨-, memory, he⟩ := h.lifecycle.setOptions_cases values
      · refine .quiet id ?_ ?_
        · simp [takesOptions, he]
        · rw [he]
          exact ⟨rfl, rfl, rfl, rfl⟩
      · rw [he]
        exact .options id rfl rfl rfl rfl
  | setup =>
      simp only [negotiate]
      cases request <;> simp only [Message.expectEmpty] <;> try exact .quiet id id (.refl _)
      simp only [acknowledge, after]
      obtain ⟨hc, he⟩ | ⟨hc, r, memory, metadata, state, -, -, he, -, -⟩ := h.lifecycle.setup_cases
      · refine .quiet (fun hs => hs hc) id ?_
        rw [he]
        exact .refl _
      · rw [he]
        exact .setup hc rfl rfl
  | getInfo =>
      refine .quiet id id ?_
      simp only [negotiate]
      cases request <;> exact ⟨rfl, rfl, rfl, rfl⟩
  | getVariableDefinitions | getPartialDefinitions | getAvailableOptions =>
      refine .quiet id id ?_
      simp only [negotiate]
      cases request <;> exact .refl _

theorem requireCurrent_cases (h : Host σ) (s : Snapshot) :
    h.requireCurrent s = .ok () ∧ h.lifecycle.state = .ready ∧
        h.lifecycle.generation = s.generation ∨
      ∃ text, h.requireCurrent s = .error (.precondition text) := by
  unfold requireCurrent Lifecycle.requireReady
  by_cases hs : h.lifecycle.state = .ready
  · rw [if_pos hs]
    by_cases hg : h.lifecycle.generation = s.generation
    · rw [if_pos hg]
      exact .inl ⟨rfl, hs, hg⟩
    · rw [if_neg hg]
      exact .inr ⟨_, rfl⟩
  · rw [if_neg hs]
    exact .inr ⟨_, rfl⟩

/-- A computation whose snapshot is current runs its hook; any other leaves the host alone. -/
theorem evaluate_of_ok {h : Host σ} {s : Snapshot} (hc : h.requireCurrent s = .ok ())
    (k : Computation) (a : Arguments) :
    h.evaluate k s a =
      (((h.lifecycle.discipline.compute k a (s.metadata.buffers k.yield) h.lifecycle.memory).1.mapError
          (Fault.toError (.compute k))).map (Plan.reply s.metadata s.chunkSize k),
        { h with lifecycle := { h.lifecycle with
          memory := (h.lifecycle.discipline.compute k a (s.metadata.buffers k.yield)
            h.lifecycle.memory).2 } }) := by
  rw [evaluate, hc]
  rfl

theorem evaluate_of_error {h : Host σ} {s : Snapshot} {e : Error}
    (hc : h.requireCurrent s = .error e) (k : Computation) (a : Arguments) :
    h.evaluate k s a = (.error e, h) := by
  rw [evaluate, hc]

theorem keeps_evaluate (h : Host σ) (k : Computation) (s : Snapshot) (a : Arguments) :
    Keeps h.lifecycle (h.evaluate k s a).2.lifecycle := by
  obtain ⟨hc, -, -⟩ | ⟨text, hc⟩ := h.requireCurrent_cases s
  · rw [evaluate_of_ok hc]
    exact ⟨rfl, rfl, rfl, rfl⟩
  · rw [evaluate_of_error hc]
    exact .refl _

theorem snapshot_eq_ok_iff {h : Host σ} {k : Computation} {s : Snapshot} :
    h.snapshot k = .ok s ↔
      k.servedBy h.lifecycle.kind ∧ h.lifecycle.state = .ready ∧
        s = ⟨h.lifecycle.metadata, h.lifecycle.chunkSize, h.lifecycle.generation⟩ := by
  unfold snapshot Lifecycle.requireReady
  by_cases hk : k.servedBy h.lifecycle.kind
  · by_cases hs : h.lifecycle.state = .ready
    · simp [hk, hs, eq_comm]
    · simp [hk, hs]
  · simp [hk]

theorem lifecycle_release (h : Host σ) (ticket : Option Nat) :
    (h.release ticket).lifecycle = h.lifecycle := by
  unfold release
  split <;> rfl

theorem lifecycle_letIn (h : Host σ) (m : Method) : (h.letIn m).1.lifecycle = h.lifecycle := by
  unfold letIn
  split
  · rfl
  · split <;> rfl

theorem Effect.of_keeps {h : Host σ} {t : Task} {l : Lifecycle σ}
    (ht : ∀ m request, t ≠ .applying m request) (hl : Keeps h.lifecycle l) : Effect h t l := by
  refine .quiet ?_ ?_ hl
  · intro hs
    unfold setsUp at hs
    split at hs
    · exact ht _ _ rfl
    · exact hs
  · intro ho
    unfold takesOptions at ho
    split at ho
    · exact ht _ _ rfl
    · exact ho

theorem effect_of_move {h h' : Host σ} {c c' : Call} {t : Task} {progress : Progress Task}
    (hm : Move h c t h' c' progress) : Effect h t h'.lifecycle := by
  cases hm with
  | letIn m => exact .of_keeps (by simp) (lifecycle_letIn h m ▸ .refl _)
  | leave => exact .of_keeps (by simp) (lifecycle_release h _ ▸ .refl _)
  | @apply m request messages h' hn =>
      have he := effect_negotiate h m request
      rwa [hn] at he
  | @decline m request e h' hn =>
      have he := effect_negotiate h m request
      rwa [hn] at he
  | @evaluate k ticket s a plan h' hn =>
      have hl : h'.lifecycle = (h.evaluate k s a).2.lifecycle := by rw [hn]
      exact .of_keeps (by simp) (hl ▸ keeps_evaluate h k s a)
  | @abort k ticket s a e h' hn =>
      have hl : h'.lifecycle = (h.evaluate k s a).2.lifecycle := by rw [hn]
      exact .of_keeps (by simp) (hl ▸ keeps_evaluate h k s a)
  | request | close | responded | respond | start | refuse | drain | sent | cut | stop | commit | put =>
      exact .of_keeps (by simp) (.refl _)

/-! ### What happened since a snapshot -/

/-- What some steps that led from one host to another tell about the two. -/
structure Since (h : Host σ) (deeds : List (Deed (Host σ) Task)) (h' : Host σ) : Prop where
  generation : h.lifecycle.generation ≤ h'.lifecycle.generation
  /-- Within a generation nothing is declared and nothing set up. -/
  same : h'.lifecycle.generation = h.lifecycle.generation →
    h'.lifecycle.metadata = h.lifecycle.metadata ∧ ∀ e ∈ deeds, ¬ e.world.setsUp e.task
  /-- A discipline that is ready has not taken options in since its generation began. -/
  ready : h'.lifecycle.generation = h.lifecycle.generation → h'.lifecycle.state = .ready →
    ∀ e ∈ deeds, ¬ e.world.takesOptions e.task

theorem Since.refl (h : Host σ) : Since h [] h := ⟨Nat.le_refl _, by simp, by simp⟩

theorem Since.keep {h h' h'' : Host σ} {deeds : List (Deed (Host σ) Task)} (hs : Since h deeds h')
    (hk : h''.lifecycle = h'.lifecycle) : Since h deeds h'' := by
  obtain ⟨hgen, hsame, hready⟩ := hs
  rw [← hk] at hgen hsame hready
  exact ⟨hgen, hsame, hready⟩

theorem Since.step {h h' h'' : Host σ} {deeds : List (Deed (Host σ) Task)} (hs : Since h deeds h')
    {i : Nat} {t : Task} (he : Effect h' t h''.lifecycle) :
    Since h (deeds ++ [⟨i, h', t⟩]) h'' := by
  obtain ⟨hgen, hsame, hready⟩ := hs
  cases he with
  | setup hset hd hg =>
      -- The generation is a new one, so nothing is claimed.
      have hlt : h''.lifecycle.generation ≠ h.lifecycle.generation := by omega
      exact ⟨by omega, fun hg' => absurd hg' hlt, fun hg' => absurd hg' hlt⟩
  | options hset hd hm hg hst =>
      refine ⟨hg ▸ hgen, fun hg' => ?_, fun hg' hr => ?_⟩
      · obtain ⟨hmeta, hdeeds⟩ := hsame (hg ▸ hg')
        refine ⟨hm.trans hmeta, List.forall_mem_append.mpr ⟨hdeeds, ?_⟩⟩
        exact List.forall_mem_singleton.mpr hset
      · -- Options that were taken in leave the discipline configured, and not ready.
        rw [hst] at hr
        cases hr
  | quiet hset hopt hk =>
      refine ⟨hk.generation ▸ hgen, fun hg' => ?_, fun hg' hr => ?_⟩
      · obtain ⟨hmeta, hdeeds⟩ := hsame (hk.generation ▸ hg')
        refine ⟨hk.metadata.trans hmeta, List.forall_mem_append.mpr ⟨hdeeds, ?_⟩⟩
        exact List.forall_mem_singleton.mpr hset
      · have hbefore := hready (hk.generation ▸ hg') (hk.state ▸ hr)
        refine List.forall_mem_append.mpr ⟨hbefore, ?_⟩
        exact List.forall_mem_singleton.mpr hopt

def Task.taken : Task → Option (Computation × Option Nat × Snapshot)
  | .draining k ticket s _ | .evaluating k ticket s _ => some (k, ticket, s)
  | _ => none

/-- Where the snapshot of a task comes from: one of the steps took it, and so much has happened
since. -/
def Grounded (deeds : List (Deed (Host σ) Task)) (h : Host σ) (i : Nat) (t : Task) : Prop :=
  ∀ k ticket s, t.taken = some (k, ticket, s) →
    ∃ before h₀ since, deeds = before ++ ⟨i, h₀, .queued k ticket⟩ :: since ∧
      h₀.snapshot k = .ok s ∧ Since h₀ since h

theorem grounded_of_none {deeds : List (Deed (Host σ) Task)} {h : Host σ} {i : Nat} {t : Task}
    (ht : t.taken = none) : Grounded deeds h i t := by
  intro k ticket s hs
  rw [ht] at hs
  cases hs

theorem Grounded.keep {deeds : List (Deed (Host σ) Task)} {h h' : Host σ} {i : Nat} {t : Task}
    (hg : Grounded deeds h i t) (hk : h'.lifecycle = h.lifecycle) : Grounded deeds h' i t := by
  intro k ticket s ht
  obtain ⟨before, h₀, since, hd, hs, hsince⟩ := hg k ticket s ht
  exact ⟨before, h₀, since, hd, hs, hsince.keep hk⟩

theorem Grounded.step {deeds : List (Deed (Host σ) Task)} {h h' : Host σ} {i j : Nat} {t t' : Task}
    (hg : Grounded deeds h i t) (he : Effect h t' h'.lifecycle) :
    Grounded (deeds ++ [⟨j, h, t'⟩]) h' i t := by
  intro k ticket s ht
  obtain ⟨before, h₀, since, hd, hs, hsince⟩ := hg k ticket s ht
  exact ⟨before, h₀, since ++ [⟨j, h, t'⟩], by simp [hd], hs, hsince.step he⟩

theorem taken_ofArgument {k : Computation} {ticket : Option Nat} {s : Snapshot} {a : Arguments}
    {r : Except Error (Option Message)} {x : Computation × Option Nat × Snapshot}
    (h : (Task.ofArgument k ticket s a r).taken = some x) : x = (k, ticket, s) := by
  unfold Task.ofArgument at h
  split at h
  · exact (Option.some.inj h).symm
  · split at h
    · exact (Option.some.inj h).symm
    · cases h
  · cases h

/-- A task leads to one with a snapshot only by taking it, or by keeping the one it has. -/
theorem taken_of_move {h h' : Host σ} {c c' : Call} {t t' : Task}
    (hm : Move h c t h' c' (.running t')) {k : Computation} {ticket : Option Nat} {s : Snapshot}
    (ht : t'.taken = some (k, ticket, s)) :
    (t = .queued k ticket ∧ h.snapshot k = .ok s ∧ h' = h) ∨ t.taken = some (k, ticket, s) := by
  cases hm with
  | start hturn hs =>
      cases ht
      exact .inl ⟨rfl, hs, rfl⟩
  | drain hr =>
      cases taken_ofArgument ht
      exact .inr rfl
  | letIn m =>
      unfold letIn at ht
      split at ht
      · cases ht
      · split at ht <;> cases ht
  | request hr => unfold Task.ofRequest at ht; split at ht <;> cases ht
  | close hr => unfold Task.ofEnd at ht; split at ht <;> cases ht
  | @respond m rest r c' hr => cases r <;> cases ht
  | @put ticket chunk rest r c' hr => cases r <;> cases ht
  | apply | decline | responded | refuse | evaluate | abort | sent | cut | stop | commit => cases ht

theorem grounded_of_move {deeds : List (Deed (Host σ) Task)} {h h' : Host σ} {i : Nat}
    {c c' : Call} {t t' : Task} (hg : Grounded deeds h i t)
    (hm : Move h c t h' c' (.running t')) : Grounded (deeds ++ [⟨i, h, t⟩]) h' i t' := by
  intro k ticket s ht
  obtain ⟨rfl, hs, rfl⟩ | hk := taken_of_move hm ht
  · exact ⟨deeds, h', [], rfl, hs, .refl h'⟩
  · exact hg.step (effect_of_move hm) k ticket s hk

def Unlinking (h h' : Host σ) : Prop := h' = h.unlink

variable {ι : Type}

/-- Whatever the schedule, the snapshots of all tasks are grounded. -/
theorem grounded_of_run {x y : Session ι (Host σ) Task} {deeds : List (Deed (Host σ) Task)}
    (hx : x.calls = []) (hrun : Session.Run service Unlinking x deeds y) {i : Nat} {id : ι}
    {c : Served Task} {t : Task} (hc : y.calls[i]? = some (id, c)) (ht : c.progress = .running t) :
    Grounded deeds y.world i t := by
  induction hrun generalizing i id c t with
  | refl => simp [hx] at hc
  | @advance deeds y j id' c₀ c₁ t₀ w _ hc₀ ht₀ ha ih =>
      obtain ⟨t₀', ht₀', hm⟩ := move_of_advance ha
      rw [ht₀] at ht₀'
      cases ht₀'
      obtain ⟨rfl, hcall⟩ | ⟨-, hc⟩ := Session.calls_set_cases hc
      · cases hcall
        rw [ht] at hm
        exact grounded_of_move (ih hc₀ ht₀) hm
      · exact (ih hc ht).step (effect_of_move hm)
  | @«begin» deeds y id' call _ ih =>
      dsimp only at hc
      rw [List.getElem?_append] at hc
      split at hc
      · exact ih hc ht
      · rw [List.getElem?_singleton] at hc
        split at hc <;> cases hc
        cases ht
        exact grounded_of_none rfl
  | @client deeds y j id' c₀ f _ hc₀ ih =>
      obtain ⟨rfl, hcall⟩ | ⟨-, hc⟩ := Session.calls_set_cases hc
      · cases hcall
        exact ih hc₀ ht
      · exact ih hc ht
  | @expire deeds y j id' c₀ t₀ status _ hc₀ ht₀ ih =>
      obtain ⟨rfl, hcall⟩ | ⟨-, hc⟩ := Session.calls_set_cases hc
      · cases hcall
        cases ht
      · exact (ih hc ht).keep (lifecycle_release _ _)
  | meanwhile _ hw ih =>
      rw [hw]
      exact (ih hc ht).keep rfl

def Task.sendsChunk : Task → Prop
  | .committed _ _ _ => True
  | _ => False

theorem stage_of_sendsChunk {t : Task} (h : t.sendsChunk) : t.stage = 1 := by
  cases t <;> first
    | rfl
    | cases h

theorem progress_of_refused {h h' : Host σ} {c c' : Call} {k : Computation} {ticket : Option Nat}
    {s : Snapshot} {a : Arguments} {e : Error} {progress : Progress Task}
    (hcur : h.requireCurrent s = .error e)
    (hm : Move h c (.evaluating k ticket s a) h' c' progress) :
    progress = .running (.failing ticket e) := by
  cases hm with
  | evaluate hn =>
      rw [evaluate_of_error hcur] at hn
      cases hn
  | abort hn =>
      rw [evaluate_of_error hcur] at hn
      cases hn
      rfl

/-- In every schedule, a computation that comes to run its hook took its snapshot in an earlier step.
Either the snapshot is current: then the hook runs on buffers of the declarations in force, which
are those of the snapshot, and since then no setup got past its check and no options were taken in.
Or the call is refused for the state of the discipline: then the hook does not run, nothing changes,
and the call sends no chunk at any time. -/
theorem evaluation_current {d : Discipline σ} {memory : σ} {concurrency : Concurrency}
    {y : Session ι (Host σ) Task} {before after : List (Deed (Host σ) Task)} {i : Nat} {h : Host σ}
    {k : Computation} {ticket : Option Nat} {s : Snapshot} {a : Arguments}
    (hrun : Session.Run service Unlinking ⟨(register d memory concurrency).2, []⟩
      (before ++ ⟨i, h, .evaluating k ticket s a⟩ :: after) y) :
    ∃ earlier h₀ since, before = earlier ++ ⟨i, h₀, .queued k ticket⟩ :: since ∧
      h₀.snapshot k = .ok s ∧
      ((h.requireCurrent s = .ok () ∧
          (h.evaluate k s a).2.lifecycle.memory =
            (h.lifecycle.discipline.compute k a (h.lifecycle.metadata.buffers k.yield)
              h.lifecycle.memory).2 ∧
          h.lifecycle.metadata = s.metadata ∧ s.metadata = h₀.lifecycle.metadata ∧
          ∀ e ∈ since, ¬ e.world.setsUp e.task ∧ ¬ e.world.takesOptions e.task) ∨
        ∃ text, h.requireCurrent s = .error (.precondition text) ∧
          h.evaluate k s a = (.error (.precondition text), h) ∧
          ∀ e ∈ before ++ after, e.call = i → ¬ e.task.sendsChunk) := by
  have hordered := fun e he hi => hrun.stage_le_of_before (e := e) he hi
  obtain ⟨x', id, c, c', w, hfirst, hw, hc, ht, ha, hrest⟩ := hrun.split
  subst hw
  obtain ⟨earlier, h₀, since, hd, hs, hsince⟩ := grounded_of_run rfl hfirst hc ht k ticket s rfl
  refine ⟨earlier, h₀, since, hd, hs, ?_⟩
  obtain ⟨-, -, hsnap⟩ := snapshot_eq_ok_iff.mp hs
  obtain ⟨hcur, hready, hgen⟩ | ⟨text, hcur⟩ := x'.world.requireCurrent_cases s
  · left
    rw [hsnap] at hgen
    obtain ⟨hmeta, hset⟩ := hsince.same hgen
    have hsm : s.metadata = h₀.lifecycle.metadata := by rw [hsnap]
    refine ⟨hcur, ?_, hmeta.trans hsm.symm, hsm, ?_⟩
    · rw [evaluate_of_ok hcur, hmeta, hsm]
    · intro e he
      exact ⟨hset e he, hsince.ready hgen hready e he⟩
  · right
    refine ⟨text, hcur, evaluate_of_error hcur k a, ?_⟩
    intro e he hi hsend
    have hstage := stage_of_sendsChunk hsend
    rcases List.mem_append.mp he with he | he
    · have hle : 2 ≤ e.task.stage := hordered e he hi
      omega
    · -- The call leaves right away, so nothing of what follows is a step of a task that sends.
      obtain ⟨t', ht', hm⟩ := move_of_advance ha
      rw [ht] at ht'
      cases ht'
      have hc' := progress_of_refused hcur hm
      obtain ⟨hlt, -⟩ := List.getElem?_eq_some_iff.mp hc
      have hle := (hrest.stage_le (List.getElem?_set_self hlt)).2 e he hi
      simp only [Served.stage, hc'] at hle
      change e.task.stage + 1 ≤ 0 + 1 at hle
      omega

/-- A discipline that is set up between the snapshot of a computation and its hook, with all steps
of the three calls: the computation is refused, although the discipline is ready again. -/
theorem evaluation_refused_after_setup :
    ∃ (y : Session Unit (Host Unit) Task) (before : List (Deed (Host Unit) Task)) (h : Host Unit)
      (s : Snapshot),
      Session.Run service Unlinking
          ⟨(register { kind := .explicit } () .concurrent).2, []⟩
          (before ++ [⟨1, h, .evaluating .function none s (.zeros s.metadata .function)⟩]) y ∧
        h.lifecycle.state = .ready ∧ s.generation < h.lifecycle.generation ∧
        ∃ text, h.evaluate .function s (.zeros s.metadata .function) =
          (.error (.precondition text), h) := by
  have start : Session.Run service Unlinking
      (⟨(register { kind := .explicit } () .concurrent).2, []⟩ : Session Unit (Host Unit) Task) []
      _ := .refl
  have first := (start.begin () (.fresh (.negotiate .setup) 1 true)).client (i := 0)
    (fun c => (c.feed [.ok .empty]).halfClose) rfl
  have ready := ((first.advance (i := 0) rfl rfl rfl).advance (i := 0) rfl rfl rfl).advance
    (i := 0) rfl rfl rfl |>.advance (i := 0) rfl rfl rfl
  have second := (ready.begin () (.fresh (.compute .function) 1 true)).client (i := 1)
    Call.halfClose rfl
  have taken := ((second.advance (i := 1) rfl rfl rfl).advance (i := 1) rfl rfl rfl).advance
    (i := 1) rfl rfl rfl
  have third := (taken.begin () (.fresh (.negotiate .setup) 1 true)).client (i := 2)
    (fun c => (c.feed [.ok .empty]).halfClose) rfl
  have again := ((third.advance (i := 2) rfl rfl rfl).advance (i := 2) rfl rfl rfl).advance
    (i := 2) rfl rfl rfl |>.advance (i := 2) rfl rfl rfl
  have refused := again.advance (i := 1) rfl rfl rfl
  obtain ⟨-, -, -, -, -, ⟨hcur, -⟩ | ⟨text, -, he, -⟩⟩ := evaluation_current refused
  · cases hcur
  · exact ⟨_, _, _, _, refused, rfl, by decide, text, he⟩

end Host

end RemoteDiscipline
