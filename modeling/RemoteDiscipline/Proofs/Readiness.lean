import RemoteDiscipline.Proofs.Snapshots
/-!
What a discipline that computes has been through.

A discipline is ready only when a setup has ended well and nothing has taken that back since
(`Host.Readied`). A new setup takes it back before its hooks run. Options take it back only when the
discipline has been configured with them: if that fails, the discipline has the options and is still
ready.
-/

namespace RemoteDiscipline

namespace Host

variable {σ ι : Type}

/-- Whether the next step of a task is a setup that ends well. -/
def completesSetup (h : Host σ) : Task → Prop
  | .applying .setup .empty => h.lifecycle.setup.1 = .ok ()
  | _ => False

/-- Whether the next step of a task hands options to the discipline, which takes them in. -/
def appliesOptions (h : Host σ) : Task → Prop
  | .applying .setOptions (.options values) =>
    h.lifecycle.state ≠ .created ∧
      (h.lifecycle.discipline.setOptions values h.lifecycle.memory).1 = .ok ()
  | _ => False

/-- Whether the next step of a task hands options to the discipline, which then cannot be configured
with them. -/
def failsToConfigure (h : Host σ) : Task → Prop
  | .applying .setOptions (.options values) =>
    ∃ fault, (h.lifecycle.discipline.configure
      (h.lifecycle.discipline.setOptions values h.lifecycle.memory).2).1 = .error fault
  | _ => False

theorem failsToConfigure_of_appliesOptions {h : Host σ} {t : Task} (ha : h.appliesOptions t)
    (ht : ¬ h.takesOptions t) : h.failsToConfigure t := by
  unfold appliesOptions at ha
  split at ha
  · rename_i values
    obtain ⟨hcreated, hhook⟩ := ha
    cases hc : (h.lifecycle.discipline.configure
        (h.lifecycle.discipline.setOptions values h.lifecycle.memory).2).1 with
    | error fault => exact ⟨fault, hc⟩
    | ok u =>
        refine absurd ?_ ht
        simp only [takesOptions, Lifecycle.setOptions, hcreated, if_false, Lifecycle.afterHook, hhook,
          mapError_ok, hc]
  · exact ha.elim

theorem lifecycle_negotiate_setup (h : Host σ) :
    (h.negotiate .setup .empty).2.lifecycle = h.lifecycle.setup.2 := rfl

theorem completesSetup_of_ready {h h' : Host σ} {c c' : Call} {t : Task} {progress : Progress Task}
    (hm : Move h c t h' c' progress) (hset : h.setsUp t) (hready : h'.lifecycle.state = .ready) :
    h.completesSetup t := by
  unfold setsUp at hset
  split at hset
  · have hsetup : h'.lifecycle = h.lifecycle.setup.2 := by
      rw [← lifecycle_negotiate_setup]
      cases hm with
      | apply hn | decline hn => rw [hn]
    obtain ⟨hc, -⟩ | ⟨-, r, memory, metadata, state, -, -, he, hstate, -⟩ := h.lifecycle.setup_cases
    · exact absurd hc hset
    · rw [hsetup, he] at hready
      rw [completesSetup, he]
      exact hstate.mp hready
  · exact hset.elim

/-- Among the steps so far there is a setup that ended well, and since then nothing has taken that
back. -/
def SetUp (deeds : List (Deed (Host σ) Task)) : Prop :=
  ∃ earlier e since, deeds = earlier ++ e :: since ∧ e.world.completesSetup e.task ∧
    ∀ e' ∈ since, ¬ e'.world.setsUp e'.task ∧ ¬ e'.world.takesOptions e'.task

/-- A step that leads to a discipline that is ready: it completes a setup, or the discipline was
ready before and the step has not taken that back. -/
theorem setUp_of_move {h h' : Host σ} {c c' : Call} {t : Task} {progress : Progress Task}
    (hm : Move h c t h' c' progress) {deeds : List (Deed (Host σ) Task)} (i : Nat)
    (hdeeds : h.lifecycle.state = .ready → SetUp deeds) (hready : h'.lifecycle.state = .ready) :
    SetUp (deeds ++ [⟨i, h, t⟩]) := by
  cases effect_of_move hm with
  | setup hset _ _ => exact ⟨deeds, _, [], rfl, completesSetup_of_ready hm hset hready, by simp⟩
  | options _ _ _ _ hstate =>
      rw [hstate] at hready
      cases hready
  | quiet hset hopt hk =>
      obtain ⟨earlier, e, since, rfl, he, hsince⟩ := hdeeds (hk.state ▸ hready)
      refine ⟨earlier, e, since ++ [⟨i, h, t⟩], by simp, he, ?_⟩
      exact List.forall_mem_append.mpr ⟨hsince, List.forall_mem_singleton.mpr ⟨hset, hopt⟩⟩

theorem not_ready_register (d : Discipline σ) (memory : σ) (concurrency : Concurrency) :
    (register d memory concurrency).2.lifecycle.state ≠ .ready := by
  show ((Lifecycle.register d memory).initialise).2.state ≠ .ready
  obtain ⟨hc, -⟩ | ⟨-, r, memory', metadata, state, -, -, hstate, he⟩ :=
    Lifecycle.initialise_cases (Lifecycle.sound_register d memory).metadata
  · exact absurd rfl hc
  · rw [he]
    exact hstate

theorem setUp_of_run {d : Discipline σ} {memory : σ} {concurrency : Concurrency}
    {y : Session ι (Host σ) Task} {deeds : List (Deed (Host σ) Task)}
    (hrun : Session.Run service Unlinking ⟨(register d memory concurrency).2, []⟩ deeds y)
    (hready : y.world.lifecycle.state = .ready) : SetUp deeds := by
  induction hrun with
  | refl => exact absurd hready (not_ready_register d memory concurrency)
  | @advance deeds y i id c c' t w _ hc ht ha ih =>
      obtain ⟨t', ht', hm⟩ := move_of_advance ha
      rw [ht] at ht'
      cases ht'
      exact setUp_of_move hm i ih hready
  | «begin» id call _ ih => exact ih hready
  | client f _ hc ih => exact ih hready
  | expire status _ hc ht ih => exact ih (lifecycle_release _ _ ▸ hready)
  | meanwhile _ hw ih => exact ih (by rwa [hw] at hready)

/-! ### Calls one after another -/

section Schedules

variable {x : Session ι (Host σ) Task} {calls : List (ι × Served Task)} {h h' : Host σ} {id : ι}
  {deeds : List (Deed (Host σ) Task)}

theorem run_move {call call' : Call} {t : Task} {progress : Progress Task}
    (hrun : Session.Run service Unlinking x deeds ⟨h, calls ++ [(id, ⟨call, .running t⟩)]⟩)
    (hm : Move h call t h' call' progress) :
    Session.Run service Unlinking x (deeds ++ [⟨calls.length, h, t⟩])
      ⟨h', calls ++ [(id, ⟨call', progress⟩)]⟩ := by
  have hlast : (calls ++ [(id, (⟨call, .running t⟩ : Served Task))])[calls.length]? =
      some (id, ⟨call, .running t⟩) := by simp
  simpa using hrun.advance hlast rfl (advance_of_move hm)

theorem run_begin (hrun : Session.Run service Unlinking x deeds ⟨h, calls⟩) (id : ι) (m : Method)
    (messages : List Message) :
    Session.Run service Unlinking x deeds ⟨h, calls ++
      [(id, ⟨((Call.fresh m 1 true).feed (messages.map .ok)).halfClose, .running (.arrived m)⟩)]⟩ := by
  have hlast : (calls ++ [(id, Served.begin (service (σ := σ)) (Call.fresh m 1 true))])[calls.length]? =
      some (id, Served.begin (service (σ := σ)) (Call.fresh m 1 true)) := by simp
  have hsaid := (hrun.begin id (Call.fresh m 1 true)).client
    (fun c => (c.feed (messages.map .ok)).halfClose) hlast
  rw [List.set_append_right _ _ (Nat.le_refl _), Nat.sub_self] at hsaid
  exact hsaid

def askingDeeds (i : Nat) (h : Host σ) (m : Negotiation) (request : Message) :
    List (Deed (Host σ) Task) :=
  [⟨i, h, .arrived (.negotiate m)⟩, ⟨i, h, .awaiting m⟩, ⟨i, h, .closing m request⟩]

def requestDeeds (i : Nat) (h : Host σ) (m : Negotiation) (request : Message) :
    List (Deed (Host σ) Task) :=
  askingDeeds i h m request ++ [⟨i, h, .applying m request⟩]

def computeDeeds (i : Nat) (h : Host σ) (k : Computation) (s : Snapshot) :
    List (Deed (Host σ) Task) :=
  [⟨i, h, .arrived (.compute k)⟩, ⟨i, h, .queued k none⟩,
    ⟨i, h, .draining k none s (.zeros s.metadata k)⟩]

theorem run_request (hrun : Session.Run service Unlinking x deeds ⟨h, calls⟩) (hlinked : h.linked)
    (id : ι) (m : Negotiation) (request : Message) :
    ∃ c, Session.Run service Unlinking x (deeds ++ requestDeeds calls.length h m request)
      ⟨(h.negotiate m request).2, calls ++ [(id, c)]⟩ := by
  have hletIn : h.letIn (.negotiate m) = (h, .awaiting m) := by simp [letIn, hlinked]
  have harrived := run_move (run_begin hrun id (.negotiate m) [request]) (.letIn (.negotiate m))
  rw [hletIn] at harrived
  have hclosing := run_move (run_move harrived (.request rfl)) (.close rfl)
  cases hn : h.negotiate m request with
  | mk r h' =>
      cases r with
      | ok messages =>
          have hrun := run_move hclosing (.apply hn)
          exact ⟨_, by simpa [requestDeeds, askingDeeds, Task.ofRequest, Task.ofEnd, Call.requestOf,
            Call.endOf] using hrun⟩
      | error e =>
          have hrun := run_move hclosing (.decline hn)
          exact ⟨_, by simpa [requestDeeds, askingDeeds, Task.ofRequest, Task.ofEnd, Call.requestOf,
            Call.endOf] using hrun⟩

theorem run_compute (hrun : Session.Run service Unlinking x deeds ⟨h, calls⟩) (hlinked : h.linked)
    (hgate : h.gate = none) (id : ι) {k : Computation} {s : Snapshot} (hs : h.snapshot k = .ok s) :
    ∃ y, Session.Run service Unlinking x (deeds ++ computeDeeds calls.length h k s ++
      [⟨calls.length, h, .evaluating k none s (.zeros s.metadata k)⟩]) y := by
  have hletIn : h.letIn (.compute k) = (h, .queued k none) := by simp [letIn, hlinked, hgate]
  have harrived := run_move (run_begin hrun id (.compute k) []) (.letIn (.compute k))
  rw [hletIn] at harrived
  have hturn : h.hasTurn none := by simp [hasTurn]
  have hdrained := run_move (run_move harrived (.start hturn hs)) (.drain rfl)
  cases hn : h.evaluate k s (.zeros s.metadata k) with
  | mk r h' =>
      cases r with
      | ok plan =>
          have hrun := run_move hdrained (.evaluate hn)
          exact ⟨_, by simpa [computeDeeds, Task.ofArgument] using hrun⟩
      | error e =>
          have hrun := run_move hdrained (.abort hn)
          exact ⟨_, by simpa [computeDeeds, Task.ofArgument] using hrun⟩

end Schedules

/-! ### Before a hook runs -/

/-- In every schedule, before a computation runs its hook there is a setup that has ended well.
Since then nothing has begun to set the discipline up again, and if the discipline has taken options
in, then it could not be configured with them. -/
theorem evaluation_set_up {d : Discipline σ} {memory : σ} {concurrency : Concurrency}
    {y : Session ι (Host σ) Task} {before after : List (Deed (Host σ) Task)} {i : Nat} {h : Host σ}
    {k : Computation} {ticket : Option Nat} {s : Snapshot} {a : Arguments}
    (hrun : Session.Run service Unlinking ⟨(register d memory concurrency).2, []⟩
      (before ++ ⟨i, h, .evaluating k ticket s a⟩ :: after) y)
    (hcurrent : h.requireCurrent s = .ok ()) :
    ∃ earlier e since, before = earlier ++ e :: since ∧ e.world.completesSetup e.task ∧
      ∀ e' ∈ since, ¬ e'.world.setsUp e'.task ∧
        (e'.world.appliesOptions e'.task → e'.world.failsToConfigure e'.task) := by
  obtain ⟨x', id, c, c', w, hfirst, rfl, -, -, -, -⟩ := hrun.split
  have hready : x'.world.lifecycle.state = .ready := by
    obtain ⟨-, hready, -⟩ | ⟨text, he⟩ := x'.world.requireCurrent_cases s
    · exact hready
    · rw [hcurrent] at he
      cases he
  obtain ⟨earlier, e, since, hbefore, he, hsince⟩ := setUp_of_run hfirst hready
  refine ⟨earlier, e, since, hbefore, he, fun e' he' => ⟨(hsince e' he').1, fun happlied => ?_⟩⟩
  exact failsToConfigure_of_appliesOptions happlied (hsince e' he').2

/-- A setup and then a computation. -/
theorem evaluation_set_up_once :
    let h : Host Unit := (register { kind := .explicit } () .concurrent).2
    let ready := (h.negotiate .setup .empty).2
    let s : Snapshot := ⟨ready.lifecycle.metadata, ready.lifecycle.chunkSize, 1⟩
    let before := requestDeeds 0 h .setup .empty ++ computeDeeds 1 ready .function s
    (∃ y, Session.Run service Unlinking (⟨h, []⟩ : Session Unit (Host Unit) Task)
        (before ++ [⟨1, ready, .evaluating .function none s (.zeros s.metadata .function)⟩]) y) ∧
      ready.requireCurrent s = .ok () ∧ ∃ e ∈ before, e.world.completesSetup e.task := by
  intro h ready s before
  have start : Session.Run service Unlinking (⟨h, []⟩ : Session Unit (Host Unit) Task) [] ⟨h, []⟩ :=
    .refl
  obtain ⟨c, hready⟩ := run_request start rfl () .setup .empty
  obtain ⟨y, hrun⟩ := run_compute hready rfl rfl () (k := .function) (s := s) rfl
  obtain ⟨earlier, e, since, hbefore, he, -⟩ := evaluation_set_up hrun rfl
  have hmem : e ∈ before := by
    rw [show before = earlier ++ e :: since from hbefore]
    simp
  exact ⟨⟨y, hrun⟩, rfl, e, hmem, he⟩

/-- Options that were taken in when no setup has ended well since. -/
theorem not_since (first : List (Deed (Host σ) Task)) {rest : List (Deed (Host σ) Task)}
    {d : Deed (Host σ) Task} (hd : d.world.appliesOptions d.task)
    (hrest : ∀ e ∈ rest, ¬ e.world.completesSetup e.task) :
    ¬ ∃ earlier e since, first ++ d :: rest = earlier ++ e :: since ∧
      e.world.completesSetup e.task ∧ ∀ e' ∈ since, ¬ e'.world.appliesOptions e'.task := by
  have hnot : ¬ d.world.completesSetup d.task := by
    intro hset
    unfold completesSetup at hset
    split at hset
    · rename_i ht
      rw [ht] at hd
      exact hd
    · exact hset
  rintro ⟨earlier, e, since, hsplit, he, hsince⟩
  rcases List.append_eq_append_iff.mp hsplit with ⟨more, -, hmore⟩ | ⟨more, -, hmore⟩
  · have hmem : e ∈ d :: rest := by simp [hmore]
    rcases List.mem_cons.mp hmem with rfl | hmem
    · exact hnot he
    · exact hrest e hmem he
  · rcases List.cons_eq_append_iff.mp hmore with ⟨-, hsame⟩ | ⟨more', rfl, rfl⟩
    · cases hsame
      exact hnot he
    · exact hsince d (by simp) hd

/-- Options that a discipline takes in although it cannot be configured with them. It stays ready,
and computes without another setup. -/
theorem evaluation_after_failed_configure :
    let d : Discipline Bool :=
      { kind := .explicit
        setOptions := fun _ _ => (.ok (), true)
        configure := fun b => (.error (.failed "no"), b) }
    ∃ (y : Session Unit (Host Bool) Task) (before : List (Deed (Host Bool) Task)) (h : Host Bool)
      (s : Snapshot) (plan : Plan),
      Session.Run service Unlinking ⟨(register d false .concurrent).2, []⟩
          (before ++ [⟨2, h, .evaluating .function none s (.zeros s.metadata .function)⟩]) y ∧
        h.lifecycle.memory = true ∧ h.requireCurrent s = .ok () ∧
        (h.evaluate .function s (.zeros s.metadata .function)).1 = .ok plan ∧
        ¬ ∃ earlier e since, before = earlier ++ e :: since ∧ e.world.completesSetup e.task ∧
          ∀ e' ∈ since, ¬ e'.world.appliesOptions e'.task := by
  intro d
  let h := (register d false .concurrent).2
  let ready := (h.negotiate .setup .empty).2
  let changed := (ready.negotiate .setOptions (.options ∅)).2
  have start : Session.Run service Unlinking (⟨h, []⟩ : Session Unit (Host Bool) Task) [] ⟨h, []⟩ :=
    .refl
  obtain ⟨c, hready⟩ := run_request start rfl () .setup .empty
  obtain ⟨c', hchanged⟩ := run_request hready rfl () .setOptions (.options ∅)
  let s : Snapshot := ⟨changed.lifecycle.metadata, changed.lifecycle.chunkSize, 1⟩
  obtain ⟨y, hrun⟩ := run_compute hchanged rfl rfl () (k := .function) (s := s) rfl
  refine ⟨y, _, changed, s, _, hrun, rfl, rfl, rfl, ?_⟩
  have hlate : ∀ e ∈ computeDeeds 2 changed .function s, ¬ e.world.completesSetup e.task := by
    simp [computeDeeds, completesSetup]
  have happlied : ready.appliesOptions (.applying .setOptions (.options ∅)) := ⟨nofun, rfl⟩
  exact not_since (d := ⟨1, ready, .applying .setOptions (.options ∅)⟩)
    (requestDeeds 0 h .setup .empty ++ askingDeeds 1 ready .setOptions (.options ∅)) happlied hlate

end Host

end RemoteDiscipline
