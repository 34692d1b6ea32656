import RemoteDiscipline.Proofs.Snapshots
/-!
Computations that are served one at a time.

On a host with a gate every computation takes a number at the door and keeps it until it leaves or is
given up, whatever happens to it in between. `Host.Orderly` relates the line to the calls: it holds
the numbers of the calls that are there, and whoever is at work has the number in front. So no two
computations are at work at the same time (`Host.Orderly.eq_of_isAtWork`), and when nobody is, the
first of those who wait can begin (`Host.Orderly.exists_first`).
-/

namespace RemoteDiscipline

namespace Host

variable {σ ι : Type}

/-! ### Who is where -/

def Task.isComputing : Task → Bool
  | .queued _ _ | .draining _ _ _ _ | .evaluating _ _ _ _ | .sending _ _ | .committed _ _ _ => true
  | _ => false

/-- Whether a computation is at work: it has had its turn, and not left yet. -/
def Task.isAtWork : Task → Bool
  | .draining _ _ _ _ | .evaluating _ _ _ _ | .sending _ _ | .committed _ _ _ => true
  | .leaving ticket _ => ticket.isSome
  | _ => false

def Runs (y : Session ι (Host σ) Task) (i : Nat) (t : Task) : Prop :=
  ∃ id c, y.calls[i]? = some (id, c) ∧ c.progress = .running t

def AtWork (y : Session ι (Host σ) Task) (i : Nat) : Prop := ∃ t, Runs y i t ∧ t.isAtWork = true

theorem Runs.eq {y : Session ι (Host σ) Task} {i : Nat} {t u : Task} (ht : Runs y i t)
    (hu : Runs y i u) : t = u := by
  obtain ⟨id, c, hc, ht⟩ := ht
  obtain ⟨id', c', hc', hu⟩ := hu
  rw [hc] at hc'
  cases hc'
  rw [ht] at hu
  exact Progress.running.inj hu

theorem Move.isAtWork_cases {h h' : Host σ} {c c' : Call} {t t' : Task}
    (hm : Move h c t h' c' (.running t')) (ht : t.isArrived = false) (hw : t'.isAtWork = true) :
    t.isAtWork = true ∨ ∃ k ticket, t = .queued k ticket ∧ h.hasTurn ticket = true := by
  cases hm with
  | letIn m => cases ht
  | start hturn hs | refuse hturn hs => exact .inr ⟨_, _, rfl, hturn⟩
  | request hr =>
      unfold Task.ofRequest at hw
      split at hw <;> cases hw
  | close hr =>
      unfold Task.ofEnd at hw
      split at hw <;> cases hw
  | @respond m rest r c' hr => cases r <;> cases hw
  | apply | decline | responded => cases hw
  | drain | evaluate | abort | sent | cut | stop | commit | put => exact .inl rfl

theorem Move.isComputing {h h' : Host σ} {c c' : Call} {t t' : Task}
    (hm : Move h c t h' c' (.running t')) (ht : t.isArrived = false)
    (hw : t'.isComputing = true) : t.isComputing = true := by
  cases hm with
  | letIn m => cases ht
  | request hr =>
      unfold Task.ofRequest at hw
      split at hw <;> cases hw
  | close hr =>
      unfold Task.ofEnd at hw
      split at hw <;> cases hw
  | @respond m rest r c' hr => cases r <;> cases hw
  | apply | decline | responded | sent | cut | stop => cases hw
  | start | refuse | drain | evaluate | abort | commit | put => rfl

/-! ### The line -/

/-- How the calls of a session stand in line. -/
structure Orderly (gate : Gate) (y : Session ι (Host σ) Task) : Prop where
  gate_eq : y.world.gate = some gate
  nodup : gate.line.Nodup
  lt_next : ∀ n ∈ gate.line, n < gate.next
  numbered : ∀ i t, Runs y i t → t.isComputing = true → t.ticket.isSome = true
  inLine : ∀ i t n, Runs y i t → t.ticket = some n → n ∈ gate.line
  exists_owner : ∀ n ∈ gate.line, ∃ i t, Runs y i t ∧ t.ticket = some n
  unique : ∀ i j t u n, Runs y i t → Runs y j u → t.ticket = some n → u.ticket = some n → i = j
  inFront : ∀ i t n, Runs y i t → t.isAtWork = true → t.ticket = some n → gate.line.head? = some n

theorem orderly_start {h : Host σ} {n : Nat} (hg : h.gate = some ⟨[], n⟩) :
    Orderly ⟨[], n⟩ (⟨h, []⟩ : Session ι (Host σ) Task) := by
  have nobody (i : Nat) (t : Task) : ¬ Runs (⟨h, []⟩ : Session ι (Host σ) Task) i t := by
    rintro ⟨id, c, hc, -⟩
    simp at hc
  constructor
  · exact hg
  · exact .nil
  · simp
  · exact fun i t hr => absurd hr (nobody i t)
  · exact fun i t _ hr => absurd hr (nobody i t)
  · simp
  · exact fun i _ t _ _ hr => absurd hr (nobody i t)
  · exact fun i t _ hr => absurd hr (nobody i t)

section Line

variable {gate : Gate} {y : Session ι (Host σ) Task} {j : Nat} {id : ι} {c c' : Served Task}
  {t t' : Task} {w : Host σ}

theorem Orderly.exists_ticket (h : Orderly gate y) {i : Nat} (hr : Runs y i t)
    (hw : t.isAtWork = true) : ∃ n, t.ticket = some n := by
  apply Option.isSome_iff_exists.mp
  cases t with
  | leaving ticket status => exact hw
  | draining | evaluating | sending | committed => exact h.numbered i _ hr rfl
  | _ => cases hw

/-- At any time, at most one computation is at work. -/
theorem Orderly.eq_of_isAtWork (h : Orderly gate y) {i : Nat} (hi : AtWork y i) (hj : AtWork y j) :
    i = j := by
  obtain ⟨t, hrt, ht⟩ := hi
  obtain ⟨u, hru, hu⟩ := hj
  obtain ⟨n, hn⟩ := h.exists_ticket hrt ht
  obtain ⟨m, hm⟩ := h.exists_ticket hru hu
  have hfront := (h.inFront i t n hrt ht hn).symm.trans (h.inFront j u m hru hu hm)
  cases hfront
  exact h.unique i j t u n hrt hru hn hm

/-- Whoever stands in front is at work or can begin. -/
theorem Orderly.exists_first (h : Orderly gate y) (hwait : ∃ i k ticket, Runs y i (.queued k ticket)) :
    (∃ i, AtWork y i) ∨
      ∃ (i : Nat) (id : ι) (c : Served Task) (k : Computation) (ticket : Option Nat),
        y.calls[i]? = some (id, c) ∧ c.progress = .running (.queued k ticket) ∧
          (c.advance service y.world).isSome = true := by
  obtain ⟨i, k, ticket, hr⟩ := hwait
  obtain ⟨n, hn⟩ := Option.isSome_iff_exists.mp (h.numbered i _ hr rfl)
  have hmem := h.inLine i _ n hr hn
  obtain ⟨m, hm⟩ : ∃ m, gate.line.head? = some m := by
    cases hl : gate.line with
    | nil => simp [hl] at hmem
    | cons m rest => exact ⟨m, rfl⟩
  obtain ⟨f, t, hf, ht⟩ := h.exists_owner m (List.mem_of_mem_head? (by rw [hm]; rfl))
  by_cases hw : t.isAtWork = true
  · exact .inl ⟨f, t, hf, hw⟩
  · right
    obtain ⟨id, c, hc, hp⟩ := hf
    cases t with
    | queued k' ticket' =>
        cases ht
        have hturn : y.world.hasTurn (some m) = true := by
          simp [hasTurn, h.gate_eq, Gate.admits, hm]
        obtain ⟨call, progress⟩ := c
        cases hp
        refine ⟨f, id, _, k', some m, hc, rfl, ?_⟩
        cases hs : y.world.snapshot k' with
        | ok s => rw [advance_of_move (.start hturn hs), Option.isSome_some]
        | error e => rw [advance_of_move (.refuse hturn hs), Option.isSome_some]
    | leaving ticket' status =>
        cases ht
        exact absurd rfl hw
    | draining | evaluating | sending | committed => exact absurd rfl hw
    | _ => cases ht

/-! ### What keeps the line in order -/

theorem runs_set (hc : y.calls[j]? = some (id, c)) {i : Nat} :
    Runs (⟨w, y.calls.set j (id, c')⟩ : Session ι (Host σ) Task) i t ↔
      i = j ∧ c'.progress = .running t ∨ i ≠ j ∧ Runs y i t := by
  obtain ⟨hlt, -⟩ := List.getElem?_eq_some_iff.mp hc
  by_cases hij : i = j
  · subst hij
    rw [Runs, List.getElem?_set_self hlt]
    constructor
    · rintro ⟨id', c₀, hc₀, hp⟩
      cases hc₀
      exact .inl ⟨rfl, hp⟩
    · rintro (⟨-, hp⟩ | ⟨hne, -⟩)
      · exact ⟨id, c', rfl, hp⟩
      · exact absurd rfl hne
  · simp [Runs, hij, List.getElem?_set_ne (Ne.symm hij)]

theorem Orderly.proceed (h : Orderly gate y) (hc : y.calls[j]? = some (id, c))
    (ht : c.progress = .running t) (ht' : c'.progress = .running t') (hw : w.gate = y.world.gate)
    (hticket : t'.ticket = t.ticket) (hcomputing : t'.isComputing = true → t.isComputing = true)
    (hfront : ∀ n, t'.isAtWork = true → t'.ticket = some n → gate.line.head? = some n) :
    Orderly gate ⟨w, y.calls.set j (id, c')⟩ := by
  have hj : Runs y j t := ⟨id, c, hc, ht⟩
  -- Whoever runs a task with a number has run one with the same number before.
  have before {i : Nat} {u : Task} (hr : Runs ⟨w, y.calls.set j (id, c')⟩ i u) :
      ∃ u', Runs y i u' ∧ u'.ticket = u.ticket := by
    rcases (runs_set hc).mp hr with ⟨rfl, hu⟩ | ⟨-, hu⟩
    · rw [ht'] at hu
      cases hu
      exact ⟨t, hj, hticket.symm⟩
    · exact ⟨u, hu, rfl⟩
  constructor
  · exact hw.trans h.gate_eq
  · exact h.nodup
  · exact h.lt_next
  · intro i u hr hu
    rcases (runs_set hc).mp hr with ⟨rfl, hp⟩ | ⟨-, hp⟩
    · rw [ht'] at hp
      cases hp
      rw [hticket]
      exact h.numbered i t hj (hcomputing hu)
    · exact h.numbered i u hp hu
  · intro i u n hr hn
    obtain ⟨u', hu', he⟩ := before hr
    exact h.inLine i u' n hu' (he.trans hn)
  · intro n hn
    obtain ⟨i, u, hu, hun⟩ := h.exists_owner n hn
    by_cases hij : i = j
    · subst hij
      cases hu.eq hj
      exact ⟨i, t', (runs_set hc).mpr (.inl ⟨rfl, ht'⟩), hticket.trans hun⟩
    · exact ⟨i, u, (runs_set hc).mpr (.inr ⟨hij, hu⟩), hun⟩
  · intro i k u v n hu hv hun hvn
    obtain ⟨u', hu', heu⟩ := before hu
    obtain ⟨v', hv', hev⟩ := before hv
    exact h.unique i k u' v' n hu' hv' (heu.trans hun) (hev.trans hvn)
  · intro i u n hr hu hn
    rcases (runs_set hc).mp hr with ⟨rfl, hp⟩ | ⟨-, hp⟩
    · rw [ht'] at hp
      cases hp
      exact hfront n hu hn
    · exact h.inFront i u n hp hu hn

theorem Orderly.enter (h : Orderly gate y) (hc : y.calls[j]? = some (id, c))
    (ht : c.progress = .running t) (hnone : t.ticket = none) {k : Computation}
    (ht' : c'.progress = .running (.queued k (some gate.next)))
    (hw : w.gate = some gate.join.2) : Orderly gate.join.2 ⟨w, y.calls.set j (id, c')⟩ := by
  have hnew : gate.next ∉ gate.line := fun hmem => Nat.lt_irrefl _ (h.lt_next _ hmem)
  constructor
  · exact hw
  · rw [Gate.join, List.nodup_append]
    refine ⟨h.nodup, by simp, ?_⟩
    rintro n hn m hm rfl
    rw [List.mem_singleton] at hm
    exact hnew (hm ▸ hn)
  · intro n hn
    rw [Gate.join] at hn ⊢
    rcases List.mem_append.mp hn with hn | hn
    · exact Nat.lt_succ_of_lt (h.lt_next n hn)
    · rw [List.mem_singleton.mp hn]
      exact Nat.lt_succ_self _
  · intro i u hr hu
    rcases (runs_set hc).mp hr with ⟨rfl, hp⟩ | ⟨-, hp⟩
    · rw [ht'] at hp
      cases hp
      rfl
    · exact h.numbered i u hp hu
  · intro i u n hr hn
    rcases (runs_set hc).mp hr with ⟨rfl, hp⟩ | ⟨-, hp⟩
    · rw [ht'] at hp
      cases hp
      cases hn
      simp [Gate.join]
    · exact List.mem_append_left _ (h.inLine i u n hp hn)
  · intro n hn
    rcases List.mem_append.mp hn with hn | hn
    · obtain ⟨i, u, hu, hun⟩ := h.exists_owner n hn
      refine ⟨i, u, (runs_set hc).mpr (.inr ⟨?_, hu⟩), hun⟩
      -- The call that enters had no number.
      rintro rfl
      cases hu.eq ⟨id, c, hc, ht⟩
      rw [hnone] at hun
      cases hun
    · rw [List.mem_singleton] at hn
      subst hn
      exact ⟨j, _, (runs_set hc).mpr (.inl ⟨rfl, ht'⟩), rfl⟩
  · intro i l u v n hu hv hun hvn
    rcases (runs_set hc).mp hu with ⟨rfl, hp⟩ | ⟨-, hp⟩ <;>
      rcases (runs_set hc).mp hv with ⟨rfl, hq⟩ | ⟨-, hq⟩
    · rfl
    · rw [ht'] at hp
      cases hp
      cases hun
      exact absurd (h.inLine l v _ hq hvn) hnew
    · rw [ht'] at hq
      cases hq
      cases hvn
      exact absurd (h.inLine i u _ hp hun) hnew
    · exact h.unique i l u v n hp hq hun hvn
  · intro i u n hr hu hn
    rcases (runs_set hc).mp hr with ⟨rfl, hp⟩ | ⟨-, hp⟩
    · rw [ht'] at hp
      cases hp
      cases hu
    · rw [Gate.join, List.head?_append, h.inFront i u n hp hu hn]
      rfl

/-- Whoever gives up a place takes one number out of the line, and no other. -/
theorem exists_gate_release {h : Host σ} (hg : h.gate = some gate) (hd : gate.line.Nodup)
    (ticket : Option Nat) :
    ∃ gate' : Gate, (h.release ticket).gate = some gate' ∧ gate'.next = gate.next ∧
      gate'.line.Nodup ∧ (∀ n, n ∈ gate'.line ↔ n ∈ gate.line ∧ ticket ≠ some n) ∧
      ∀ n, gate.line.head? = some n → ticket ≠ some n → gate'.line.head? = some n := by
  cases ticket with
  | none =>
      rw [release_none]
      exact ⟨gate, hg, rfl, hd, by simp, fun n hn _ => hn⟩
  | some m =>
      refine ⟨gate.leave m, by simp [release, hg], rfl, hd.filter _, ?_, ?_⟩
      · intro n
        rw [Gate.leave, List.mem_filter]
        simp only [ne_eq, decide_not, Bool.not_eq_true', decide_eq_false_iff_not, Option.some.injEq]
        exact and_congr_right fun _ => ⟨fun hne e => hne e.symm, fun hne e => hne e.symm⟩
      · intro n hn hne
        cases hl : gate.line with
        | nil => simp [hl] at hn
        | cons first rest =>
            rw [hl] at hn
            cases hn
            have hnm : n ≠ m := fun e => hne (by rw [e])
            simp [Gate.leave, hl, hnm]

theorem Orderly.vacate (h : Orderly gate y) (hc : y.calls[j]? = some (id, c))
    (ht : c.progress = .running t) {status : Status} (ht' : c'.progress = .ended status)
    (hw : w.gate = (y.world.release t.ticket).gate) :
    ∃ gate', Orderly gate' ⟨w, y.calls.set j (id, c')⟩ := by
  have hj : Runs y j t := ⟨id, c, hc, ht⟩
  have others {i : Nat} {u : Task} (hr : Runs ⟨w, y.calls.set j (id, c')⟩ i u) :
      i ≠ j ∧ Runs y i u := by
    rcases (runs_set hc).mp hr with ⟨-, hp⟩ | hp
    · rw [ht'] at hp
      cases hp
    · exact hp
  -- Nobody else has the number that is given up.
  have hne {i : Nat} {u : Task} {n : Nat} (hr : Runs ⟨w, y.calls.set j (id, c')⟩ i u)
      (hn : u.ticket = some n) : t.ticket ≠ some n := by
    intro hn'
    exact (others hr).1 (h.unique i j u t n (others hr).2 hj hn hn')
  obtain ⟨gate', hgate, hnext, hnodup, hmem, hhead⟩ := exists_gate_release h.gate_eq h.nodup t.ticket
  refine ⟨gate', ?_⟩
  constructor
  · exact hw.trans hgate
  · exact hnodup
  · exact fun n hn => hnext ▸ h.lt_next n ((hmem n).mp hn).1
  · exact fun i u hr hu => h.numbered i u (others hr).2 hu
  · exact fun i u n hr hn => (hmem n).mpr ⟨h.inLine i u n (others hr).2 hn, hne hr hn⟩
  · intro n hn
    obtain ⟨hn, hnm⟩ := (hmem n).mp hn
    obtain ⟨i, u, hu, hun⟩ := h.exists_owner n hn
    refine ⟨i, u, (runs_set hc).mpr (.inr ⟨?_, hu⟩), hun⟩
    rintro rfl
    cases hu.eq hj
    exact hnm hun
  · exact fun i k u v n hu hv => h.unique i k u v n (others hu).2 (others hv).2
  · exact fun i u n hr hu hn =>
      hhead n (h.inFront i u n (others hr).2 hu hn) (hne hr hn)

theorem Orderly.congr (h : Orderly gate y) {y' : Session ι (Host σ) Task}
    (hw : y'.world.gate = y.world.gate) (hruns : ∀ i t, Runs y' i t ↔ Runs y i t) :
    Orderly gate y' where
  gate_eq := hw.trans h.gate_eq
  nodup := h.nodup
  lt_next := h.lt_next
  numbered i t hr := h.numbered i t ((hruns i t).mp hr)
  inLine i t n hr := h.inLine i t n ((hruns i t).mp hr)
  exists_owner n hn := by
    obtain ⟨i, t, hr, ht⟩ := h.exists_owner n hn
    exact ⟨i, t, (hruns i t).mpr hr, ht⟩
  unique i k t u n ht hu := h.unique i k t u n ((hruns i t).mp ht) ((hruns k u).mp hu)
  inFront i t n hr := h.inFront i t n ((hruns i t).mp hr)

theorem runs_begin {id : ι} {call : Call} {i : Nat} {u : Task} :
    Runs ({ y with calls := y.calls ++ [(id, .begin (service (σ := σ)) call)] } :
      Session ι (Host σ) Task) i u ↔ Runs y i u ∨ i = y.calls.length ∧ u = .arrived call.method := by
  unfold Runs
  dsimp only
  rcases Nat.lt_trichotomy i y.calls.length with hi | hi | hi
  · have hne : i ≠ y.calls.length := Nat.ne_of_lt hi
    rw [List.getElem?_append_left hi]
    simp [hne]
  · subst hi
    constructor
    · rintro ⟨id', c₀, hc₀, hp⟩
      simp only [List.getElem?_concat_length, Option.some.injEq, Prod.mk.injEq] at hc₀
      obtain ⟨-, rfl⟩ := hc₀
      exact .inr ⟨rfl, (Progress.running.inj hp).symm⟩
    · rintro (⟨id', c₀, hc₀, -⟩ | ⟨-, rfl⟩)
      · simp at hc₀
      · exact ⟨id, .begin (service (σ := σ)) call, by simp, rfl⟩
  · have hne : i ≠ y.calls.length := Nat.ne_of_gt hi
    have hnew : (y.calls ++ [(id, Served.begin (service (σ := σ)) call)])[i]? = none :=
      List.getElem?_eq_none (by simp; omega)
    rw [hnew, List.getElem?_eq_none (Nat.le_of_lt hi)]
    simp [hne]

theorem Orderly.begin (h : Orderly gate y) (id : ι) (call : Call) :
    Orderly gate { y with calls := y.calls ++ [(id, .begin (service (σ := σ)) call)] } := by
  constructor
  · exact h.gate_eq
  · exact h.nodup
  · exact h.lt_next
  · intro i u hr hu
    rcases runs_begin.mp hr with hr | ⟨-, rfl⟩
    · exact h.numbered i u hr hu
    · cases hu
  · intro i u n hr hn
    rcases runs_begin.mp hr with hr | ⟨-, rfl⟩
    · exact h.inLine i u n hr hn
    · cases hn
  · intro n hn
    obtain ⟨i, u, hr, hu⟩ := h.exists_owner n hn
    exact ⟨i, u, runs_begin.mpr (.inl hr), hu⟩
  · intro i k u v n hu hv hun hvn
    rcases runs_begin.mp hu with hu | ⟨-, rfl⟩
    · rcases runs_begin.mp hv with hv | ⟨-, rfl⟩
      · exact h.unique i k u v n hu hv hun hvn
      · cases hvn
    · cases hun
  · intro i u n hr hu hn
    rcases runs_begin.mp hr with hr | ⟨-, rfl⟩
    · exact h.inFront i u n hr hu hn
    · cases hu

end Line

/-! ### Runs -/

theorem isAtWork_false_of_ticket {t : Task} (hn : t.ticket = none) (hc : t.isComputing = false) :
    t.isAtWork = false := by
  cases t with
  | leaving ticket status =>
      cases hn
      rfl
  | draining | evaluating | sending | committed => cases hc
  | _ => rfl

theorem letIn_eq (h : Host σ) (m : Method) :
    (∃ k gate, m = .compute k ∧ h.gate = some gate ∧ h.linked = true ∧
        h.letIn m = ({ h with gate := some gate.join.2 }, .queued k (some gate.next))) ∨
      (∃ t, h.letIn m = (h, t) ∧ t.ticket = none ∧
        (t.isComputing = true → h.gate = none)) := by
  unfold letIn
  cases hl : h.linked with
  | false => exact .inr ⟨_, rfl, rfl, by simp [Task.failing, Task.isComputing]⟩
  | true =>
      cases m with
      | negotiate m => exact .inr ⟨_, rfl, rfl, by simp [Task.isComputing]⟩
      | compute k =>
          cases hg : h.gate with
          | none => exact .inr ⟨_, rfl, rfl, fun _ => rfl⟩
          | some gate => exact .inl ⟨k, gate, rfl, rfl, rfl, rfl⟩

theorem Orderly.move {gate : Gate} {y : Session ι (Host σ) Task} {j : Nat} {id : ι}
    {c : Served Task} {t : Task} {w : Host σ} {call : Call} {progress : Progress Task}
    (h : Orderly gate y) (hc : y.calls[j]? = some (id, c)) (ht : c.progress = .running t)
    (hm : Move y.world c.toCall t w call progress) :
    ∃ gate', Orderly gate' ⟨w, y.calls.set j (id, ⟨call, progress⟩)⟩ := by
  cases harr : t.isArrived with
  | true =>
      cases hm with
      | letIn m =>
          rcases letIn_eq y.world m with ⟨k, g, -, hg, -, he⟩ | ⟨u, he, hn, hnone⟩
          · rw [h.gate_eq] at hg
            cases hg
            rw [he]
            exact ⟨_, h.enter hc ht rfl rfl rfl⟩
          · have hcomputing : u.isComputing = false := by
              apply Bool.eq_false_iff.mpr
              intro hu
              rw [h.gate_eq] at hnone
              cases hnone hu
            rw [he]
            refine ⟨gate, h.proceed hc ht rfl rfl hn ?_ ?_⟩
            · intro hu
              rw [hcomputing] at hu
              cases hu
            · intro n hu
              rw [isAtWork_false_of_ticket hn hcomputing] at hu
              cases hu
      | _ => cases harr
  | false =>
      have hhost := hm.host_eq harr
      cases progress with
      | running t' =>
          have hgate : w.gate = y.world.gate := by
            rw [hhost]
            cases t with
            | leaving ticket status => cases hm
            | _ => rfl
          refine ⟨gate, h.proceed hc ht rfl hgate (hm.ticket_eq harr) (hm.isComputing harr) ?_⟩
          intro n hu hn
          rw [hm.ticket_eq harr] at hn
          rcases hm.isAtWork_cases harr hu with hw | ⟨k, ticket, rfl, hturn⟩
          · exact h.inFront j t n ⟨id, c, hc, ht⟩ hw hn
          · cases hn
            simpa [hasTurn, h.gate_eq, Gate.admits] using hturn
      | ended status =>
          cases hm with
          | leave => exact h.vacate hc ht rfl rfl

/-- In every run of a session that is served one at a time, the line is in order. -/
theorem Orderly.run {gate : Gate} {x y : Session ι (Host σ) Task} {made : List (Deed (Host σ) Task)}
    (hx : Orderly gate x) (hrun : Session.Run service Unlinking x made y) :
    ∃ gate', Orderly gate' y := by
  induction hrun with
  | refl => exact ⟨gate, hx⟩
  | advance _ hc ht ha ih =>
      obtain ⟨gate', h⟩ := ih
      obtain ⟨t', ht', hm⟩ := move_of_advance ha
      rw [ht] at ht'
      cases ht'
      exact h.move hc ht hm
  | «begin» id call _ ih =>
      obtain ⟨gate', h⟩ := ih
      exact ⟨gate', h.begin id call⟩
  | @client made y j id c f _ hc ih =>
      obtain ⟨gate', h⟩ := ih
      refine ⟨gate', h.congr rfl fun i t => ?_⟩
      refine (runs_set hc).trans ?_
      by_cases hij : i = j
      · subst hij
        constructor
        · rintro (⟨-, hp⟩ | ⟨hne, -⟩)
          · exact ⟨id, c, hc, hp⟩
          · exact absurd rfl hne
        · rintro ⟨id', c₀, hc₀, hp⟩
          rw [hc] at hc₀
          cases hc₀
          exact .inl ⟨rfl, hp⟩
      · simp [hij]
  | expire status _ hc ht ih =>
      obtain ⟨gate', h⟩ := ih
      exact h.vacate hc ht rfl rfl
  | meanwhile _ hw ih =>
      obtain ⟨gate', h⟩ := ih
      refine ⟨gate', h.congr ?_ fun i t => Iff.rfl⟩
      rw [hw]
      rfl

end Host

end RemoteDiscipline
