import RemoteDiscipline.Service.Session
/-!
All interleavings of the calls of a session.

A session lets its calls go on in a fixed order. Here any call may make the next step, calls begin at
any time, and what happens at the clients' ends falls between any two steps; so what holds of every
run holds of every schedule, and in particular of the one that `Session.settle` takes
(`Run.exists_settle`). A run keeps a record of the steps that tasks have made. Along it the stage of
a call never rises, which orders the steps of each call whatever the others do.
-/

namespace RemoteDiscipline

/-- A step that was made: by which call of the session, in which world, and from which task. -/
structure Deed (ω τ : Type) where
  call : Nat
  world : ω
  task : τ

namespace Session

variable {ι ω τ : Type}

theorem calls_set_cases {calls : List (ι × Served τ)} {i j : Nat} {new call : ι × Served τ}
    (h : (calls.set j new)[i]? = some call) :
    j = i ∧ call = new ∨ j ≠ i ∧ calls[i]? = some call := by
  rw [List.getElem?_set] at h
  split at h
  · rename_i hj
    split at h
    · cases h
      exact .inl ⟨hj, rfl⟩
    · cases h
  · rename_i hj
    exact .inr ⟨hj, h⟩

/-- Runs of a session, with the steps in the order in which they were made. Besides the steps of its
calls, the world changes only as `outside` allows. -/
inductive Run (s : Service ω τ) (outside : ω → ω → Prop) (x : Session ι ω τ) :
    List (Deed ω τ) → Session ι ω τ → Prop
  | refl : Run s outside x [] x
  /-- A call makes a step. -/
  | advance {deeds : List (Deed ω τ)} {y : Session ι ω τ} {i : Nat} {id : ι} {c c' : Served τ}
      {t : τ} {w : ω} :
      Run s outside x deeds y → y.calls[i]? = some (id, c) → c.progress = .running t →
      c.advance s y.world = some (w, c') →
      Run s outside x (deeds ++ [⟨i, y.world, t⟩]) ⟨w, y.calls.set i (id, c')⟩
  | begin {deeds : List (Deed ω τ)} {y : Session ι ω τ} (id : ι) (call : Call) :
      Run s outside x deeds y →
      Run s outside x deeds { y with calls := y.calls ++ [(id, .begin s call)] }
  /-- Something happens at the ends of a call. -/
  | client {deeds : List (Deed ω τ)} {y : Session ι ω τ} {i : Nat} {id : ι} {c : Served τ}
      (f : Call → Call) :
      Run s outside x deeds y → y.calls[i]? = some (id, c) →
      Run s outside x deeds { y with calls := y.calls.set i (id, c.onCall f) }
  /-- The time of a call is over, and its task is given up. -/
  | expire {deeds : List (Deed ω τ)} {y : Session ι ω τ} {i : Nat} {id : ι} {c : Served τ} {t : τ}
      (status : Status) :
      Run s outside x deeds y → y.calls[i]? = some (id, c) → c.progress = .running t →
      Run s outside x deeds
        ⟨s.abandon y.world t, y.calls.set i (id, ⟨c.toCall.cancel, .ended status⟩)⟩
  | meanwhile {deeds : List (Deed ω τ)} {y : Session ι ω τ} {w : ω} :
      Run s outside x deeds y → outside y.world w → Run s outside x deeds { y with world := w }

namespace Run

variable {s : Service ω τ} {outside : ω → ω → Prop} {x y z : Session ι ω τ}
  {deeds more : List (Deed ω τ)}

theorem trans (h : Run s outside x deeds y) (h' : Run s outside y more z) :
    Run s outside x (deeds ++ more) z := by
  induction h' with
  | refl => simpa using h
  | advance _ hc ht ha ih =>
      rw [← List.append_assoc]
      exact ih.advance hc ht ha
  | «begin» id call _ ih => exact ih.begin id call
  | client f _ hc ih => exact ih.client f hc
  | expire status _ hc ht ih => exact ih.expire status hc ht
  | meanwhile _ hw ih => exact ih.meanwhile hw

/-- A run can be taken apart at every step that it has made. -/
theorem split {before after : List (Deed ω τ)} {d : Deed ω τ}
    (h : Run s outside x (before ++ d :: after) y) :
    ∃ (x' : Session ι ω τ) (id : ι) (c c' : Served τ) (w : ω),
      Run s outside x before x' ∧ x'.world = d.world ∧ x'.calls[d.call]? = some (id, c) ∧
        c.progress = .running d.task ∧ c.advance s d.world = some (w, c') ∧
        Run s outside ⟨w, x'.calls.set d.call (id, c')⟩ after y := by
  generalize hd : before ++ d :: after = deeds at h
  induction h generalizing after with
  | refl => simp at hd
  | @advance deeds y i id c c' t w hrun hc ht ha ih =>
      rcases List.eq_nil_or_concat after with rfl | ⟨after', e, rfl⟩
      · obtain ⟨rfl, rfl⟩ : before = deeds ∧ d = ⟨i, y.world, t⟩ := by
          simpa using List.append_inj' hd rfl
        exact ⟨y, id, c, c', w, hrun, rfl, hc, ht, ha, .refl⟩
      · obtain ⟨rfl, he⟩ : before ++ d :: after' = deeds ∧ e = ⟨i, y.world, t⟩ := by
          rw [List.concat_eq_append, ← List.cons_append, ← List.append_assoc] at hd
          simpa using List.append_inj' hd rfl
        obtain ⟨x', id', c₀, c₁, w', h₁, hw, hc₀, ht₀, ha₀, h₂⟩ := ih rfl
        refine ⟨x', id', c₀, c₁, w', h₁, hw, hc₀, ht₀, ha₀, ?_⟩
        rw [List.concat_eq_append, he]
        exact h₂.advance hc ht ha
  | «begin» id call _ ih =>
      obtain ⟨x', id', c₀, c₁, w', h₁, hw, hc₀, ht₀, ha₀, h₂⟩ := ih hd
      exact ⟨x', id', c₀, c₁, w', h₁, hw, hc₀, ht₀, ha₀, h₂.begin id call⟩
  | client f _ hc ih =>
      obtain ⟨x', id', c₀, c₁, w', h₁, hw, hc₀, ht₀, ha₀, h₂⟩ := ih hd
      exact ⟨x', id', c₀, c₁, w', h₁, hw, hc₀, ht₀, ha₀, h₂.client f hc⟩
  | expire status _ hc ht ih =>
      obtain ⟨x', id', c₀, c₁, w', h₁, hw, hc₀, ht₀, ha₀, h₂⟩ := ih hd
      exact ⟨x', id', c₀, c₁, w', h₁, hw, hc₀, ht₀, ha₀, h₂.expire status hc ht⟩
  | meanwhile _ hw ih =>
      obtain ⟨x', id', c₀, c₁, w', h₁, hw', hc₀, ht₀, ha₀, h₂⟩ := ih hd
      exact ⟨x', id', c₀, c₁, w', h₁, hw', hc₀, ht₀, ha₀, h₂.meanwhile hw⟩

/-! ### Stages -/

theorem stage_advance_le {w w' : ω} {c c' : Served τ} (h : c.advance s w = some (w', c')) :
    c'.stage s ≤ c.stage s := by
  rcases Served.advance_lt h with hlt | ⟨heq, _⟩
  · exact Nat.le_of_lt hlt
  · exact Nat.le_of_eq heq

theorem stage_set_le {calls : List (ι × Served τ)} {i j n : Nat} {id : ι} {c c' : Served τ}
    (hc : calls[j]? = some (id, c)) (hle : c'.stage s ≤ c.stage s)
    (h : ∃ id' c₀, calls[i]? = some (id', c₀) ∧ c₀.stage s ≤ n) :
    ∃ id' c₀, (calls.set j (id, c'))[i]? = some (id', c₀) ∧ c₀.stage s ≤ n := by
  obtain ⟨id', c₀, hc₀, hn⟩ := h
  by_cases hj : j = i
  · subst hj
    rw [hc] at hc₀
    cases hc₀
    obtain ⟨hlt, -⟩ := List.getElem?_eq_some_iff.mp hc
    exact ⟨id, c', by rw [List.getElem?_set_self hlt], Nat.le_trans hle hn⟩
  · exact ⟨id', c₀, by rw [List.getElem?_set_ne hj, hc₀], hn⟩

/-- The stage of a call does not rise, and it bounds the stages of all its later steps. -/
theorem stage_le (h : Run s outside x deeds y) {i : Nat} {id : ι} {c : Served τ}
    (hc : x.calls[i]? = some (id, c)) :
    (∃ id' c', y.calls[i]? = some (id', c') ∧ c'.stage s ≤ c.stage s) ∧
      ∀ e ∈ deeds, e.call = i → s.stage e.task + 1 ≤ c.stage s := by
  induction h with
  | refl => exact ⟨⟨id, c, hc, Nat.le_refl _⟩, by simp⟩
  | @advance deeds y j id' c₀ c₁ t w _ hc₀ ht ha ih =>
      obtain ⟨hstage, hdeeds⟩ := ih
      refine ⟨stage_set_le hc₀ (stage_advance_le ha) hstage, ?_⟩
      intro e he hi
      rcases List.mem_append.mp he with he | he
      · exact hdeeds e he hi
      · rw [List.mem_singleton] at he
        subst he
        subst hi
        obtain ⟨id₂, c₂, hc₂, hle⟩ := hstage
        rw [hc₀] at hc₂
        cases hc₂
        simpa [Served.stage, ht] using hle
  | «begin» id' call _ ih =>
      obtain ⟨⟨id₂, c₂, hc₂, hle⟩, hdeeds⟩ := ih
      refine ⟨⟨id₂, c₂, ?_, hle⟩, hdeeds⟩
      obtain ⟨hi, -⟩ := List.getElem?_eq_some_iff.mp hc₂
      rwa [List.getElem?_append_left hi]
  | client f _ hc₀ ih => exact ⟨stage_set_le hc₀ (Nat.le_refl _) ih.1, ih.2⟩
  | expire status _ hc₀ ht ih => exact ⟨stage_set_le hc₀ (Nat.zero_le _) ih.1, ih.2⟩
  | meanwhile _ hw ih => exact ih

/-- The steps of a call before one of its steps were in the same stage or an earlier one. -/
theorem stage_le_of_before {before after : List (Deed ω τ)} {d e : Deed ω τ}
    (h : Run s outside x (before ++ d :: after) y) (he : e ∈ before) (hi : e.call = d.call) :
    s.stage d.task ≤ s.stage e.task := by
  obtain ⟨front, back, rfl⟩ := List.append_of_mem he
  rw [List.append_assoc, List.cons_append] at h
  obtain ⟨x', id, c, c', w, -, -, hc, ht, ha, hrest⟩ := h.split
  obtain ⟨hlt, -⟩ := List.getElem?_eq_some_iff.mp hc
  have hlater := (hrest.stage_le (List.getElem?_set_self hlt)).2 d (by simp) hi.symm
  have hstep := stage_advance_le ha
  simp only [Served.stage, ht] at hstep hlater
  omega

/-! ### The fixed schedule -/

theorem exists_stepFirst (outside : ω → ω → Prop) (before : List (ι × Served τ)) {w w' : ω}
    {calls calls' : List (ι × Served τ)} (h : stepFirst s w calls = some (w', calls')) :
    ∃ deeds, Run s outside ⟨w, before ++ calls⟩ deeds ⟨w', before ++ calls'⟩ := by
  induction calls generalizing before calls' with
  | nil => cases h
  | cons call rest ih =>
      obtain ⟨id, c⟩ := call
      simp only [stepFirst] at h
      split at h
      · rename_i w₁ c₁ ha
        cases h
        cases ht : c.progress with
        | ended status => simp [Served.advance, ht] at ha
        | running t =>
            have hc : (before ++ (id, c) :: rest)[before.length]? = some (id, c) := by simp
            have hstart : Run s outside ⟨w, before ++ (id, c) :: rest⟩ []
                ⟨w, before ++ (id, c) :: rest⟩ := .refl
            have hrun := hstart.advance hc ht ha
            simp only [List.set_append_right _ _ (Nat.le_refl _), Nat.sub_self,
              List.set_cons_zero] at hrun
            exact ⟨_, hrun⟩
      · obtain ⟨⟨w₁, rest'⟩, hr, he⟩ := Option.map_eq_some_iff.mp h
        cases he
        obtain ⟨deeds, hrun⟩ := ih (before ++ [(id, c)]) hr
        exact ⟨deeds, by simpa using hrun⟩

/-- Letting calls go on until all of them wait is one of the runs. -/
theorem exists_settle (x : Session ι ω τ) : ∃ deeds, Run s outside x deeds (settle s x) := by
  fun_induction settle s x with
  | case1 x w calls hstep ih =>
      obtain ⟨first, hfirst⟩ := exists_stepFirst outside [] hstep
      obtain ⟨rest, hrest⟩ := ih
      exact ⟨first ++ rest, hfirst.trans hrest⟩
  | case2 x hstep => exact ⟨[], .refl⟩

end Run

end Session

end RemoteDiscipline
