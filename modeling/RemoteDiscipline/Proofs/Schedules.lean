import RemoteDiscipline.Proofs.Interleaving
/-!
Runs that follow a schedule.

A schedule lists what is to happen to a session, one event after the other. An event that cannot
happen is passed over, so every schedule leads from a session to exactly one other, and two runs can
be compared that differ in some events only. Nothing is lost by this: the runs of a session are what
its schedules lead to (`Session.run_iff_follow`).
-/

namespace RemoteDiscipline

namespace Session

/-- What can happen to a session, where calls are named by the order in which they began. -/
inductive Event (ι : Type)
  | step (i : Nat)
  | begin (id : ι) (call : Call)
  /-- Something happens at the ends of a call. -/
  | client (i : Nat) (f : Call → Call)
  /-- The time of a call is over. -/
  | expire (i : Nat) (status : Status)
  /-- Something happens to the world. -/
  | meanwhile

variable {ι ω τ : Type} (s : Service ω τ) (outside : ω → ω)

def play (x : Session ι ω τ) : Event ι → Session ι ω τ
  | .step i =>
    match x.calls[i]? with
    | some (id, c) =>
      match c.advance s x.world with
      | some (w, c) => ⟨w, x.calls.set i (id, c)⟩
      | none => x
    | none => x
  | .begin id call => { x with calls := x.calls ++ [(id, .begin s call)] }
  | .client i f =>
    match x.calls[i]? with
    | some (id, c) => { x with calls := x.calls.set i (id, c.onCall f) }
    | none => x
  | .expire i status =>
    match x.calls[i]? with
    | some (id, ⟨call, .running t⟩) =>
      ⟨s.abandon x.world t, x.calls.set i (id, ⟨call.cancel, .ended status⟩)⟩
    | _ => x
  | .meanwhile => { x with world := outside x.world }

/-- The step that is made in an event. -/
def deed? (x : Session ι ω τ) : Event ι → Option (Deed ω τ)
  | .step i =>
    match x.calls[i]? with
    | some (_, ⟨call, .running t⟩) =>
      (Served.advance s x.world ⟨call, .running t⟩).map fun _ => ⟨i, x.world, t⟩
    | _ => none
  | _ => none

def follow (x : Session ι ω τ) : List (Event ι) → Session ι ω τ
  | [] => x
  | e :: rest => follow (x.play s outside e) rest

def deeds (x : Session ι ω τ) : List (Event ι) → List (Deed ω τ)
  | [] => []
  | e :: rest => (x.deed? s e).toList ++ deeds (x.play s outside e) rest

variable {s outside}

/-! ### What single events do -/

section Events

variable {x : Session ι ω τ} {i : Nat} {id : ι} {c : Served τ}

theorem play_step_of_none (h : x.calls[i]? = none) : x.play s outside (.step i) = x := by
  simp only [play, h]

theorem play_step_of_waiting (h : x.calls[i]? = some (id, c)) (ha : c.advance s x.world = none) :
    x.play s outside (.step i) = x := by
  simp only [play, h, ha]

theorem play_step {w : ω} {c' : Served τ} (h : x.calls[i]? = some (id, c))
    (ha : c.advance s x.world = some (w, c')) :
    x.play s outside (.step i) = ⟨w, x.calls.set i (id, c')⟩ := by
  simp only [play, h, ha]

theorem deed?_step_of_none (h : x.calls[i]? = none) : x.deed? s (.step i) = none := by
  simp only [deed?, h]

theorem deed?_step_of_waiting (h : x.calls[i]? = some (id, c)) (ha : c.advance s x.world = none) :
    x.deed? s (.step i) = none := by
  obtain ⟨call, _ | _⟩ := c
  · simp only [deed?, h, ha, Option.map_none]
  · simp only [deed?, h]

theorem deed?_step {w : ω} {c' : Served τ} {t : τ} (h : x.calls[i]? = some (id, c))
    (ht : c.progress = .running t) (ha : c.advance s x.world = some (w, c')) :
    x.deed? s (.step i) = some ⟨i, x.world, t⟩ := by
  obtain ⟨call, progress⟩ := c
  cases ht
  simp only [deed?, h, ha, Option.map_some]

theorem play_client (h : x.calls[i]? = some (id, c)) (f : Call → Call) :
    x.play s outside (.client i f) = { x with calls := x.calls.set i (id, c.onCall f) } := by
  simp only [play, h]

theorem play_client_of_none (h : x.calls[i]? = none) (f : Call → Call) :
    x.play s outside (.client i f) = x := by
  simp only [play, h]

theorem play_expire {t : τ} (h : x.calls[i]? = some (id, c)) (ht : c.progress = .running t)
    (status : Status) :
    x.play s outside (.expire i status) =
      ⟨s.abandon x.world t, x.calls.set i (id, ⟨c.toCall.cancel, .ended status⟩)⟩ := by
  obtain ⟨call, progress⟩ := c
  cases ht
  simp only [play, h]

theorem play_expire_of_none (h : x.calls[i]? = none) (status : Status) :
    x.play s outside (.expire i status) = x := by
  simp only [play, h]

theorem play_expire_of_ended {status : Status} (h : x.calls[i]? = some (id, c))
    (ht : c.progress = .ended status) (status' : Status) :
    x.play s outside (.expire i status') = x := by
  obtain ⟨call, progress⟩ := c
  cases ht
  simp only [play, h]

theorem step_cases (s : Service ω τ) (outside : ω → ω) (x : Session ι ω τ) (i : Nat) :
    (x.play s outside (.step i) = x ∧ x.deed? s (.step i) = none) ∨
      ∃ id c t w c', x.calls[i]? = some (id, c) ∧ c.progress = .running t ∧
        c.advance s x.world = some (w, c') := by
  cases hc : x.calls[i]? with
  | none => exact .inl ⟨play_step_of_none hc, deed?_step_of_none hc⟩
  | some call =>
      obtain ⟨id, c⟩ := call
      cases ha : c.advance s x.world with
      | none => exact .inl ⟨play_step_of_waiting hc ha, deed?_step_of_waiting hc ha⟩
      | some r =>
          cases ht : c.progress with
          | ended status => simp [Served.advance, ht] at ha
          | running t => exact .inr ⟨id, c, t, r.1, r.2, rfl, ht, ha⟩

end Events

/-! ### Schedules and runs -/

theorem follow_append (x : Session ι ω τ) (first rest : List (Event ι)) :
    x.follow s outside (first ++ rest) = (x.follow s outside first).follow s outside rest := by
  induction first generalizing x with
  | nil => rfl
  | cons e first ih => exact ih _

theorem deeds_append (x : Session ι ω τ) (first rest : List (Event ι)) :
    x.deeds s outside (first ++ rest) =
      x.deeds s outside first ++ (x.follow s outside first).deeds s outside rest := by
  induction first generalizing x with
  | nil => rfl
  | cons e first ih =>
      rw [List.cons_append, deeds, deeds, ih, List.append_assoc]
      rfl

theorem Run.play {x y : Session ι ω τ} {before : List (Deed ω τ)}
    (h : Run s (fun w w' => w' = outside w) x before y) (e : Event ι) :
    Run s (fun w w' => w' = outside w) x (before ++ (y.deed? s e).toList) (y.play s outside e) := by
  have stay : Run s (fun w w' => w' = outside w) x
      (before ++ (none : Option (Deed ω τ)).toList) y := by
    rwa [Option.toList_none, List.append_nil]
  cases e with
  | step i =>
      obtain ⟨hp, hd⟩ | ⟨id, c, t, w, c', hc, ht, ha⟩ := step_cases s outside y i
      · rw [hp, hd]
        exact stay
      · rw [play_step hc ha, deed?_step hc ht ha]
        exact h.advance hc ht ha
  | «begin» id call => simpa [deed?, Session.play] using h.begin id call
  | client i f =>
      cases hc : y.calls[i]? with
      | none =>
          rw [play_client_of_none hc]
          exact stay
      | some call =>
          rw [play_client hc]
          simpa [deed?] using h.client f hc
  | expire i status =>
      cases hc : y.calls[i]? with
      | none =>
          rw [play_expire_of_none hc]
          exact stay
      | some call =>
          cases ht : call.2.progress with
          | ended status' =>
              rw [play_expire_of_ended hc ht]
              exact stay
          | running t =>
              rw [play_expire hc ht]
              simpa [deed?] using h.expire status hc ht
  | meanwhile => simpa [deed?, Session.play] using h.meanwhile rfl

theorem run_follow (x : Session ι ω τ) (events : List (Event ι)) :
    Run s (fun w w' => w' = outside w) x (x.deeds s outside events) (x.follow s outside events) := by
  induction events generalizing x with
  | nil => exact .refl
  | cons e rest ih =>
      have start : Run s (fun w w' => w' = outside w) x [] x := .refl
      exact (start.play e).trans (ih _)

/-- The runs of a session are what its schedules lead to. -/
theorem run_iff_follow {x y : Session ι ω τ} {made : List (Deed ω τ)} :
    Run s (fun w w' => w' = outside w) x made y ↔
      ∃ events, x.follow s outside events = y ∧ x.deeds s outside events = made := by
  constructor
  · intro h
    -- Every step of a run is brought about by one event more.
    have more {y : Session ι ω τ} {made : List (Deed ω τ)} (e : Event ι)
        (ih : ∃ events, x.follow s outside events = y ∧ x.deeds s outside events = made) :
        ∃ events, x.follow s outside events = y.play s outside e ∧
          x.deeds s outside events = made ++ (y.deed? s e).toList := by
      obtain ⟨events, rfl, rfl⟩ := ih
      refine ⟨events ++ [e], follow_append x events [e], ?_⟩
      rw [deeds_append, deeds, deeds, List.append_nil]
    induction h with
    | refl => exact ⟨[], rfl, rfl⟩
    | @advance made y i id c c' t w _ hc ht ha ih =>
        have hmore := more (.step i) ih
        rwa [play_step hc ha, deed?_step hc ht ha] at hmore
    | «begin» id call _ ih => simpa [deed?, Session.play] using more (.begin id call) ih
    | @client made y i id c f _ hc ih =>
        have hmore := more (.client i f) ih
        rw [play_client hc] at hmore
        simpa [deed?] using hmore
    | @expire made y i id c t status _ hc ht ih =>
        have hmore := more (.expire i status) ih
        rw [play_expire hc ht] at hmore
        simpa [deed?] using hmore
    | meanwhile _ hw ih =>
        have hmore := more .meanwhile ih
        subst hw
        simpa [deed?, Session.play] using hmore
  · rintro ⟨events, rfl, rfl⟩
    exact run_follow x events

/-! ### The part of one call in a schedule -/

def begun : List (Event ι) → List (ι × Call)
  | [] => []
  | .begin id call :: rest => (id, call) :: begun rest
  | _ :: rest => begun rest

theorem begun_append (first rest : List (Event ι)) :
    begun (first ++ rest) = begun first ++ begun rest := by
  induction first with
  | nil => rfl
  | cons e first ih => cases e <;> simp [begun, ih]

variable (s outside)

/-- What an event is for one call, as an event of a session that has no other: nothing, if it is not
about this call or if it is passed over. -/
def ownEvent? (x : Session ι ω τ) (i : Nat) : Event ι → Option (Event ι)
  | .step j => if j = i then (x.deed? s (.step j)).map fun _ => .step 0 else none
  | .client j f => if j = i ∧ i < x.calls.length then some (.client 0 f) else none
  | .expire j status => if j = i ∧ i < x.calls.length then some (.expire 0 status) else none
  | .begin _ _ | .meanwhile => none

def own (x : Session ι ω τ) (i : Nat) : List (Event ι) → List (Event ι)
  | [] => []
  | e :: rest => (x.ownEvent? s i e).toList ++ own (x.play s outside e) i rest

variable {s outside}

theorem own_append (x : Session ι ω τ) (i : Nat) (first rest : List (Event ι)) :
    x.own s outside i (first ++ rest) =
      x.own s outside i first ++ (x.follow s outside first).own s outside i rest := by
  induction first generalizing x with
  | nil => rfl
  | cons e first ih =>
      rw [List.cons_append, own, own, ih, List.append_assoc]
      rfl

theorem follow_concat (x : Session ι ω τ) (past : List (Event ι)) (e : Event ι) :
    x.follow s outside (past ++ [e]) = (x.follow s outside past).play s outside e :=
  follow_append x past [e]

theorem deeds_concat (x : Session ι ω τ) (past : List (Event ι)) (e : Event ι) :
    x.deeds s outside (past ++ [e]) =
      x.deeds s outside past ++ ((x.follow s outside past).deed? s e).toList := by
  rw [deeds_append, deeds, deeds, List.append_nil]

theorem own_concat (x : Session ι ω τ) (i : Nat) (past : List (Event ι)) (e : Event ι) :
    x.own s outside i (past ++ [e]) =
      x.own s outside i past ++ ((x.follow s outside past).ownEvent? s i e).toList := by
  rw [own_append, own, own, List.append_nil]

def Event.call? : Event ι → Option Nat
  | .step i | .client i _ | .expire i _ => some i
  | .begin _ _ | .meanwhile => none

section OtherCalls

variable {x : Session ι ω τ} {e : Event ι} {i : Nat}

theorem ownEvent?_of_other (h : e.call? ≠ some i) : x.ownEvent? s i e = none := by
  cases e with
  | step j | client j f | expire j status =>
      have hj : j ≠ i := fun hj => h (congrArg some hj)
      simp [ownEvent?, hj]
  | «begin» | meanwhile => rfl

theorem call_ne_of_other (h : e.call? ≠ some i) {d : Deed ω τ} (hd : d ∈ x.deed? s e) :
    d.call ≠ i := by
  cases e with
  | step j =>
      have hj : j ≠ i := fun hj => h (congrArg some hj)
      obtain ⟨-, hnone⟩ | ⟨id, c, t, w, c', hc, ht, ha⟩ := step_cases s id x j
      · rw [hnone] at hd
        cases hd
      · rw [deed?_step hc ht ha] at hd
        cases hd
        exact hj
  | «begin» | client | expire | meanwhile => cases hd

/-- An event leaves all calls alone but the one that it is about. -/
theorem calls_play_of_other (h : e.call? ≠ some i) (hi : i < x.calls.length) :
    (x.play s outside e).calls[i]? = x.calls[i]? := by
  cases e with
  | step j =>
      have hj : j ≠ i := fun hj => h (congrArg some hj)
      obtain ⟨hp, -⟩ | ⟨id, c, t, w, c', hc, ht, ha⟩ := step_cases s outside x j
      · rw [hp]
      · rw [play_step hc ha]
        exact List.getElem?_set_ne hj
  | client j f =>
      have hj : j ≠ i := fun hj => h (congrArg some hj)
      cases hc : x.calls[j]? with
      | none => rw [play_client_of_none hc]
      | some call =>
          rw [play_client hc]
          exact List.getElem?_set_ne hj
  | expire j status =>
      have hj : j ≠ i := fun hj => h (congrArg some hj)
      cases hc : x.calls[j]? with
      | none => rw [play_expire_of_none hc]
      | some call =>
          cases ht : call.2.progress with
          | ended status' => rw [play_expire_of_ended hc ht]
          | running t =>
              rw [play_expire hc ht]
              exact List.getElem?_set_ne hj
  | «begin» id call => exact List.getElem?_append_left hi
  | meanwhile => rfl

end OtherCalls

/-! ### Calls that have not begun -/

theorem length_le_play (x : Session ι ω τ) (e : Event ι) :
    x.calls.length ≤ (x.play s outside e).calls.length := by
  cases e with
  | step i =>
      obtain ⟨hp, -⟩ | ⟨id, c, t, w, c', hc, ht, ha⟩ := step_cases s outside x i
      · simp only [hp, Nat.le_refl]
      · simp only [play_step hc ha, List.length_set, Nat.le_refl]
  | client i f =>
      cases hc : x.calls[i]? with
      | none =>
          simp only [play_client_of_none hc, Nat.le_refl]
      | some call =>
          simp only [play_client hc, List.length_set, Nat.le_refl]
  | expire i status =>
      cases hc : x.calls[i]? with
      | none =>
          simp only [play_expire_of_none hc, Nat.le_refl]
      | some call =>
          cases ht : call.2.progress with
          | ended status' =>
              simp only [play_expire_of_ended hc ht, Nat.le_refl]
          | running t =>
              simp only [play_expire hc ht, List.length_set, Nat.le_refl]
  | «begin» id call =>
      rw [play, List.length_append]
      exact Nat.le_add_right _ _
  | meanwhile => exact Nat.le_refl _

theorem length_le_follow (x : Session ι ω τ) (events : List (Event ι)) :
    x.calls.length ≤ (x.follow s outside events).calls.length := by
  induction events generalizing x with
  | nil => exact Nat.le_refl _
  | cons e rest ih => exact Nat.le_trans (length_le_play x e) (ih _)

theorem ownEvent?_eq_none {x : Session ι ω τ} {i : Nat} (h : x.calls.length ≤ i) (e : Event ι) :
    x.ownEvent? s i e = none := by
  have hnone : x.calls[i]? = none := List.getElem?_eq_none h
  cases e with
  | step j =>
      rw [ownEvent?]
      split
      · rename_i hj
        subst hj
        rw [deed?_step_of_none hnone]
        rfl
      · rfl
  | client j f | expire j status => exact if_neg fun hj => Nat.not_lt.mpr h hj.2
  | «begin» | meanwhile => rfl

theorem own_eq_nil {x : Session ι ω τ} {i : Nat} {events : List (Event ι)}
    (h : (x.follow s outside events).calls.length ≤ i) : x.own s outside i events = [] := by
  induction events generalizing x with
  | nil => rfl
  | cons e rest ih =>
      have hx : x.calls.length ≤ i := Nat.le_trans (length_le_follow x (e :: rest)) h
      rw [own, ownEvent?_eq_none hx, ih h]
      rfl

theorem call_lt_of_mem_deeds {x : Session ι ω τ} {events : List (Event ι)} {d : Deed ω τ}
    (h : d ∈ x.deeds s outside events) : d.call < (x.follow s outside events).calls.length := by
  induction events generalizing x with
  | nil => cases h
  | cons e rest ih =>
      rw [deeds, List.mem_append] at h
      rcases h with h | h
      · refine Nat.lt_of_lt_of_le ?_ (length_le_follow x (e :: rest))
        cases e with
        | step i =>
            obtain ⟨-, hnone⟩ | ⟨id, c, t, w, c', hc, ht, ha⟩ := step_cases s outside x i
            · rw [hnone] at h
              cases h
            · rw [deed?_step hc ht ha, Option.toList_some, List.mem_singleton] at h
              rw [h]
              exact (List.getElem?_eq_some_iff.mp hc).1
        | «begin» | client | expire | meanwhile => cases h
      · exact ih h

end Session

end RemoteDiscipline
