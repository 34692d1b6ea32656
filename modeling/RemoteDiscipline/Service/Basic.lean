import RemoteDiscipline.Call
/-!
Services: what answers calls, one step at a time.

A call that is being served has a task. The service says what the task needs next: to go on by
itself, to receive, to send, to wait, or to end the call. Between any two steps other calls may go
on, and all of them share the world of the service. Every service comes with a reason why its calls
settle: from step to step a task is in an earlier stage, or it has taken from its inbox, or it has
less left to do.
-/

namespace RemoteDiscipline

/-- What a task needs next, in a world `ω`. -/
inductive Demand (ω τ : Type)
  /-- Nothing: the task goes on by itself, and may change the world. -/
  | proceed (world : ω) (task : τ)
  | receive (next : Except Error (Option Message) → τ)
  | send (m : Message) (next : Except Error Unit → τ)
  /-- A change from outside. -/
  | wait
  | finish (world : ω) (status : Status)

/-- What answers calls. -/
structure Service (ω τ : Type) where
  start : Method → τ
  /-- What a task needs, given whether its call has been told to stop. -/
  demand : ω → Bool → τ → Demand ω τ
  /-- The world after a task was given up. -/
  abandon : ω → τ → ω
  /-- How many stages are left. -/
  stage : τ → Nat
  /-- How much is left to do within the stage. -/
  load : τ → Nat
  proceed_lt {w w' : ω} {b : Bool} {t t' : τ} : demand w b t = .proceed w' t' →
    stage t' < stage t ∨ stage t' = stage t ∧ load t' < load t
  receive_le {w : ω} {b : Bool} {t : τ} {next : Except Error (Option Message) → τ} :
    demand w b t = .receive next → ∀ r, stage (next r) ≤ stage t
  receive_end_lt {w : ω} {b : Bool} {t : τ} {next : Except Error (Option Message) → τ} :
    demand w b t = .receive next → stage (next (.ok none)) < stage t
  send_lt {w : ω} {b : Bool} {t : τ} {m : Message} {next : Except Error Unit → τ} :
    demand w b t = .send m next →
    ∀ r, stage (next r) < stage t ∨ stage (next r) = stage t ∧ load (next r) < load t

inductive Progress (τ : Type)
  | running (task : τ)
  | ended (status : Status)

structure Served (τ : Type) extends Call where
  progress : Progress τ

namespace Served

variable {ω τ : Type}

def begin (s : Service ω τ) (c : Call) : Served τ := { c with progress := .running (s.start c.method) }

def status? (c : Served τ) : Option Status :=
  match c.progress with
  | .running _ => none
  | .ended status => some status

def onCall (c : Served τ) (f : Call → Call) : Served τ := { c with toCall := f c.toCall }

/-- One step of a call, unless it has to wait or has ended. -/
def advance (s : Service ω τ) (w : ω) (c : Served τ) : Option (ω × Served τ) :=
  match c.progress with
  | .ended _ => none
  | .running t =>
    match s.demand w c.cancelled t with
    | .proceed w t => some (w, { c with progress := .running t })
    | .receive next => c.toCall.receive.map fun r => (w, ⟨r.2, .running (next r.1)⟩)
    | .send m next => (c.toCall.send m).map fun r => (w, ⟨r.2, .running (next r.1)⟩)
    | .wait => none
    | .finish w status => some (w, { c with progress := .ended status })

/-! ### Why calls settle -/

def stage (s : Service ω τ) (c : Served τ) : Nat :=
  match c.progress with
  | .running t => s.stage t + 1
  | .ended _ => 0

def load (s : Service ω τ) (c : Served τ) : Nat :=
  match c.progress with
  | .running t => s.load t
  | .ended _ => 0

def unread (c : Served τ) : Nat := c.inbox.items.length

/-- Every step leaves fewer stages, or fewer items, or less to do. -/
theorem advance_lt {s : Service ω τ} {w w' : ω} {c c' : Served τ}
    (h : c.advance s w = some (w', c')) :
    c'.stage s < c.stage s ∨ c'.stage s = c.stage s ∧
      (c'.unread < c.unread ∨ c'.unread = c.unread ∧ c'.load s < c.load s) := by
  obtain ⟨call, progress⟩ := c
  cases progress with
  | ended status => cases h
  | running t =>
    simp only [advance] at h
    split at h
    · rename_i w₁ t₁ hd
      cases h
      rcases s.proceed_lt hd with hlt | ⟨heq, hlt⟩
      · left
        simpa [stage] using hlt
      · right
        refine ⟨by simpa [stage] using heq, .inr ⟨rfl, ?_⟩⟩
        simpa [load] using hlt
    · rename_i next hd
      obtain ⟨_, hr, he⟩ := Option.map_eq_some_iff.mp h
      cases he
      obtain ⟨⟨r, inbox'⟩, ht, he⟩ := Option.map_eq_some_iff.mp hr
      cases he
      have hle := s.receive_le hd r
      match r, ht with
      | .ok (some m), ht =>
        have hlt := Inbox.length_of_take_some ht
        rcases Nat.lt_or_eq_of_le hle with hs | hs
        · left
          simpa [stage] using hs
        · right
          exact ⟨by simpa [stage] using hs, .inl (by simpa [unread] using hlt)⟩
      | .ok none, ht =>
        left
        simpa [stage] using s.receive_end_lt hd
      | .error e, ht =>
        have hlt := Inbox.length_of_take_error ht
        rcases Nat.lt_or_eq_of_le hle with hs | hs
        · left
          simpa [stage] using hs
        · right
          exact ⟨by simpa [stage] using hs, .inl (by simpa [unread] using hlt)⟩
    · rename_i m next hd
      obtain ⟨r, hr, he⟩ := Option.map_eq_some_iff.mp h
      cases he
      obtain ⟨_, _, he⟩ := Option.map_eq_some_iff.mp hr
      cases he
      rcases s.send_lt hd _ with hlt | ⟨heq, hlt⟩
      · left
        simpa [stage] using hlt
      · right
        refine ⟨by simpa [stage] using heq, .inr ⟨rfl, ?_⟩⟩
        simpa [load] using hlt
    · cases h
    · cases h
      left
      simp [stage]

end Served

end RemoteDiscipline
