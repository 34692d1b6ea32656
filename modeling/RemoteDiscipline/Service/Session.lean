import RemoteDiscipline.Service.Basic
/-!
Calls that are served side by side.

A session holds a service's world and the calls that have begun, by name and in the order in which
they began. After every event the calls that can go on do so until all of them wait.
-/

namespace RemoteDiscipline

/-- A world and the calls that have begun in it, by names of type `ι`. -/
structure Session (ι ω τ : Type) where
  world : ω
  calls : List (ι × Served τ)

namespace Session

variable {ι ω τ : Type}

def stepFirst (s : Service ω τ) (w : ω) :
    List (ι × Served τ) → Option (ω × List (ι × Served τ))
  | [] => none
  | (id, c) :: rest =>
    match c.advance s w with
    | some (w, c) => some (w, (id, c) :: rest)
    | none => (stepFirst s w rest).map fun r => (r.1, (id, c) :: r.2)

def total (f : Served τ → Nat) : List (ι × Served τ) → Nat
  | [] => 0
  | c :: rest => f c.2 + total f rest

theorem stepFirst_lt {s : Service ω τ} {w w' : ω} {calls calls' : List (ι × Served τ)}
    (h : stepFirst s w calls = some (w', calls')) :
    total (Served.stage s) calls' < total (Served.stage s) calls ∨
      total (Served.stage s) calls' = total (Served.stage s) calls ∧
        (total Served.unread calls' < total Served.unread calls ∨
          total Served.unread calls' = total Served.unread calls ∧
            total (Served.load s) calls' < total (Served.load s) calls) := by
  induction calls generalizing calls' with
  | nil => cases h
  | cons hd rest ih =>
    obtain ⟨id, c⟩ := hd
    simp only [stepFirst] at h
    split at h
    · rename_i w₁ c₁ hc
      cases h
      have := Served.advance_lt hc
      simp only [total]
      omega
    · obtain ⟨⟨w₁, rest'⟩, hr, he⟩ := Option.map_eq_some_iff.mp h
      cases he
      have := ih hr
      simp only [total]
      omega

def settle (s : Service ω τ) (x : Session ι ω τ) : Session ι ω τ :=
  match _h : stepFirst s x.world x.calls with
  | some (w, calls) => settle s ⟨w, calls⟩
  | none => x
termination_by (total (Served.stage s) x.calls, total Served.unread x.calls,
  total (Served.load s) x.calls)
decreasing_by
  have := stepFirst_lt _h
  simp only [Prod.lex_def]
  omega

variable [DecidableEq ι]

def find? (x : Session ι ω τ) (id : ι) : Option (Served τ) :=
  (x.calls.find? fun c => c.1 = id).map (·.2)

def onCall (id : ι) (f : Call → Call) (x : Session ι ω τ) : Session ι ω τ :=
  { x with calls := x.calls.map fun c => if c.1 = id then (c.1, c.2.onCall f) else c }

/-! ### Events -/

def begin (s : Service ω τ) (id : ι) (c : Call) (x : Session ι ω τ) : Session ι ω τ :=
  settle s { x with calls := x.calls ++ [(id, .begin s c)] }

def happen (s : Service ω τ) (id : ι) (f : Call → Call) (x : Session ι ω τ) : Session ι ω τ :=
  settle s (x.onCall id f)

def finish (s : Service ω τ) (id : ι) (x : Session ι ω τ) : Session ι ω τ :=
  x.happen s id fun c => c.halfClose.readAll

def onWorld (f : ω → ω) (x : Session ι ω τ) : Session ι ω τ := { x with world := f x.world }

def forget (id : ι) (x : Session ι ω τ) : Session ι ω τ :=
  { x with calls := x.calls.filter fun c => c.1 ≠ id }

end Session

end RemoteDiscipline
