import RemoteDiscipline.Connection.Basic
/-!
Letting a connection go on until it waits.

Every step of a connection reads something or moves the reader on; or it moves the service on; or it
writes something. So between two events from outside there are finitely many steps.
-/

namespace RemoteDiscipline

/-- How much a reader has to do, besides taking in more. -/
def Reader.weight : Reader → Nat
  | .reading => 2
  | .holding _ => 3
  | .failing _ | .draining => 1
  | .stopped => 0

namespace Connection

variable {ω τ : Type}

def readWork (c : Connection τ) : Nat :=
  match c.phase with
  | .opening => 2 * c.input.length + 4
  | .serving reader _ _ => 2 * c.input.length + reader.weight
  | .lingering | .closed => 2 * c.input.length

def ofCall (c : Connection τ) (f : Served τ → Nat) : Nat :=
  match c.phase with
  | .serving _ call _ => f call
  | _ => 0

def stage (s : Service ω τ) (c : Connection τ) : Nat := c.ofCall fun call => call.stage s + 1

def unread (c : Connection τ) : Nat := c.ofCall Served.unread

def load (s : Service ω τ) (c : Connection τ) : Nat := c.ofCall (Served.load s)

def unwritten (c : Connection τ) : Nat := c.ofCall fun call => call.outbox.items.length

theorem length_of_hear {c : Connection τ} {h : Heard} {rest : List UInt8}
    (hc : c.hear = some (h, rest)) :
    rest.length ≤ c.input.length ∧
      ((∃ e, h = .failure e) ∨ rest.length < c.input.length) := by
  unfold hear at hc
  split at hc
  case h_1 => cases hc
  case h_2 =>
    cases hc
    exact ⟨Nat.le_refl _, .inl ⟨_, rfl⟩⟩
  case h_3 f rest' hr =>
    cases hc
    exact ⟨Frame.length_le_of_read_fault hr, .inl ⟨_, rfl⟩⟩
  all_goals
    rename_i hr
    have hlt := Frame.length_lt_of_read_frame hr
    cases hc
    exact ⟨Nat.le_of_lt hlt, .inr hlt⟩

theorem readStep_lt {c : Connection τ} {reader reader' : Reader} {call call' : Served τ}
    {rest : List UInt8} (h : c.readStep reader call = some (reader', call', rest)) :
    2 * rest.length + reader'.weight < 2 * c.input.length + reader.weight := by
  cases reader with
  | reading =>
    obtain ⟨⟨heard, rest'⟩, hh, he⟩ := Option.map_eq_some_iff.mp h
    have ⟨hle, hlt⟩ := length_of_hear hh
    cases heard with
    | message m =>
      cases he
      rcases hlt with ⟨e, he⟩ | hlt
      · cases he
      · simp only [Reader.weight]
        omega
    | halfClose =>
      cases he
      simp only [Reader.weight]
      omega
    | failure e =>
      cases he
      simp only [Reader.weight]
      omega
  | holding m =>
    simp only [readStep] at h
    split at h
    · cases h
      simp [Reader.weight]
    · split at h <;> cases h
      simp [Reader.weight]
  | failing e =>
    simp only [readStep] at h
    split at h
    · cases h
      simp [Reader.weight]
    · split at h <;> cases h
      simp [Reader.weight]
  | draining =>
    obtain ⟨⟨heard, rest'⟩, hh, he⟩ := Option.map_eq_some_iff.mp h
    have ⟨hle, hlt⟩ := length_of_hear hh
    cases heard with
    | failure e =>
      cases he
      simp only [Reader.weight]
      omega
    | message m =>
      cases he
      rcases hlt with ⟨e, he⟩ | hlt
      · cases he
      · simp only [Reader.weight]
        omega
    | halfClose =>
      cases he
      rcases hlt with ⟨e, he⟩ | hlt
      · cases he
      · simp only [Reader.weight]
        omega
  | stopped => cases h

theorem openCall_lt {s : Service ω τ} {now : Nat} {c c' : Connection τ} (hc : c.phase = .opening)
    (h : c.openCall s now = some c') : c'.readWork < c.readWork := by
  simp only [readWork, hc]
  unfold openCall at h
  split at h
  · cases h
  · cases h
    simp
  · cases h
    simp
  · rename_i f rest hr
    have hlt := Frame.length_lt_of_read_frame hr
    dsimp only at h
    split at h
    · split at h
      · cases h
        simp only [Reader.weight]
        omega
      · cases h
        simp only
        omega
    · cases h
      simp only
      omega

theorem writeStep_lt {s : Service ω τ} {c c' : Connection τ} {waiting : Option Nat}
    {reader : Reader} {call : Served τ} {deadline : Option Deadline}
    (hc : c.phase = .serving reader call deadline)
    (h : c.writeStep waiting reader call deadline = some c') :
    c'.readWork ≤ c.readWork ∧
      (c'.stage s < c.stage s ∨ c'.stage s = c.stage s ∧ c'.unread = c.unread ∧
        c'.load s = c.load s ∧ c'.unwritten < c.unwritten) := by
  unfold writeStep at h
  split at h
  · rename_i m rest hm
    split at h
    · cases h
      simp [readWork, stage, unread, load, unwritten, ofCall, hc, Served.onCall, Served.stage,
        Served.unread, Served.load, Call.dropReader, hm]
    · split at h
      · cases h
        simp [readWork, stage, unread, load, unwritten, ofCall, hc, write, Served.stage,
          Served.unread, Served.load, hm]
      · cases h
  · split at h
    · cases h
    · split at h
      · cases h
        simp [readWork, stage, ofCall, hc]
      · split at h
        · cases h
          simp [readWork, stage, ofCall, hc, write]
        · cases h

/-- Every step of a connection leads somewhere. -/
theorem step_lt {s : Service ω τ} {now : Nat} {waiting : Option Nat} {w w' : ω}
    {c c' : Connection τ} (h : c.step s now waiting w = some (w', c')) :
    c'.readWork < c.readWork ∨ c'.readWork = c.readWork ∧
      (c'.stage s < c.stage s ∨ c'.stage s = c.stage s ∧
        (c'.unread < c.unread ∨ c'.unread = c.unread ∧
          (c'.load s < c.load s ∨ c'.load s = c.load s ∧ c'.unwritten < c.unwritten))) := by
  unfold step at h
  split at h
  · rename_i hc
    obtain ⟨c₁, ho, he⟩ := Option.map_eq_some_iff.mp h
    cases he
    exact .inl (openCall_lt hc ho)
  · rename_i reader call deadline hc
    split at h
    · rename_i reader' call' rest hr
      cases h
      left
      have := readStep_lt hr
      simpa [readWork, hc] using this
    · split at h
      · rename_i w₁ call₁ ha
        cases h
        right
        have := Served.advance_lt ha
        refine ⟨by simp [readWork, hc], ?_⟩
        simp only [stage, unread, load, unwritten, ofCall, hc]
        omega
      · obtain ⟨c₁, hw, he⟩ := Option.map_eq_some_iff.mp h
        cases he
        have := writeStep_lt (s := s) hc hw
        omega
  · cases h
  · cases h

def settle (s : Service ω τ) (now : Nat) (waiting : Option Nat) (w : ω) (c : Connection τ) :
    ω × Connection τ :=
  match _h : c.step s now waiting w with
  | some (w, c) => settle s now waiting w c
  | none => (w, c)
termination_by (c.readWork, c.stage s, c.unread, c.load s, c.unwritten)
decreasing_by
  have := step_lt _h
  simp only [Prod.lex_def]
  omega

/-- Serves a whole stream: all that the client sends is there at once, and it reads all that is
written. When the call waits for nothing but its deadline, that comes. -/
def serve (s : Service ω τ) (limits : Limits) (w : ω) (bytes : List UInt8) (ended : Bool) :
    ω × Connection τ :=
  let c : Connection τ := (fresh limits).arrive bytes
  let (w, c) := (if ended then c.endInput else c).settle s 0 none w
  match c.deadline? with
  | some d =>
    let (w, c) := c.expire s w
    c.settle s d.time none w
  | none => (w, c)

end Connection

end RemoteDiscipline
