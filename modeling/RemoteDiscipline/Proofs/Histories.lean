import RemoteDiscipline.Proofs.Serving
/-!
Everything that may be done to a call, whoever is first.

On a connection a reader, a service, a writer and a clock are at work. A step of a connection lets
them go in one order; a history lets any of them be first at any time, while the world changes behind
the service as it likes. It records what is done to the call: the turns of the service and the stop
when its time is over. All that a connection does by itself is a history (`Connection.History.settle`,
`Connection.exists_history_serve`).
-/

namespace RemoteDiscipline

namespace Connection

variable {ω τ : Type}

/-- What is done to a call. -/
inductive Act (ω τ : Type)
  /-- The service takes a step in some world. -/
  | turn (w : ω) (call : Served τ)
  /-- The time of the call is over. -/
  | stop (call : Served τ) (deadline : Deadline)

namespace Act

variable (s : Service ω τ)

def sent : Act ω τ → List Message
  | .turn w ⟨call, .running t⟩ =>
    match s.demand w call.cancelled t with
    | .send m _ => if call.outbox.isOpen then [m] else []
    | _ => []
  | _ => []

def status? : Act ω τ → Option Status
  | .turn w ⟨call, .running t⟩ =>
    match s.demand w call.cancelled t with
    | .finish _ status => some status
    | _ => none
  | .turn _ _ => none
  | .stop call d =>
    some (.deadlineExceeded s!"{call.method.name} did not finish within {d.timeout}ms")

def isStop : Act ω τ → Bool
  | .turn _ _ => false
  | .stop _ _ => true

end Act

variable {s : Service ω τ} {limits : Limits} {w w' : ω} {c c' : Connection τ}
  {arrived taken : List UInt8} {acts : List (Act ω τ)}

/-- A turn of the service puts into the outbox what it sends, and a call that has not ended gets the
status that the turn gives. -/
theorem turn_eq_some {call call' : Served τ} (h : call.advance s w = some (w', call')) :
    call.status? = none ∧ call'.status? = (Act.turn w call).status? s ∧
      call'.outbox.isOpen = call.outbox.isOpen ∧
      call'.outbox.items = call.outbox.items ++ (Act.turn w call).sent s ∧
      (call.outbox.isOpen = false → (Act.turn w call).sent s = []) := by
  obtain ⟨call, progress⟩ := call
  cases progress with
  | ended status => cases h
  | running t =>
      refine ⟨rfl, ?_⟩
      simp only [Served.advance] at h
      simp only [Act.status?, Act.sent]
      split at h
      · rename_i hd
        cases h
        simp [hd, Served.status?]
      · rename_i next hd
        obtain ⟨⟨r, call₁⟩, hr, he⟩ := Option.map_eq_some_iff.mp h
        obtain ⟨⟨r', inbox⟩, -, hr'⟩ := Option.map_eq_some_iff.mp hr
        cases he
        cases hr'
        simp [hd, Served.status?]
      · rename_i m next hd
        obtain ⟨⟨r, call₁⟩, hr, he⟩ := Option.map_eq_some_iff.mp h
        obtain ⟨⟨b, outbox⟩, hput, hr'⟩ := Option.map_eq_some_iff.mp hr
        cases he
        cases hr'
        unfold Outbox.put at hput
        split at hput
        · rename_i hclosed
          cases hput
          simp_all [Served.status?]
        · rename_i hopen
          split at hput <;> cases hput
          simp_all [Served.status?]
      · cases h
      · rename_i hd
        cases h
        simp [hd, Served.status?]

/-- Histories of a fresh connection: the bytes that have arrived, those that have been taken from its
output, what has been done to its call, and the world and the connection that this has led to. -/
inductive History (s : Service ω τ) (limits : Limits) :
    List UInt8 → List UInt8 → List (Act ω τ) → ω → Connection τ → Prop
  | fresh (w : ω) : History s limits [] [] [] w (fresh limits)
  | opened {arrived taken : List UInt8} {acts : List (Act ω τ)} {w : ω} {c c' : Connection τ}
      {now : Nat} :
      History s limits arrived taken acts w c → c.phase = .opening →
      c.openCall s now = some c' → History s limits arrived taken acts w c'
  | read {arrived taken rest : List UInt8} {acts : List (Act ω τ)} {w : ω} {c : Connection τ}
      {reader reader' : Reader} {call call' : Served τ} {deadline : Option Deadline} :
      History s limits arrived taken acts w c → c.phase = .serving reader call deadline →
      c.readStep reader call = some (reader', call', rest) →
      History s limits arrived taken acts w
        { c with input := rest, phase := .serving reader' call' deadline }
  | turn {arrived taken : List UInt8} {acts : List (Act ω τ)} {w w' : ω} {c : Connection τ}
      {reader : Reader} {call call' : Served τ} {deadline : Option Deadline} :
      History s limits arrived taken acts w c → c.phase = .serving reader call deadline →
      call.advance s w = some (w', call') →
      History s limits arrived taken (acts ++ [.turn w call]) w'
        { c with phase := .serving reader call' deadline }
  | wrote {arrived taken : List UInt8} {acts : List (Act ω τ)} {w : ω} {c c' : Connection τ}
      {reader : Reader} {call : Served τ} {deadline : Option Deadline} {waiting : Option Nat} :
      History s limits arrived taken acts w c → c.phase = .serving reader call deadline →
      c.writeStep waiting reader call deadline = some c' →
      History s limits arrived taken acts w c'
  | stopped {arrived taken : List UInt8} {acts : List (Act ω τ)} {w : ω} {c : Connection τ}
      {reader : Reader} {call : Served τ} {d : Deadline} :
      History s limits arrived taken acts w c → c.phase = .serving reader call (some d) →
      call.status? = none →
      History s limits arrived taken (acts ++ [.stop call d]) (c.expire s w).1 (c.expire s w).2
  /-- The world changes for other reasons. -/
  | meanwhile {arrived taken : List UInt8} {acts : List (Act ω τ)} {w : ω} {c : Connection τ}
      (w' : ω) : History s limits arrived taken acts w c → History s limits arrived taken acts w' c
  | arrive {arrived taken : List UInt8} {acts : List (Act ω τ)} {w : ω} {c : Connection τ}
      (bytes : List UInt8) :
      History s limits arrived taken acts w c → c.inputEnded = false →
      History s limits (arrived ++ bytes) taken acts w (c.arrive bytes)
  | endInput {arrived taken : List UInt8} {acts : List (Act ω τ)} {w : ω} {c : Connection τ} :
      History s limits arrived taken acts w c →
      History s limits arrived taken acts w c.endInput
  | hangUp {arrived taken : List UInt8} {acts : List (Act ω τ)} {w : ω} {c : Connection τ} :
      History s limits arrived taken acts w c → History s limits arrived taken acts w c.hangUp
  | takeOutput {arrived taken : List UInt8} {acts : List (Act ω τ)} {w : ω} {c : Connection τ} :
      History s limits arrived taken acts w c →
      History s limits arrived (taken ++ c.takeOutput.1) acts w c.takeOutput.2

namespace History

/-- A step of a connection goes on with its history. -/
theorem step {now : Nat} {waiting : Option Nat} (h : History s limits arrived taken acts w c)
    (hstep : c.step s now waiting w = some (w', c')) :
    ∃ more, History s limits arrived taken (acts ++ more) w' c' := by
  unfold Connection.step at hstep
  split at hstep
  · rename_i hphase
    obtain ⟨c₁, ho, he⟩ := Option.map_eq_some_iff.mp hstep
    cases he
    exact ⟨[], by simpa using h.opened hphase ho⟩
  · rename_i reader call deadline hphase
    split at hstep
    · rename_i hr
      cases hstep
      exact ⟨[], by simpa using h.read hphase hr⟩
    · split at hstep
      · rename_i ha
        cases hstep
        exact ⟨_, h.turn hphase ha⟩
      · obtain ⟨c₁, hw, he⟩ := Option.map_eq_some_iff.mp hstep
        cases he
        exact ⟨[], by simpa using h.wrote hphase hw⟩
  · cases hstep
  · cases hstep

theorem expire (h : History s limits arrived taken acts w c) :
    ∃ more, History s limits arrived taken (acts ++ more) (c.expire s w).1 (c.expire s w).2 := by
  cases hphase : c.phase with
  | serving reader call deadline =>
      obtain ⟨call, progress⟩ := call
      cases deadline with
      | none => exact ⟨[], by simpa [Connection.expire, hphase] using h⟩
      | some d =>
          cases progress with
          | running t => exact ⟨_, h.stopped hphase rfl⟩
          | ended status => exact ⟨[], by simpa [Connection.expire, hphase] using h⟩
  | opening | lingering | closed => exact ⟨[], by simpa [Connection.expire, hphase] using h⟩

theorem settle (h : History s limits arrived taken acts w c) (now : Nat) (waiting : Option Nat) :
    ∃ more, History s limits arrived taken (acts ++ more) (c.settle s now waiting w).1
      (c.settle s now waiting w).2 := by
  fun_induction Connection.settle s now waiting w c generalizing acts with
  | case1 w c w' c' hstep ih =>
      obtain ⟨first, hfirst⟩ := h.step hstep
      obtain ⟨more, hmore⟩ := ih hfirst
      exact ⟨first ++ more, by rwa [← List.append_assoc]⟩
  | case2 w c hstep => exact ⟨[], by simpa using h⟩

end History

theorem exists_history_serve (s : Service ω τ) (limits : Limits) (w : ω) (bytes : List UInt8)
    (ended : Bool) :
    ∃ acts, History s limits bytes [] acts (serve s limits w bytes ended).1
      (serve s limits w bytes ended).2 := by
  have harrived : History s limits bytes [] [] w ((Connection.fresh limits).arrive bytes) := by
    have hfresh : History s limits [] [] [] w (Connection.fresh limits) := .fresh w
    exact hfresh.arrive bytes rfl
  have hready : History s limits bytes [] [] w
      (if ended then ((Connection.fresh limits).arrive bytes).endInput
        else (Connection.fresh limits).arrive bytes) := by
    cases ended with
    | true => exact harrived.endInput
    | false => exact harrived
  obtain ⟨acts, hsettled⟩ := hready.settle 0 none
  unfold serve
  dsimp only
  split
  · obtain ⟨more, hexpired⟩ := hsettled.expire
    obtain ⟨last, hlast⟩ := hexpired.settle _ none
    exact ⟨_, hlast⟩
  · exact ⟨_, hsettled⟩

end Connection

end RemoteDiscipline
