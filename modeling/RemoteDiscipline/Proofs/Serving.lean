import RemoteDiscipline.Connection.Settle
/-!
Everything that may happen to a served connection.

A run of a connection lets bytes arrive, steps be made, time pass and output be taken in any order, so
it covers every schedule of the reader, the service, the writer and the client. Letting a connection
settle, and serving a whole stream, are runs (`Connection.Run.settle`, `Connection.run_serve`).
-/

namespace RemoteDiscipline

def Reading.failure? : Reading → Option Error
  | .ended => some (.cancelled "client closed the stream")
  | .fault f _ => some (.transport s!"reading client stream: {f.text}")
  | .frame .cancel _ => some (.cancelled "call cancelled by client")
  | .frame (.message _) _ | .frame .halfClose _ | .waiting => none
  | .frame f _ => some (.protocol s!"unexpected {f.name} frame from client")

theorem Reading.code_ne_ok_of_failure {r : Reading} {e : Error} (h : r.failure? = some e) :
    e.code ≠ .ok := by
  unfold failure? at h
  split at h <;> cases h <;> simp [Error.code]

namespace Connection

variable {ω τ : Type}

/-- Runs of a fresh connection: the bytes that have arrived, those that have been taken from its
output, and the world and the connection that this has led to. -/
inductive Run (s : Service ω τ) (limits : Limits) (w₀ : ω) :
    List UInt8 → List UInt8 → ω → Connection τ → Prop
  | fresh : Run s limits w₀ [] [] w₀ (fresh limits)
  | step {arrived taken : List UInt8} {w w' : ω} {c c' : Connection τ} {now : Nat}
      {waiting : Option Nat} :
      Run s limits w₀ arrived taken w c → c.step s now waiting w = some (w', c') →
      Run s limits w₀ arrived taken w' c'
  | expire {arrived taken : List UInt8} {w : ω} {c : Connection τ} :
      Run s limits w₀ arrived taken w c →
      Run s limits w₀ arrived taken (c.expire s w).1 (c.expire s w).2
  | arrive {arrived taken : List UInt8} {w : ω} {c : Connection τ} (bytes : List UInt8) :
      Run s limits w₀ arrived taken w c →
      Run s limits w₀ (arrived ++ bytes) taken w (c.arrive bytes)
  | endInput {arrived taken : List UInt8} {w : ω} {c : Connection τ} :
      Run s limits w₀ arrived taken w c → Run s limits w₀ arrived taken w c.endInput
  | hangUp {arrived taken : List UInt8} {w : ω} {c : Connection τ} :
      Run s limits w₀ arrived taken w c → Run s limits w₀ arrived taken w c.hangUp
  | takeOutput {arrived taken : List UInt8} {w : ω} {c : Connection τ} :
      Run s limits w₀ arrived taken w c →
      Run s limits w₀ arrived (taken ++ c.takeOutput.1) w c.takeOutput.2

variable {s : Service ω τ} {limits : Limits} {w₀ w : ω} {arrived taken : List UInt8}
  {c : Connection τ}

def written (taken : List UInt8) (c : Connection τ) : List UInt8 := taken ++ c.output.reverse.flatten

@[simp] theorem written_takeOutput :
    c.takeOutput.2.written (taken ++ c.takeOutput.1) = c.written taken := by
  simp [written, takeOutput]

theorem written_write (f : Frame) (c : Connection τ) :
    (c.write f).written taken =
      c.written taken ++ if f.isAnnounceable then f.encode else [] := by
  cases hf : f.isAnnounceable <;> simp [written, write, Frame.pack, hf]

theorem isRefused_eq_false {f : Frame} :
    c.isRefused f = false ↔ c.abandoned = false ∧ f.isAnnounceable = true := by
  simp [isRefused]

theorem written_write_of_isRefused {f : Frame} (h : c.isRefused f = false) :
    (c.write f).written taken = c.written taken ++ f.encode := by
  rw [written_write, if_pos (isRefused_eq_false.mp h).2]

theorem hear_eq_some {heard : Heard} {rest : List UInt8} (h : c.hear = some (heard, rest)) :
    (∃ x, heard = .message x ∧
        Frame.read c.limits.maxFrameBytes c.inputEnded c.input = .frame (.message x) rest) ∨
      (heard = .halfClose ∧
        Frame.read c.limits.maxFrameBytes c.inputEnded c.input = .frame .halfClose rest) ∨
      ∃ e, heard = .failure e ∧
        (Frame.read c.limits.maxFrameBytes c.inputEnded c.input).failure? = some e := by
  unfold hear at h
  split at h
  · cases h
  · rename_i hread
    cases h
    exact .inr (.inr ⟨_, rfl, by rw [hread]; rfl⟩)
  · rename_i f rest' hread
    cases h
    exact .inr (.inr ⟨_, rfl, by rw [hread]; rfl⟩)
  · rename_i x rest' hread
    cases h
    exact .inl ⟨x, rfl, hread⟩
  · rename_i rest' hread
    cases h
    exact .inr (.inl ⟨rfl, hread⟩)
  · rename_i rest' hread
    cases h
    exact .inr (.inr ⟨_, rfl, by rw [hread]; rfl⟩)
  · rename_i f rest' hmessage hclose hcancel hread
    cases h
    refine .inr (.inr ⟨_, rfl, ?_⟩)
    rw [hread]
    cases f with
    | opening | close => rfl
    | message x => exact absurd rfl (hmessage x)
    | halfClose => exact absurd rfl hclose
    | cancel => exact absurd rfl hcancel

/-- The reader only touches the inbox of a call and tells it to stop. -/
theorem readStep_eq_some {reader reader' : Reader} {call call' : Served τ}
    {rest : List UInt8} (h : c.readStep reader call = some (reader', call', rest)) :
    call'.progress = call.progress ∧ call'.outbox = call.outbox ∧ call'.method = call.method := by
  cases reader with
  | reading | draining =>
      obtain ⟨⟨heard, rest'⟩, -, he⟩ := Option.map_eq_some_iff.mp h
      cases heard <;> cases he <;> exact ⟨rfl, rfl, rfl⟩
  | holding x | failing e =>
      simp only [readStep] at h
      split at h
      · cases h
        exact ⟨rfl, rfl, rfl⟩
      · split at h <;> cases h
        exact ⟨rfl, rfl, rfl⟩
  | stopped => cases h

/-- What becomes of a connection when its first frame is read, or cannot be read. -/
inductive Opened (s : Service ω τ) (c : Connection τ) : Connection τ → Prop
  | ended : Frame.read c.limits.maxFrameBytes c.inputEnded c.input = .ended →
      Opened s c { c with phase := .closed }
  | unreadable {e : ReadFault} {rest : List UInt8} :
      Frame.read c.limits.maxFrameBytes c.inputEnded c.input = .fault e rest →
      Opened s c { c with phase := .closed }
  | served {m : Method} {timeout : Nat} {rest : List UInt8} (deadline : Option Deadline) :
      Frame.read c.limits.maxFrameBytes c.inputEnded c.input =
        .frame (.opening protocolVersion m timeout) rest →
      Opened s c
        { c with
          input := rest
          phase := .serving .reading (.begin s (.fresh m c.limits.channelCapacity true)) deadline }
  | unspoken {version : Nat} {m : Method} {timeout : Nat} {rest : List UInt8} :
      Frame.read c.limits.maxFrameBytes c.inputEnded c.input =
        .frame (.opening version m timeout) rest →
      version ≠ protocolVersion →
      Opened s c
        { c.write (.close (.unimplemented
            (s!"protocol version {version} not supported " ++
              s!"(server speaks {protocolVersion})"))) with
          input := rest
          phase := .closed }
  | unexpected {f : Frame} {rest : List UInt8} :
      Frame.read c.limits.maxFrameBytes c.inputEnded c.input = .frame f rest →
      (∀ version m timeout, f ≠ .opening version m timeout) →
      Opened s c
        { c.write (.close (.invalidArgument s!"expected open frame, got {f.name}")) with
          input := rest
          phase := .closed }

theorem opened_of_openCall {c' : Connection τ} {now : Nat} (h : c.openCall s now = some c') :
    Opened s c c' := by
  unfold openCall at h
  split at h
  · cases h
  · rename_i hread
    cases h
    exact .ended hread
  · rename_i hread
    cases h
    exact .unreadable hread
  · rename_i f rest hread
    dsimp only at h
    split at h
    · split at h
      · rename_i hversion
        cases h
        exact .served _ (hversion ▸ hread)
      · rename_i hversion
        cases h
        exact .unspoken hread hversion
    · rename_i hother
      cases h
      exact .unexpected hread hother

/-- What the writer does. -/
inductive Wrote (c : Connection τ) (reader : Reader) (call : Served τ)
    (deadline : Option Deadline) : Connection τ → Prop
  | dropped {m : Message} {rest : List Message} :
      call.outbox.items = m :: rest → c.isRefused (.message m) = true →
      Wrote c reader call deadline
        { c with phase := .serving reader (call.onCall Call.dropReader) deadline }
  | message {m : Message} {rest : List Message} :
      call.outbox.items = m :: rest → c.isRefused (.message m) = false →
      Wrote c reader call deadline
        { c.write (.message m) with
          phase := .serving reader { call with outbox := { call.outbox with items := rest } }
            deadline }
  | left {status : Status} :
      call.outbox.items = [] → call.progress = .ended status →
      c.isRefused (.close status) = true ∨ call.outbox.isOpen = false →
      Wrote c reader call deadline { c with phase := .lingering }
  | closed {status : Status} :
      call.outbox.items = [] → call.progress = .ended status →
      c.isRefused (.close status) = false → call.outbox.isOpen = true →
      Wrote c reader call deadline { c.write (.close status) with phase := .lingering }

theorem wrote_of_writeStep {c' : Connection τ} {waiting : Option Nat} {reader : Reader}
    {call : Served τ} {deadline : Option Deadline}
    (h : c.writeStep waiting reader call deadline = some c') : Wrote c reader call deadline c' := by
  unfold writeStep at h
  split at h
  · rename_i hitems
    split at h
    · rename_i hgone
      cases h
      exact .dropped hitems hgone
    · rename_i hthere
      split at h
      · cases h
        exact .message hitems (by simpa using hthere)
      · cases h
  · rename_i hitems
    split at h
    · cases h
    · rename_i hended
      split at h
      · rename_i hgone
        cases h
        exact .left hitems hended (by simpa using hgone)
      · rename_i hthere
        simp only [Bool.or_eq_true, not_or, Bool.not_eq_true, Bool.not_eq_false'] at hthere
        split at h
        · cases h
          exact .closed hitems hended hthere.1 hthere.2
        · cases h

/-! ### What a connection does -/

theorem Run.settle (h : Run s limits w₀ arrived taken w c) (now : Nat) (waiting : Option Nat) :
    Run s limits w₀ arrived taken (c.settle s now waiting w).1 (c.settle s now waiting w).2 := by
  fun_induction Connection.settle s now waiting w c with
  | case1 w c w' c' hstep ih => exact ih (h.step hstep)
  | case2 w c hstep => exact h

theorem run_serve (s : Service ω τ) (limits : Limits) (w₀ : ω) (bytes : List UInt8) (ended : Bool) :
    Run s limits w₀ bytes [] (serve s limits w₀ bytes ended).1
      (serve s limits w₀ bytes ended).2 := by
  have harrived : Run s limits w₀ bytes [] w₀ ((Connection.fresh limits).arrive bytes) := by
    have hfresh : Run s limits w₀ [] [] w₀ (Connection.fresh limits) := .fresh
    exact hfresh.arrive bytes
  have hready : Run s limits w₀ bytes [] w₀
      (if ended then ((Connection.fresh limits).arrive bytes).endInput
        else (Connection.fresh limits).arrive bytes) := by
    cases ended with
    | true => exact harrived.endInput
    | false => exact harrived
  have hsettled := hready.settle 0 none
  unfold serve
  dsimp only
  split
  · exact hsettled.expire.settle _ none
  · exact hsettled

end Connection

end RemoteDiscipline
