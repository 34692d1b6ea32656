import RemoteDiscipline.Proofs.Evaluations
import RemoteDiscipline.Proofs.Histories
/-!
Replies that are cut short.

A host that sends a reply looks before each chunk whether its call has been told to stop, and blames
the hook when it comes to a result that is missing or has another length than declared. Here the
call may be told so at any time, and the host and the ends of the call may change in between
(`Host.Emits`). Wherever the task is then, it has sent a beginning of the planned chunks
(`Host.Conveys`), and the status that its call gets tells whether these were all of them
(`Host.reply_cut_short`).
-/

namespace RemoteDiscipline

/-! ### What is planned -/

def Parcel.messages (parcels : List Parcel) : List Message := parcels.map fun p => .chunk p.chunk

theorem Plan.messages_parcels (p : Plan) : Parcel.messages p.parcels = p.chunks.map .chunk := by
  simp [Parcel.messages, Plan.chunks]

namespace Outcome

variable {o : Outcome}

theorem checked_eq_error (h : ¬ ∃ x, o.value = some x ∧ x.length = o.shape.count) (hook : Hook) :
    ∃ text, o.checked hook = .error (.callback hook.name text) := by
  unfold checked
  split
  · exact ⟨_, rfl⟩
  · rename_i x hx
    rw [if_neg fun hlength => h ⟨x, hx, hlength⟩]
    exact ⟨_, rfl⟩

theorem plan_of_fault {hook : Hook} {size : Nat} (hsize : 1 ≤ size) {good : List Outcome}
    {bad : Outcome} {e : Error} (hgood : AllThere good) (hbad : bad.checked hook = .error e)
    (rest : List Outcome) :
    (Plan.concat ((good ++ bad :: rest).map (plan hook size))).chunks =
        good.flatMap (pieces size) ∧
      (Plan.concat ((good ++ bad :: rest).map (plan hook size))).ending = .error e := by
  induction good with
  | nil =>
      have hplan : bad.plan hook size = .failed e := by rw [plan, hbad]
      rw [List.nil_append, List.map_cons, hplan]
      exact ⟨rfl, rfl⟩
  | cons o good ih =>
      have hfirst : (o.plan hook size).Sends (o.pieces size) :=
        sends_plan (hgood o (by simp)) hook hsize
      obtain ⟨hchunks, hending⟩ :=
        Plan.append_of_ending hfirst.ending (.concat ((good ++ bad :: rest).map (plan hook size)))
      obtain ⟨ihchunks, ihending⟩ := ih fun o ho => hgood o (by simp [ho])
      refine ⟨hchunks.trans ?_, hending.trans ihending⟩
      rw [hfirst.chunks, ihchunks, List.flatMap_cons]

end Outcome

namespace Host

open Connection (Act)

variable {σ : Type}

/-! ### Runs -/

/-- Runs of a call, with the messages that it sends to its reader. Between two steps anything may
happen to the host, and at the ends of the call anything but this: that the reader goes away, or
that a call which has been told to stop is told to go on. -/
inductive Emits (σ : Type) : Served Task → List Message → Served Task → Prop
  | refl (c : Served Task) : Emits σ c [] c
  | step {c c' c'' : Served Task} {sent : List Message} {h h' : Host σ} :
      Emits σ c sent c' → c'.advance service h = some (h', c'') →
      Emits σ c (sent ++ (Act.turn h c').sent service) c''
  | meanwhile {c c' : Served Task} {sent : List Message} (f : Call → Call) :
      Emits σ c sent c' → (c'.outbox.isOpen = true → (f c'.toCall).outbox.isOpen = true) →
      (c'.cancelled = true → (f c'.toCall).cancelled = true) → Emits σ c sent (c'.onCall f)

def Concludes (c : Served Task) (status : Status) : Prop :=
  (∃ ticket, c.progress = .running (.leaving ticket status)) ∨ c.progress = .ended status

/-- The chunk that a task has begun to send. -/
def begun (c : Served Task) : List Message :=
  match c.progress with
  | .running (.committed _ chunk _) => [.chunk chunk]
  | _ => []

def stepsLeft (c : Served Task) : Nat :=
  match c.progress with
  | .running t => t.stage + t.load + 1
  | .ended _ => 0

/-- How far a call is with a plan when it has sent some messages. -/
inductive Conveys (plan : Plan) (c : Served Task) : List Message → Prop
  | looking {ticket : Option Nat} {done rest : List Parcel} :
      c.progress = .running (.sending ticket ⟨rest, plan.ending⟩) → plan.parcels = done ++ rest →
      Conveys plan c (Parcel.messages done)
  | committed {ticket : Option Nat} {done rest : List Parcel} {p : Parcel} :
      c.progress = .running (.committed ticket p.chunk ⟨rest, plan.ending⟩) →
      plan.parcels = done ++ p :: rest → Conveys plan c (Parcel.messages done)
  | through : Concludes c (Plan.status plan.ending) → Conveys plan c (Parcel.messages plan.parcels)
  | stopped {done rest : List Parcel} {p : Parcel} :
      Concludes c p.stopped.toStatus → c.cancelled = true → plan.parcels = done ++ p :: rest →
      Conveys plan c (Parcel.messages done)

variable {plan : Plan} {c c' c'' : Served Task} {sent more : List Message} {h h' : Host σ}
  {status : Status}

theorem Concludes.unique {status' : Status} (h : Concludes c status) (h' : Concludes c status') :
    status = status' := by
  obtain ⟨ticket, hp⟩ | hp := h <;> obtain ⟨ticket', hp'⟩ | hp' := h'
  · cases hp.symm.trans hp'
    rfl
  · cases hp.symm.trans hp'
  · cases hp.symm.trans hp'
  · cases hp.symm.trans hp'
    rfl

/-! ### Steps -/

/-- A step does not decide whether the call is told to stop. -/
theorem cancelled_of_advance (ha : c.advance service h = some (h', c')) :
    c'.cancelled = c.cancelled := by
  obtain ⟨t, -, hm⟩ := move_of_advance ha
  obtain ⟨call', progress'⟩ := c'
  cases hm with
  | request hr | close hr | drain hr =>
      obtain ⟨_, -, he⟩ := Option.map_eq_some_iff.mp hr
      cases he
      rfl
  | respond hs | put hs =>
      obtain ⟨_, -, he⟩ := Option.map_eq_some_iff.mp hs
      cases he
      rfl
  | letIn | apply | decline | responded | start | refuse | evaluate | abort | sent | cut | stop
  | commit | leave => rfl

theorem sent_of_items (ha : c.advance service h = some (h', c'))
    (hitems : c'.outbox.items = c.outbox.items ++ more) : (Act.turn h c).sent service = more := by
  obtain ⟨-, -, -, hadded, -⟩ := Connection.turn_eq_some ha
  exact List.append_cancel_left (hadded.symm.trans hitems)

theorem Concludes.step (hc : Concludes c status) (ha : c.advance service h = some (h', c')) :
    (Act.turn h c).sent service = [] ∧ Concludes c' status ∧ begun c = [] ∧ begun c' = [] := by
  obtain ⟨t, ht, hm⟩ := move_of_advance ha
  obtain ⟨call', progress'⟩ := c'
  obtain ⟨ticket, hp⟩ | hp := hc
  · cases hp.symm.trans ht
    cases hm with
    | leave =>
        have hnothing : (Act.turn h c).sent service = [] := sent_of_items ha (by simp)
        exact ⟨hnothing, .inr rfl, by rw [begun, hp], rfl⟩
  · cases hp.symm.trans ht

/-- A step goes on with the plan. Once the call has been told to stop, nothing is sent but the chunk
that had been begun before. -/
theorem Conveys.step (hc : Conveys plan c sent) (hopen : c.outbox.isOpen = true)
    (ha : c.advance service h = some (h', c')) :
    Conveys plan c' (sent ++ (Act.turn h c).sent service) ∧
      (c.cancelled = true → (Act.turn h c).sent service ++ begun c' = begun c) := by
  have hcancelled := cancelled_of_advance ha
  obtain ⟨t, ht, hm⟩ := move_of_advance ha
  obtain ⟨call', progress'⟩ := c'
  cases hc with
  | @looking ticket done rest hp hparcels =>
      cases hp.symm.trans ht
      have hbegun : begun c = [] := by rw [begun, hp]
      have hnothing (hsame : call' = c.toCall) : (Act.turn h c).sent service = [] :=
        sent_of_items ha (by simp [hsame])
      generalize hending : plan.ending = ending at hm
      cases hm with
      | sent =>
          have hall : plan.parcels = done := by rw [hparcels, List.append_nil]
          rw [hnothing rfl, hbegun, List.append_nil, ← hall]
          exact ⟨.through (.inl ⟨ticket, by rw [hending]; rfl⟩), fun _ => rfl⟩
      | cut =>
          have hall : plan.parcels = done := by rw [hparcels, List.append_nil]
          rw [hnothing rfl, hbegun, List.append_nil, ← hall]
          exact ⟨.through (.inl ⟨ticket, by rw [hending]; rfl⟩), fun _ => rfl⟩
      | stop hstop =>
          rw [hnothing rfl, hbegun, List.append_nil]
          exact ⟨.stopped (.inl ⟨ticket, rfl⟩) hstop hparcels, fun _ => rfl⟩
      | commit hgo =>
          rw [hnothing rfl, List.append_nil]
          refine ⟨.committed (by rw [hending]) hparcels, fun hstop => ?_⟩
          rw [hgo] at hstop
          cases hstop
  | @committed ticket done rest p hp hparcels =>
      cases hp.symm.trans ht
      cases hm with
      | put hput =>
          obtain ⟨rfl, rfl⟩ := Call.send_of_isOpen hopen hput
          have hdone : Parcel.messages done ++ [.chunk p.chunk] = Parcel.messages (done ++ [p]) := by
            simp [Parcel.messages]
          rw [sent_of_items ha rfl, hdone]
          refine ⟨.looking rfl (by rw [hparcels, List.append_assoc]; rfl), fun _ => ?_⟩
          rw [begun, begun, hp]
          rfl
  | through hconcludes =>
      obtain ⟨hsent, hnext, hbegun, hbegun'⟩ := hconcludes.step ha
      rw [hsent, hbegun, hbegun', List.append_nil]
      exact ⟨.through hnext, fun _ => rfl⟩
  | stopped hconcludes hstop hparcels =>
      obtain ⟨hsent, hnext, hbegun, hbegun'⟩ := hconcludes.step ha
      rw [hsent, hbegun, hbegun', List.append_nil]
      exact ⟨.stopped hnext (hcancelled.trans hstop) hparcels, fun _ => rfl⟩

theorem Conveys.meanwhile (hc : Conveys plan c sent) {f : Call → Call}
    (hstop : c.cancelled = true → (f c.toCall).cancelled = true) :
    Conveys plan (c.onCall f) sent := by
  cases hc with
  | looking hp hparcels => exact .looking hp hparcels
  | committed hp hparcels => exact .committed hp hparcels
  | through hconcludes => exact .through hconcludes
  | stopped hconcludes hstopped hparcels => exact .stopped hconcludes (hstop hstopped) hparcels

/-! ### Whole runs -/

theorem Emits.conveys (hrun : Emits σ c more c') (hopen : c.outbox.isOpen = true)
    (hc : Conveys plan c sent) :
    c'.outbox.isOpen = true ∧ Conveys plan c' (sent ++ more) := by
  induction hrun with
  | refl => exact ⟨hopen, by rwa [List.append_nil]⟩
  | step hrun ha ih =>
      obtain ⟨hopen', hc'⟩ := ih
      rw [← List.append_assoc]
      obtain ⟨-, -, hkept, -⟩ := Connection.turn_eq_some ha
      exact ⟨hkept.trans hopen', (hc'.step hopen' ha).1⟩
  | meanwhile f hrun hkept hstop ih =>
      obtain ⟨hopen', hc'⟩ := ih
      exact ⟨hkept hopen', hc'.meanwhile hstop⟩

/-- A run of a call that has been told to stop sends at most the chunk that had been begun. -/
theorem Emits.stops (hrun : Emits σ c more c') (hopen : c.outbox.isOpen = true)
    (hc : Conveys plan c sent) (hstop : c.cancelled = true) :
    c'.cancelled = true ∧ more ++ begun c' = begun c := by
  induction hrun with
  | refl => exact ⟨hstop, rfl⟩
  | step hrun ha ih =>
      obtain ⟨hopen', hc'⟩ := hrun.conveys hopen hc
      obtain ⟨hstopped, hbegun⟩ := ih
      refine ⟨(cancelled_of_advance ha).trans hstopped, ?_⟩
      rw [List.append_assoc, (hc'.step hopen' ha).2 hstopped, hbegun]
  | meanwhile f hrun hkept hstill ih =>
      obtain ⟨hstopped, hbegun⟩ := ih
      exact ⟨hstill hstopped, hbegun⟩

/-! ### What a reply comes to -/

theorem Conveys.concludes (hc : Conveys plan c sent) (hstatus : Concludes c status) :
    (status = Plan.status plan.ending ∧ sent = Parcel.messages plan.parcels) ∨
      ∃ done p rest, plan.parcels = done ++ p :: rest ∧ status = p.stopped.toStatus ∧
        sent = Parcel.messages done ∧ c.cancelled = true := by
  cases hc with
  | looking hp => obtain ⟨_, hp'⟩ | hp' := hstatus <;> cases hp.symm.trans hp'
  | committed hp => obtain ⟨_, hp'⟩ | hp' := hstatus <;> cases hp.symm.trans hp'
  | through hconcludes => exact .inl ⟨hstatus.unique hconcludes, rfl⟩
  | stopped hconcludes hstop hparcels =>
      exact .inr ⟨_, _, _, hparcels, hstatus.unique hconcludes, rfl, hstop⟩

theorem Conveys.isPrefix (hc : Conveys plan c sent) : sent <+: Parcel.messages plan.parcels := by
  cases hc with
  | looking _ hparcels | committed _ hparcels | stopped _ _ hparcels =>
      rw [hparcels]
      exact ⟨_, List.map_append.symm⟩
  | through => exact List.prefix_rfl

theorem exists_advance_of_move {t : Task} {call : Call} {progress : Progress Task}
    (hp : c.progress = .running t) (hm : Move h c.toCall t h' call progress)
    (hless : stepsLeft ⟨call, progress⟩ < t.stage + t.load + 1) :
    ∃ h' c', c.advance service h = some (h', c') ∧ stepsLeft c' < stepsLeft c := by
  obtain ⟨call', progress'⟩ := c
  cases hp
  exact ⟨_, _, advance_of_move hm, hless⟩

theorem Concludes.advances (hc : Concludes c status) (hrunning : c.status? = none) (h : Host σ) :
    ∃ h' c', c.advance service h = some (h', c') ∧ stepsLeft c' < stepsLeft c := by
  obtain ⟨ticket, hp⟩ | hp := hc
  · exact exists_advance_of_move hp .leave (Nat.succ_pos _)
  · rw [Served.status?, hp] at hrunning
    cases hrunning

/-- Unless it has ended, a call can go on as soon as there is room for a message, and every step
leaves less to do. -/
theorem Conveys.advances (hc : Conveys plan c sent) (hrunning : c.status? = none)
    (hopen : c.outbox.isOpen = true) (hroom : c.outbox.isFull = false) (h : Host σ) :
    ∃ h' c', c.advance service h = some (h', c') ∧ stepsLeft c' < stepsLeft c := by
  cases hc with
  | @looking ticket done rest hp hparcels =>
      generalize plan.ending = ending at hp
      cases rest with
      | nil =>
          cases ending with
          | ok u => exact exists_advance_of_move hp .sent (Nat.succ_lt_succ Nat.zero_lt_one)
          | error e => exact exists_advance_of_move hp .cut (Nat.succ_lt_succ Nat.zero_lt_one)
      | cons p rest =>
          cases hb : c.cancelled with
          | true =>
              refine exists_advance_of_move hp (.stop hb) ?_
              exact Nat.succ_lt_succ (Nat.add_pos_left Nat.zero_lt_one _)
          | false =>
              refine exists_advance_of_move hp (.commit hb) ?_
              simp only [stepsLeft, Task.stage, Task.load, List.length_cons]
              omega
  | @committed ticket done rest p hp hparcels =>
      refine exists_advance_of_move hp (.put (Call.send_of_room hopen hroom _)) ?_
      simp only [stepsLeft, Task.ofChunk, Task.stage, Task.load]
      omega
  | through hconcludes | stopped hconcludes => exact hconcludes.advances hrunning h

/-- What has become of a reply when a call has sent some messages. -/
structure CutShort (σ : Type) (m : Metadata) (size : Nat) (k : Computation) (values : k.Values)
    (c : Served Task) (sent : List Message) : Prop where
  /-- They are a beginning of what is sent when nobody tells the call to stop. -/
  beginning : sent <+: (Plan.reply m size k values).chunks.map .chunk
  whole {status : Status} : c.cancelled = false → Concludes c status →
    sent = (Plan.reply m size k values).chunks.map .chunk
  /-- Once the call has been told to stop, no other chunk is begun. -/
  stopped {c' : Served Task} {more : List Message} :
    c.cancelled = true → Emits σ c more c' → more <+: begun c
  /-- When the hook has left all results, a good status stands for all of their pieces, and any other
  one says that the call was told to stop. -/
  verdict {status : Status} : Outcome.AllThere (m.outcomes k.yield values) → Concludes c status →
    (status = .ok ↔
        sent = ((m.outcomes k.yield values).flatMap (Outcome.pieces size)).map .chunk) ∧
      (status ≠ .ok → c.cancelled = true ∧ ∃ text, status = (Error.cancelled text).toStatus)
  /-- The results before the first one with a fault are sent in full, and the hook is blamed. -/
  blame {good rest : List Outcome} {bad : Outcome} {status : Status} :
    m.outcomes k.yield values = good ++ bad :: rest → Outcome.AllThere good →
    (¬ ∃ x, bad.value = some x ∧ x.length = bad.shape.count) → c.cancelled = false →
    Concludes c status →
    sent = (good.flatMap (Outcome.pieces size)).map .chunk ∧
      ∃ text, status = (Error.callback (Hook.compute k).name text).toStatus
  /-- Whoever reads brings the call to its end. -/
  goesOn : c.status? = none → c.outbox.isFull = false → ∀ h : Host σ,
    ∃ h' c', c.advance service h = some (h', c') ∧ stepsLeft c' < stepsLeft c

/-- A host that sends a reply, whenever its call is told to stop. -/
theorem reply_cut_short {m : Metadata} {size : Nat} (hsize : 1 ≤ size) {k : Computation}
    {values : k.Values} {call : Call} (hopen : call.outbox.isOpen = true) {ticket : Option Nat}
    (hrun : Emits σ ⟨call, .running (.sending ticket (.reply m size k values))⟩ sent c) :
    CutShort σ m size k values c sent := by
  have hstart : Conveys (.reply m size k values)
      ⟨call, .running (.sending ticket (.reply m size k values))⟩ (Parcel.messages []) :=
    .looking rfl rfl
  obtain ⟨hreader, hc⟩ := hrun.conveys hopen hstart
  change Conveys _ c sent at hc
  have hsentAll := (Plan.reply m size k values).messages_parcels
  constructor
  case beginning =>
    rw [← hsentAll]
    exact hc.isPrefix
  case whole =>
    intro status hgo hstatus
    obtain ⟨-, hall⟩ | ⟨_, _, _, -, -, -, hstop⟩ := hc.concludes hstatus
    · exact hall.trans hsentAll
    · rw [hgo] at hstop
      cases hstop
  case stopped =>
    intro c' more hstop hmore
    obtain ⟨-, hbegun⟩ := hmore.stops hreader hc hstop
    exact ⟨_, hbegun⟩
  case verdict =>
    intro status hthere hstatus
    obtain ⟨hending, hchunks⟩ := Plan.sends_reply hthere hsize
    rw [← hchunks, ← hsentAll]
    obtain ⟨rfl, rfl⟩ | ⟨done, p, rest, hparcels, rfl, rfl, hstop⟩ := hc.concludes hstatus
    · rw [hending]
      exact ⟨by simp [Plan.status], by simp [Plan.status]⟩
    · refine ⟨iff_of_false (by simp [Parcel.stopped, Error.toStatus, Status.ok, Error.code]) ?_,
        fun _ => ⟨hstop, _, rfl⟩⟩
      rw [hparcels]
      simp [Parcel.messages]
  case blame =>
    intro good rest bad status hsplit hgood hbad hgo hstatus
    obtain ⟨text, hfault⟩ := Outcome.checked_eq_error hbad (.compute k)
    obtain ⟨hchunks, hending⟩ := Outcome.plan_of_fault hsize hgood hfault rest
    rw [← hsplit] at hchunks hending
    obtain ⟨rfl, rfl⟩ | ⟨_, _, _, -, -, -, hstop⟩ := hc.concludes hstatus
    · exact ⟨hsentAll.trans (congrArg _ hchunks), text, congrArg Plan.status hending⟩
    · rw [hgo] at hstop
      cases hstop
  case goesOn =>
    intro hrunning hroom h
    exact hc.advances hrunning hreader hroom h

end Host

end RemoteDiscipline
