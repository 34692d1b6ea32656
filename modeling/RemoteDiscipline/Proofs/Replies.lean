import RemoteDiscipline.Proofs.Beginnings
import RemoteDiscipline.Proofs.Plans
import RemoteDiscipline.Proofs.Requests
/-!
What a host says on the call of a computation, whatever the client sends.

Once a stream has opened the call of a computation, its host either refuses it and leaves the
lifecycle alone, or it runs the hook on some arguments (`Host.Course`). Whatever happens to the
connection, the client finds some of the planned chunks in front of at most one closing frame, and
this is a good one only behind all chunks of a plan that ends well (`Plan.Tells`). The invariant
follows the task (`Host.Conducts`) and the chunks that it has sent (`Delivered`).
-/

namespace RemoteDiscipline

/-! ### What is said of a plan -/

namespace Plan

def ofResult : Except Error Plan → Plan
  | .ok p => p
  | .error e => failed e

def bytes (cs : List Chunk) : List UInt8 :=
  Frame.encodeAll ((cs.map Message.chunk).map Frame.message)

@[simp] theorem bytes_nil : bytes [] = [] := rfl

@[simp] theorem bytes_concat (cs : List Chunk) (c : Chunk) :
    bytes (cs ++ [c]) = bytes cs ++ (Frame.message (.chunk c)).encode := by
  simp [bytes]

/-- What a status behind some chunks tells about a plan: a good one comes only behind all chunks of
a plan that ends well. -/
structure Closes (p : Plan) (said : List Chunk) (status : Status) : Prop where
  planned : said <+: p.chunks
  complete : status.isOk → said = p.chunks ∧ p.ending = .ok ()

theorem closes_of_code {p : Plan} {said : List Chunk} (h : said <+: p.chunks) {status : Status}
    (hs : status.code ≠ .ok) : p.Closes said status :=
  ⟨h, fun hok => absurd hok (Host.not_isOk hs)⟩

/-- What has been written about a plan: some of its chunks, and perhaps a status behind them. -/
def Tells (p : Plan) (written : List UInt8) : Prop :=
  ∃ said, said <+: p.chunks ∧
    (written = bytes said ∨
      ∃ status, p.Closes said status ∧ written = bytes said ++ (Frame.close status).encode)

theorem tells_nil (p : Plan) : p.Tells [] := ⟨[], List.nil_prefix, .inl rfl⟩

/-- Whether a plan that ends in an error reports it as one. -/
def Sincere (p : Plan) : Prop := ∀ e, p.ending = .error e → e.code ≠ .ok

theorem sincere_append {p q : Plan} (hp : p.Sincere) (hq : q.Sincere) : (p.append q).Sincere := by
  unfold append
  split
  · exact hq
  · exact hp

theorem sincere_concat {plans : List Plan} (h : ∀ p ∈ plans, p.Sincere) :
    (concat plans).Sincere := by
  induction plans with
  | nil => nofun
  | cons p plans ih => exact sincere_append (h p (by simp)) (ih fun q hq => h q (by simp [hq]))

theorem sincere_ofVariable (tag : Tag) (v : Variable) (size : Nat) :
    (ofVariable tag v size).Sincere := by
  unfold ofVariable Variable.chunks Chunk.ranges Chunk.count
  split
  · nofun
  · rename_i e he
    rintro e' ⟨⟩
    split at he
    · cases he
      exact nofun
    · cases he

theorem sincere_reply (m : Metadata) (size : Nat) (k : Computation) (values : k.Values) :
    (reply m size k values).Sincere := by
  apply sincere_concat
  simp only [List.mem_map, forall_exists_index, and_imp, forall_apply_eq_imp_iff₂]
  intro o _
  unfold Outcome.plan Outcome.checked
  split
  · exact sincere_ofVariable _ _ _
  · rename_i e he
    rintro e' ⟨⟩
    split at he
    · cases he
      exact nofun
    · split at he
      · cases he
      · cases he
        exact nofun

end Plan

/-! ### The ends of the call -/

def Inbox.Sincere (i : Inbox) : Prop := ∀ e, .error e ∈ i.items → e.code ≠ .ok

theorem Inbox.Sincere.take {i i' : Inbox} {r : Except Error (Option Message)} (h : i.Sincere)
    (ht : i.take = some (r, i')) : i'.Sincere ∧ ∀ e, r = .error e → e.code ≠ .ok := by
  unfold Sincere at h
  unfold Inbox.take at ht
  split at ht
  · rename_i hitems
    cases ht
    exact ⟨fun e he => h e (by simp_all), nofun⟩
  · rename_i hitems
    cases ht
    refine ⟨fun e he => h e (by simp_all), ?_⟩
    rintro e ⟨⟩
    exact h _ (by simp_all)
  · split at ht <;> cases ht
    exact ⟨h, nofun⟩

/-- What has become of the chunks that a task has sent: some are written and the others wait in the
outbox; or nobody reads any more, and the others are lost. -/
inductive Delivered (written : List UInt8) (o : Outbox) : List Chunk → Prop
  | kept {sent waiting : List Chunk} : o.isOpen = true → o.items = waiting.map .chunk →
      written = Plan.bytes sent → Delivered written o (sent ++ waiting)
  | lost {sent rest : List Chunk} : o.isOpen = false → o.items = [] →
      written = Plan.bytes sent → Delivered written o (sent ++ rest)

theorem Delivered.tells {written : List UInt8} {o : Outbox} {said : List Chunk} {p : Plan}
    (h : Delivered written o said) (hplanned : said <+: p.chunks) : p.Tells written := by
  cases h with
  | kept _ _ hwritten | lost _ _ hwritten =>
      exact ⟨_, (List.prefix_append _ _).trans hplanned, .inl hwritten⟩

theorem Delivered.send {written : List UInt8} {said : List Chunk} {c c' : Call} {x : Chunk}
    {r : Except Error Unit} (h : Delivered written c.outbox said)
    (hs : c.send (.chunk x) = some (r, c')) :
    c'.inbox = c.inbox ∧ ((r = .ok () ∧ Delivered written c'.outbox (said ++ [x])) ∨
      ∃ e, r = .error e ∧ e.code ≠ .ok ∧ Delivered written c'.outbox said) := by
  cases h with
  | @kept sent waiting hopen hitems hwritten =>
      obtain ⟨rfl, rfl⟩ := Call.send_of_isOpen hopen hs
      refine ⟨rfl, .inl ⟨rfl, ?_⟩⟩
      rw [List.append_assoc]
      exact .kept hopen (by simp [hitems]) hwritten
  | lost hopen hitems hwritten =>
      obtain ⟨⟨b, outbox⟩, hput, he⟩ := Option.map_eq_some_iff.mp hs
      cases he
      rw [Outbox.put, hopen] at hput
      cases hput
      exact ⟨rfl, .inr ⟨_, rfl, by simp [Error.code], .lost hopen hitems hwritten⟩⟩

namespace Host

variable {σ : Type} {l l' : Lifecycle σ} {k : Computation} {written : List UInt8}

/-! ### The task -/

/-- What has become of a lifecycle on the call of a computation, and what there is to say about it.
-/
inductive Course (l : Lifecycle σ) (k : Computation) : Lifecycle σ → Plan → Prop
  /-- The call is refused, and nothing has happened. -/
  | refused {e : Error} : e.code ≠ .ok → Course l k l (.failed e)
  /-- The hook has run on some arguments. -/
  | evaluated (b : Arguments) : k.servedBy l.kind → l.state = .ready →
      Course l k
        { l with memory := (l.discipline.compute k b (l.metadata.buffers k.yield) l.memory).2 }
        (.ofResult (((l.discipline.compute k b (l.metadata.buffers k.yield) l.memory).1.mapError
          (Fault.toError (.compute k))).map (Plan.reply l.metadata l.chunkSize k)))

theorem Course.sincere {plan : Plan} (h : Course l k l' plan) : plan.Sincere := by
  cases h with
  | refused he =>
      rintro e ⟨⟩
      exact he
  | evaluated b =>
      cases (l.discipline.compute k b (l.metadata.buffers k.yield) l.memory).1 with
      | error f =>
          rintro e ⟨⟩
          exact nofun
      | ok values => exact Plan.sincere_reply l.metadata l.chunkSize k values

/-- How far a task is with the call of a computation that has found the lifecycle `l`: what the
lifecycle is now, and the chunks that the task has sent. -/
inductive Conducts (l : Lifecycle σ) (k : Computation) :
    Lifecycle σ → Progress Task → List Chunk → Prop
  | arrived : Conducts l k l (.running (.arrived (.compute k))) []
  | queued (ticket : Option Nat) : Conducts l k l (.running (.queued k ticket)) []
  | draining (ticket : Option Nat) (a : Arguments) : k.servedBy l.kind → l.state = .ready →
      Conducts l k l
        (.running (.draining k ticket ⟨l.metadata, l.chunkSize, l.generation⟩ a)) []
  | evaluating (ticket : Option Nat) (a : Arguments) : k.servedBy l.kind → l.state = .ready →
      Conducts l k l
        (.running (.evaluating k ticket ⟨l.metadata, l.chunkSize, l.generation⟩ a)) []
  | sending {l' : Lifecycle σ} {plan p : Plan} {said : List Chunk} (ticket : Option Nat) :
      Course l k l' plan → said ++ p.chunks = plan.chunks → p.ending = plan.ending →
      Conducts l k l' (.running (.sending ticket p)) said
  | committed {l' : Lifecycle σ} {plan p : Plan} {said : List Chunk} {c : Chunk}
      (ticket : Option Nat) :
      Course l k l' plan → said ++ c :: p.chunks = plan.chunks → p.ending = plan.ending →
      Conducts l k l' (.running (.committed ticket c p)) said
  | leaving {l' : Lifecycle σ} {plan : Plan} {said : List Chunk} {status : Status}
      (ticket : Option Nat) :
      Course l k l' plan → plan.Closes said status →
      Conducts l k l' (.running (.leaving ticket status)) said
  | ended {l' : Lifecycle σ} {plan : Plan} {said : List Chunk} {status : Status} :
      Course l k l' plan → plan.Closes said status → Conducts l k l' (.ended status) said

theorem Conducts.failing {plan : Plan} {said : List Chunk} {e : Error} (ticket : Option Nat)
    (hcourse : Course l k l' plan) (hplanned : said <+: plan.chunks) (he : e.code ≠ .ok) :
    Conducts l k l' (.running (.failing ticket e)) said :=
  .leaving ticket hcourse (Plan.closes_of_code hplanned he)

theorem Conducts.refused {e : Error} (ticket : Option Nat) (he : e.code ≠ .ok) :
    Conducts l k l (.running (.failing ticket e)) [] :=
  .failing ticket (.refused he) List.nil_prefix he

theorem Conducts.exists_course {progress : Progress Task} {said : List Chunk}
    (h : Conducts l k l' progress said) : ∃ plan, Course l k l' plan ∧ said <+: plan.chunks := by
  cases h with
  | arrived | queued | draining | evaluating =>
      exact ⟨_, .refused (e := .protocol "") nofun, List.nil_prefix⟩
  | sending _ hcourse hchunks => exact ⟨_, hcourse, _, hchunks⟩
  | committed _ hcourse hchunks => exact ⟨_, hcourse, _, hchunks⟩
  | leaving _ hcourse hcloses | ended hcourse hcloses => exact ⟨_, hcourse, hcloses.planned⟩

theorem Conducts.move {h h' : Host σ} {c c' : Call} {t : Task} {progress : Progress Task}
    {said : List Chunk} (hc : Conducts l k h.lifecycle (.running t) said) (hin : c.inbox.Sincere)
    (hout : Delivered written c.outbox said) (hm : Move h c t h' c' progress) :
    c'.inbox.Sincere ∧ ∃ said', Conducts l k h'.lifecycle progress said' ∧
      Delivered written c'.outbox said' := by
  generalize hnow : h.lifecycle = now at hc
  cases hc with
  | arrived =>
      cases hm with
      | letIn =>
          refine ⟨hin, [], ?_, hout⟩
          rw [lifecycle_letIn, hnow]
          obtain ⟨e, he, hcode⟩ | ⟨n, hn, -⟩ | ⟨k', ticket, hk, ht⟩ := h.letIn_cases (.compute k)
          · rw [he]
            exact .refused none hcode
          · cases hn
          · cases hk
            rw [ht]
            exact .queued ticket
  | queued ticket =>
      cases hm with
      | start hturn hs =>
          obtain ⟨hserved, hready, rfl⟩ := snapshot_eq_ok_iff.mp hs
          rw [hnow] at hserved hready ⊢
          exact ⟨hin, [], .draining ticket _ hserved hready, hout⟩
      | refuse hturn hs =>
          exact ⟨hin, [], hnow ▸ .refused ticket (code_ne_ok_of_snapshot hs), hout⟩
  | draining ticket a hserved hready =>
      cases hm with
      | drain hr =>
          obtain ⟨inbox, ht, rfl⟩ := Call.receive_eq_some hr
          obtain ⟨hin', herror⟩ := hin.take ht
          refine ⟨hin', [], ?_, hout⟩
          rw [hnow]
          unfold Task.ofArgument
          split
          · exact .evaluating ticket a hserved hready
          · split
            · exact .draining ticket _ hserved hready
            · rename_i hx
              exact .refused ticket (code_ne_ok_of_receive hx)
          · exact .refused ticket (herror _ rfl)
  | evaluating ticket a hserved hready =>
      have hcurrent : h.requireCurrent ⟨l.metadata, l.chunkSize, l.generation⟩ = .ok () := by
        simp [requireCurrent, Lifecycle.requireReady, hnow, hready]
      have heval := evaluate_of_ok hcurrent k a
      rw [hnow] at heval
      have hcourse := Course.evaluated a hserved hready
      cases hm with
      | evaluate hplan =>
          rw [heval, Prod.mk.injEq] at hplan
          obtain ⟨hresult, rfl⟩ := hplan
          rw [hresult] at hcourse
          exact ⟨hin, [], .sending ticket hcourse rfl rfl, hout⟩
      | abort hplan =>
          rw [heval, Prod.mk.injEq] at hplan
          obtain ⟨hresult, rfl⟩ := hplan
          rw [hresult] at hcourse
          exact ⟨hin, [], .failing ticket hcourse List.nil_prefix (hcourse.sincere _ rfl), hout⟩
  | sending ticket hcourse hchunks hending =>
      cases hm with
      | sent =>
          have hsaid := (List.append_nil said).symm.trans hchunks
          refine ⟨hin, said, hnow ▸ .leaving ticket hcourse ?_, hout⟩
          exact ⟨⟨[], hchunks⟩, fun _ => ⟨hsaid, hending.symm⟩⟩
      | cut =>
          exact ⟨hin, said, hnow ▸ .failing ticket hcourse ⟨[], hchunks⟩
            (hcourse.sincere _ hending.symm), hout⟩
      | stop => exact ⟨hin, said, hnow ▸ .failing ticket hcourse ⟨_, hchunks⟩
          (by simp [Parcel.stopped, Error.code]), hout⟩
      | commit => exact ⟨hin, said, hnow ▸ .committed ticket hcourse hchunks hending, hout⟩
  | committed ticket hcourse hchunks hending =>
      cases hm with
      | put hsend =>
          obtain ⟨hinbox, ⟨rfl, hout'⟩ | ⟨e, rfl, he, hout'⟩⟩ := hout.send hsend
          · refine ⟨hinbox ▸ hin, _, hnow ▸ .sending ticket hcourse ?_ hending, hout'⟩
            rw [List.append_assoc]
            exact hchunks
          · exact ⟨hinbox ▸ hin, said, hnow ▸ .failing ticket hcourse ⟨_, hchunks⟩ he, hout'⟩
  | leaving ticket hcourse hcloses =>
      cases hm with
      | leave =>
          refine ⟨hin, said, ?_, hout⟩
          rw [lifecycle_release, hnow]
          exact .ended hcourse hcloses

/-! ### The connection -/

section Connection

variable {arrived taken more rest : List UInt8} {w w' : Host σ} {c c' : Connection Task}
  {timeout : Nat}

def ReaderSincere (r : Reader) : Prop := ∀ e, r = .failing e → e.code ≠ .ok

theorem sincere_readStep {reader reader' : Reader} {call call' : Served Task}
    (hreader : ReaderSincere reader) (hin : call.inbox.Sincere)
    (h : c.readStep reader call = some (reader', call', rest)) :
    ReaderSincere reader' ∧ call'.inbox.Sincere := by
  cases reader with
  | reading =>
      obtain ⟨⟨heard, rest'⟩, hh, he⟩ := Option.map_eq_some_iff.mp h
      obtain ⟨x, rfl, -⟩ | ⟨rfl, -⟩ | ⟨e, rfl, hcode⟩ := hear_cases hh
      · cases he
        exact ⟨by simp [ReaderSincere], hin⟩
      · cases he
        exact ⟨by simp [ReaderSincere], hin⟩
      · cases he
        exact ⟨fun e' he' => by cases he'; exact hcode, hin⟩
  | holding x =>
      simp only [Connection.readStep] at h
      split at h
      · cases h
        exact ⟨by simp [ReaderSincere], hin⟩
      · split at h <;> cases h
        refine ⟨by simp [ReaderSincere], fun e he => hin e ?_⟩
        simpa [Served.onCall, Call.feed, Inbox.add] using he
  | failing e =>
      simp only [Connection.readStep] at h
      split at h
      · cases h
        exact ⟨by simp [ReaderSincere], hin⟩
      · split at h <;> cases h
        refine ⟨by simp [ReaderSincere], fun e' he' => ?_⟩
        obtain hold | hnew : .error e' ∈ call.inbox.items ∨ e' = e := by
          simpa [Served.onCall, Call.feed, Call.halfClose, Inbox.add, Inbox.close] using he'
        · exact hin e' hold
        · exact hnew ▸ hreader e rfl
  | draining =>
      obtain ⟨⟨heard, rest'⟩, -, he⟩ := Option.map_eq_some_iff.mp h
      cases heard <;> cases he <;> exact ⟨by simp [ReaderSincere], hin⟩
  | stopped => cases h

/-- A connection on which a computation has been called, when the lifecycle was `l`. -/
inductive Conversing (l : Lifecycle σ) (k : Computation) (arrived taken : List UInt8) (w : Host σ)
    (c : Connection Task) : Prop
  | opening : c.phase = .opening → w.lifecycle = l → c.input = arrived → c.written taken = [] →
      Conversing l k arrived taken w c
  | serving {reader : Reader} {call : Served Task} {deadline : Option Deadline}
      {said : List Chunk} :
      c.phase = .serving reader call deadline → ReaderSincere reader → call.inbox.Sincere →
      Conducts l k w.lifecycle call.progress said → Delivered (c.written taken) call.outbox said →
      Conversing l k arrived taken w c
  | finished {plan : Plan} : c.isEnded → Course l k w.lifecycle plan →
      plan.Tells (c.written taken) → Conversing l k arrived taken w c

theorem conversing_openCall {now : Nat}
    (hbegins : arrived ++ more =
      (Frame.opening protocolVersion (.compute k) timeout).encode ++ rest)
    (hfits : Wire.FitsSize timeout) (hw : w.lifecycle = l) (hinput : c.input = arrived)
    (hwritten : c.written taken = [])
    (h : c.openCall (service : Service (Host σ) Task) now = some c') :
    Conversing l k arrived taken w c' := by
  have hclosed : Course l k w.lifecycle (.failed (.protocol "")) := hw ▸ .refused nofun
  have hfits' : (Frame.opening protocolVersion (.compute k) timeout).Fits := ⟨by decide, hfits⟩
  cases Connection.opened_of_openCall h with
  | ended hread | unreadable hread =>
      exact .finished rfl hclosed (hwritten.symm ▸ Plan.tells_nil _)
  | served deadline hread =>
      rw [hinput] at hread
      cases (Frame.eq_of_read hfits' hread hbegins).1
      have hdelivered : Delivered (c.written taken)
          (Call.fresh (.compute k) c.limits.channelCapacity true).outbox ([] ++ []) :=
        .kept rfl rfl hwritten
      exact .serving rfl nofun nofun (hw ▸ .arrived) hdelivered
  | unspoken hread hversion =>
      rw [hinput] at hread
      cases (Frame.eq_of_read hfits' hread hbegins).1
      exact absurd rfl hversion
  | unexpected hread hother =>
      rw [hinput] at hread
      exact absurd (Frame.eq_of_read hfits' hread hbegins).1 (hother _ _ _)

theorem conversing_writeStep {waiting : Option Nat} {reader : Reader} {call : Served Task}
    {deadline : Option Deadline} {said : List Chunk} (hreader : ReaderSincere reader)
    (hin : call.inbox.Sincere) (hconducts : Conducts l k w.lifecycle call.progress said)
    (hout : Delivered (c.written taken) call.outbox said)
    (h : c.writeStep waiting reader call deadline = some c') :
    Conversing l k arrived taken w c' := by
  have closes {status : Status} (hp : call.progress = .ended status) :
      ∃ plan, Course l k w.lifecycle plan ∧ plan.Closes said status := by
    rw [hp] at hconducts
    cases hconducts with
    | ended hcourse hcloses => exact ⟨_, hcourse, hcloses⟩
  cases Connection.wrote_of_writeStep h with
  | dropped hitems hgone =>
      refine .serving rfl hreader hin hconducts ?_
      cases hout with
      | kept hopen hwaiting hwritten => exact .lost rfl rfl hwritten
      | lost hopen hnone hwritten => exact .lost rfl rfl hwritten
  | @message m items hitems hthere =>
      refine .serving rfl hreader hin hconducts ?_
      cases hout with
      | @kept sent waiting hopen hwaiting hwritten =>
          cases waiting with
          | nil => simp [hwaiting] at hitems
          | cons x waiting =>
              obtain ⟨rfl, rfl⟩ : Message.chunk x = m ∧ waiting.map .chunk = items := by
                simpa [hwaiting] using hitems
              rw [List.append_cons]
              refine .kept hopen rfl ?_
              show (c.write _).written taken = _
              rw [Connection.written_write_of_isRefused hthere, hwritten, Plan.bytes_concat]
      | lost hopen hnone hwritten => simp [hnone] at hitems
  | left hitems hp =>
      obtain ⟨plan, hcourse, hcloses⟩ := closes hp
      exact .finished rfl hcourse (hout.tells hcloses.planned)
  | @closed status hitems hp hthere hopen =>
      obtain ⟨plan, hcourse, hcloses⟩ := closes hp
      refine .finished rfl hcourse ?_
      cases hout with
      | @kept sent waiting hopen hwaiting hwritten =>
          obtain rfl : waiting = [] := by simpa [hwaiting] using hitems
          rw [List.append_nil] at hcloses
          refine ⟨sent, hcloses.planned, .inr ⟨status, hcloses, ?_⟩⟩
          show (c.write _).written taken = _
          rw [Connection.written_write_of_isRefused hthere, hwritten]
      | lost hclosed => simp [hopen] at hclosed

/-- Every step of the connection goes on with the conversation. -/
theorem conversing_step {now : Nat} {waiting : Option Nat}
    (hbegins : arrived ++ more =
      (Frame.opening protocolVersion (.compute k) timeout).encode ++ rest)
    (hfits : Wire.FitsSize timeout) (hc : Conversing l k arrived taken w c)
    (hstep : c.step service now waiting w = some (w', c')) :
    Conversing l k arrived taken w' c' := by
  cases hc with
  | opening hphase hw hinput hwritten =>
      simp only [Connection.step, hphase] at hstep
      obtain ⟨c₁, ho, he⟩ := Option.map_eq_some_iff.mp hstep
      cases he
      exact conversing_openCall hbegins hfits hw hinput hwritten ho
  | serving hphase hreader hin hconducts hout =>
      simp only [Connection.step, hphase] at hstep
      split at hstep
      · rename_i hr
        cases hstep
        obtain ⟨hprogress, houtbox, -⟩ := Connection.readStep_eq_some hr
        obtain ⟨hreader', hin'⟩ := sincere_readStep hreader hin hr
        exact .serving rfl hreader' hin' (hprogress ▸ hconducts) (houtbox ▸ hout)
      · split at hstep
        · rename_i ha
          cases hstep
          obtain ⟨t, ht, hm⟩ := move_of_advance ha
          rw [ht] at hconducts
          obtain ⟨hin', said', hconducts', hout'⟩ := hconducts.move hin hout hm
          exact .serving rfl hreader hin' hconducts' hout'
        · obtain ⟨c₁, hw, he⟩ := Option.map_eq_some_iff.mp hstep
          cases he
          exact conversing_writeStep hreader hin hconducts hout hw
  | finished hended hcourse htells =>
      unfold Connection.step at hstep
      unfold Connection.isEnded at hended
      split at hstep <;> simp_all

/-! ### Events from outside -/

theorem Conversing.arrive (h : Conversing l k arrived taken w c) (bytes : List UInt8) :
    Conversing l k (arrived ++ bytes) taken w (c.arrive bytes) := by
  cases h with
  | opening hphase hw hinput hwritten =>
      refine .opening hphase hw ?_ hwritten
      rw [← hinput]
      rfl
  | serving hphase hreader hin hconducts hout => exact .serving hphase hreader hin hconducts hout
  | finished hended hcourse htells => exact .finished hended hcourse htells

theorem Conversing.congr (h : Conversing l k arrived taken w c) {taken' : List UInt8}
    (hphase : c'.phase = c.phase) (hinput : c'.input = c.input)
    (hwritten : c'.written taken' = c.written taken) : Conversing l k arrived taken' w c' := by
  cases h with
  | opening hp hw hi hn => exact .opening (hphase.trans hp) hw (hinput.trans hi) (hwritten.trans hn)
  | serving hp hreader hin hconducts hout =>
      exact .serving (hphase.trans hp) hreader hin hconducts (hwritten.symm ▸ hout)
  | finished hended hcourse htells =>
      refine .finished ?_ hcourse (hwritten.symm ▸ htells)
      rw [Connection.isEnded, hphase]
      exact hended

theorem Conversing.expire (h : Conversing l k arrived taken w c) :
    Conversing l k arrived taken (c.expire service w).1 (c.expire service w).2 := by
  unfold Connection.expire
  split
  · rename_i hphase
    cases h with
    | opening hp => simp [hp] at hphase
    | serving hp hreader hin hconducts hout =>
        rw [hp] at hphase
        cases hphase
        obtain ⟨plan, hcourse, hplanned⟩ := hconducts.exists_course
        refine .serving rfl hreader hin ?_ hout
        show Conducts l k (w.release _).lifecycle _ _
        rw [lifecycle_release]
        exact .ended hcourse (Plan.closes_of_code hplanned nofun)
    | finished hended =>
        rw [Connection.isEnded, hphase] at hended
        cases hended
  · exact h

/-- However a connection is scheduled, and whatever arrives on it behind the opening frame of a
computation: the call is refused and leaves the lifecycle alone, or the hook has run on some
arguments; and what has been written tells about the reply to this. -/
theorem exists_course_of_run {limits : Limits} {w₀ : Host σ}
    (hrun : Connection.Run service limits w₀ arrived taken w c)
    (hbegins : arrived ++ more =
      (Frame.opening protocolVersion (.compute k) timeout).encode ++ rest)
    (hfits : Wire.FitsSize timeout) :
    ∃ plan, Course w₀.lifecycle k w.lifecycle plan ∧ plan.Tells (c.written taken) := by
  have hconversing : Conversing w₀.lifecycle k arrived taken w c := by
    induction hrun generalizing more with
    | fresh => exact .opening rfl rfl rfl rfl
    | step _ hstep ih => exact conversing_step hbegins hfits (ih hbegins) hstep
    | expire _ ih => exact (ih hbegins).expire
    | arrive bytes _ ih =>
        rw [List.append_assoc] at hbegins
        exact (ih hbegins).arrive bytes
    | endInput _ ih | hangUp _ ih => exact (ih hbegins).congr rfl rfl rfl
    | takeOutput _ ih => exact (ih hbegins).congr rfl rfl Connection.written_takeOutput
  cases hconversing with
  | opening _ hw _ hwritten =>
      rw [hw, hwritten]
      exact ⟨_, .refused (e := .protocol "") nofun, Plan.tells_nil _⟩
  | serving _ _ _ hconducts hout =>
      obtain ⟨plan, hcourse, hplanned⟩ := hconducts.exists_course
      exact ⟨plan, hcourse, hout.tells hplanned⟩
  | finished _ hcourse htells => exact ⟨_, hcourse, htells⟩

end Connection

end Host

end RemoteDiscipline
