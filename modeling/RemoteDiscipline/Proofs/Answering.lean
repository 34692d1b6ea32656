import RemoteDiscipline.Connection.Settle
import RemoteDiscipline.Proofs.Errands
import RemoteDiscipline.Proofs.Serving
/-!
How a connection carries out an errand.

A connection that serves an errand goes through its opening, the arrival of the request and the reply,
and `Errand.Along` says what stands on the stream meanwhile. Every step keeps this, and a connection
that makes no more steps waits for bytes that are still to come, or has answered with the whole reply
(`Errand.Along.settle`).
-/

namespace RemoteDiscipline

namespace Errand

variable {σ : Type}

/-- A connection that serves an errand, when `more` bytes of the request are still to come. -/
inductive Along (e : Errand σ) (timeout : Nat) (more : List UInt8) :
    Host σ → Connection Host.Task → Prop
  | opening {c : Connection Host.Task} :
      c.phase = .opening → c.output = [] →
      c.input ++ more = Frame.encodeAll (e.request timeout) → Along e timeout more e.host c
  | asking {w : Host σ} {c : Connection Host.Task} {reader : Reader} {call : Served Host.Task}
      {deadline : Option Deadline} {t : Host.Task} {taken : List Message} :
      c.phase = .serving reader call deadline → call.progress = .running t →
      call.Attended → e.Asking taken w t →
      Arriving e more taken reader call.inbox c.input → call.outbox.items = [] → c.output = [] →
      Along e timeout more w c
  | answering {w : Host σ} {c : Connection Host.Task} {call : Served Host.Task}
      {deadline : Option Deadline} {said : List Message} (written : List Message) :
      c.phase = .serving .draining call deadline → more = [] → c.input = [] →
      call.Attended → e.Answering said w call.progress →
      said = written ++ call.outbox.items →
      c.output.reverse.flatten = Frame.encodeAll (written.map .message) →
      Along e timeout more w c
  /-- A message of the reply was too long to be written. -/
  | unheard {w : Host σ} {c : Connection Host.Task} {call : Served Host.Task}
      {deadline : Option Deadline} :
      c.phase = .serving .draining call deadline → more = [] → c.input = [] →
      e.Concluding w call.progress → call.outbox.isOpen = false → call.outbox.items = [] →
      ¬ (∀ f ∈ e.reply, f.isAnnounceable = true) → Along e timeout more w c
  | answered {c : Connection Host.Task} :
      c.phase = .lingering → more = [] →
      ((∀ f ∈ e.reply, f.isAnnounceable = true) →
        c.output.reverse.flatten = Frame.encodeAll e.reply) →
      Along e timeout more e.left c

structure Connected (limits : Limits) (c : Connection Host.Task) : Prop where
  limits : c.limits = limits
  inputEnded : c.inputEnded = false
  abandoned : c.abandoned = false

structure Passes (e : Errand σ) (timeout : Nat) (limits : Limits) : Prop where
  room : 1 ≤ limits.channelCapacity
  travels : ∀ f ∈ e.request timeout, f.Travels limits.maxFrameBytes

/-! ### Steps of the connection -/

section Steps

variable {e : Errand σ} {timeout now : Nat} {limits : Limits} {more : List UInt8}
  {taken : List Message} {reader : Reader} {call : Served Host.Task} {deadline : Option Deadline}
  {waiting : Option Nat} {w : Host σ} {c : Connection Host.Task}

theorem hear_request {rest : List Message} (hc : Connected limits c)
    (hfits : ∀ f ∈ rest.map Frame.message ++ [.halfClose], f.Travels limits.maxFrameBytes)
    (hb : c.input ++ more = Frame.encodeAll (rest.map .message ++ [.halfClose])) :
    (c.hear = none ∧ more ≠ []) ∨
      (∃ x rest' input, rest = x :: rest' ∧ c.hear = some (.message x, input) ∧
          input ++ more = Frame.encodeAll (rest'.map .message ++ [.halfClose])) ∨
        (rest = [] ∧ c.hear = some (.halfClose, []) ∧ more = []) := by
  cases rest with
  | nil =>
      obtain ⟨hread, hmore⟩ | ⟨rest', hread, hrest⟩ := Frame.read_arriving (hfits _ (by simp)) hb
      · left
        rw [Connection.hear, hc.limits, hc.inputEnded, hread]
        exact ⟨rfl, hmore⟩
      · right; right
        obtain ⟨rfl, rfl⟩ := List.append_eq_nil_iff.mp hrest
        rw [Connection.hear, hc.limits, hc.inputEnded, hread]
        exact ⟨rfl, rfl, rfl⟩
  | cons x rest =>
      obtain ⟨hread, hmore⟩ | ⟨rest', hread, hrest⟩ := Frame.read_arriving (hfits _ (by simp)) hb
      · left
        rw [Connection.hear, hc.limits, hc.inputEnded, hread]
        exact ⟨rfl, hmore⟩
      · right; left
        rw [Connection.hear, hc.limits, hc.inputEnded, hread]
        exact ⟨x, rest, rest', rfl, rfl, hrest⟩

/-- The reader goes on with a request, unless it has to wait for more bytes or for the task. -/
theorem Arriving.readStep (hp : e.Passes timeout limits) (hc : Connected limits c) {t : Host.Task}
    (hrun : call.progress = .running t)
    (h : Arriving e more taken reader call.inbox c.input) :
    (∃ reader' inbox rest, c.readStep reader call =
          some (reader', call.onCall fun k => { k with inbox := inbox }, rest) ∧
        Arriving e more taken reader' inbox rest) ∨
      (c.readStep reader call = none ∧
        (reader = .reading ∧ more ≠ [] ∨ ∃ r, call.inbox.take = some r)) := by
  have hlistening : Connection.isListening call = true := by
    rw [Connection.isListening, Served.status?, hrun]
    rfl
  generalize hinbox : call.inbox = inbox at h
  generalize hinput : c.input = input at h
  have hsame : (call.onCall fun k => { k with inbox := inbox }) = call := by
    rw [← hinbox]
    rfl
  cases h with
  | reading pending rest hm hb =>
      have hfits : ∀ f ∈ rest.map Frame.message ++ [.halfClose],
          f.Travels limits.maxFrameBytes := by
        intro f hf
        apply hp.travels
        rw [request, hm]
        simp only [List.mem_append, List.mem_map, List.mem_singleton] at hf
        obtain ⟨x, hx, rfl⟩ | rfl := hf
        · simp [hx]
        · simp
      rw [← hinput] at hb
      obtain ⟨hhear, hmore⟩ | ⟨x, rest', input', rfl, hhear, hb'⟩ | ⟨rfl, hhear, hmore⟩ :=
        hear_request hc hfits hb
      · refine .inr ⟨?_, .inl ⟨rfl, hmore⟩⟩
        rw [Connection.readStep, hhear]
        rfl
      · refine .inl ⟨.holding x, _, input', ?_, .holding pending rest' hm hb'⟩
        rw [Connection.readStep, hhear, hsame]
        rfl
      · refine .inl ⟨.draining, _, [], ?_, .complete pending (by rw [hm, List.append_nil]) hmore⟩
        rw [Connection.readStep, hhear, Served.onCall, Call.halfClose, hinbox]
        rfl
  | @holding pending rest x input hm hb =>
      by_cases hroom : c.hasRoom call
      · refine .inl ⟨.reading, _, input, ?_, .reading (pending ++ [x]) rest ?_ hb⟩
        · rw [Connection.readStep, hlistening, hroom, Served.onCall, Call.feed, Inbox.add, hinbox,
            hinput, List.map_append]
          rfl
        · rw [hm]
          simp
      · refine .inr ⟨?_, .inr ?_⟩
        · simp [Connection.readStep, hlistening, hroom]
        · cases pending with
          | nil =>
              -- An empty inbox has room.
              exfalso
              apply hroom
              have := hp.room
              simp only [Connection.hasRoom, Served.unread, hinbox, hc.limits, List.map_nil,
                List.length_nil, decide_eq_true_eq]
              omega
          | cons y pending => exact ⟨_, rfl⟩
  | complete pending hm hmore =>
      refine .inr ⟨?_, .inr ?_⟩
      · rw [Connection.readStep, Connection.hear, hinput, hc.inputEnded]
        rfl
      · cases pending with
        | nil => exact ⟨_, rfl⟩
        | cons y pending => exact ⟨_, rfl⟩

/-- A connection that waits for more of a request: it takes all that comes, and has said nothing. -/
structure Paused (c : Connection Host.Task) : Prop where
  isTaking : c.isTaking = true
  isOpen : c.isEnded = false
  output : c.output = []

/-- A connection on which the whole reply stands, unless some of it is too long to be written, and the
world that the call has left. -/
structure Answered (e : Errand σ) (w : Host σ) (c : Connection Host.Task) : Prop where
  phase : c.phase = .lingering
  output : (∀ f ∈ e.reply, f.isAnnounceable = true) →
    c.output.reverse.flatten = Frame.encodeAll e.reply
  world : w = e.left

inductive Next (e : Errand σ) (timeout : Nat) (limits : Limits) (more : List UInt8) (w : Host σ)
    (c : Connection Host.Task) : Option (Host σ × Connection Host.Task) → Prop
  | on {w' : Host σ} {c' : Connection Host.Task} :
      Along e timeout more w' c' → Connected limits c' → Next e timeout limits more w c (some (w', c'))
  | paused : more ≠ [] → Paused c → Next e timeout limits more w c none
  | answered : more = [] → Answered e w c → Next e timeout limits more w c none

theorem next_opening (hp : e.Passes timeout limits) (hc : Connected limits c)
    (hphase : c.phase = .opening) (houtput : c.output = [])
    (hb : c.input ++ more = Frame.encodeAll (e.request timeout)) :
    Next e timeout limits more e.host c (c.step Host.service now waiting e.host) := by
  rw [Connection.step, hphase]
  dsimp only
  obtain ⟨hread, hmore⟩ | ⟨rest, hread, hrest⟩ :=
    Frame.read_arriving (hp.travels _ (by simp [request])) hb
  · have hopen : c.openCall (Host.service : Service (Host σ) Host.Task) now = none := by
      rw [Connection.openCall, hc.limits, hc.inputEnded, hread]
    rw [hopen]
    refine .paused hmore ⟨?_, ?_, houtput⟩
    · rw [Connection.isTaking, hphase]
    · rw [Connection.isEnded, hphase]
  · obtain ⟨deadline, hopen⟩ : ∃ deadline,
        c.openCall (Host.service : Service (Host σ) Host.Task) now = some { c with
          input := rest
          phase := .serving .reading (Served.begin (Host.service : Service (Host σ) Host.Task)
            (.fresh e.method limits.channelCapacity true)) deadline } := by
      rw [Connection.openCall, hc.limits, hc.inputEnded, hread]
      exact ⟨_, rfl⟩
    rw [hopen]
    refine .on (.asking rfl rfl ⟨rfl, rfl, ?_⟩ e.arrived ?_ rfl houtput)
      ⟨hc.limits, hc.inputEnded, hc.abandoned⟩
    · exact ⟨max 1 limits.channelCapacity - 1, congrArg some (by omega)⟩
    · exact .reading [] e.messages rfl hrest

theorem next_asking (hp : e.Passes timeout limits) (hc : Connected limits c)
    {t : Host.Task} (hphase : c.phase = .serving reader call deadline)
    (hrun : call.progress = .running t) (hattended : call.Attended)
    (htask : e.Asking taken w t) (hin : Arriving e more taken reader call.inbox c.input)
    (hitems : call.outbox.items = []) (houtput : c.output = []) :
    Next e timeout limits more w c (c.step Host.service now waiting w) := by
  rw [Connection.step, hphase]
  dsimp only
  obtain ⟨reader', inbox, rest, hread, hin'⟩ | ⟨hread, hwaits⟩ := hin.readStep hp hc hrun
  · rw [hread]
    exact .on (.asking rfl hrun ⟨hattended.cancelled, hattended.isOpen, hattended.capacity⟩ htask
      hin' hitems houtput) ⟨hc.limits, hc.inputEnded, hc.abandoned⟩
  · rw [hread]
    dsimp only
    cases hadvance : call.advance Host.service w with
    | some r =>
        obtain ⟨w', call'⟩ := r
        obtain ⟨t', ht', hmove⟩ := Host.move_of_advance hadvance
        rw [hrun] at ht'
        cases ht'
        obtain ⟨⟨inbox, hcall⟩, hafter⟩ := move_of_asking htask hin hmove
        have hattended' : call'.Attended := by
          rw [hcall]
          exact ⟨hattended.cancelled, hattended.isOpen, hattended.capacity⟩
        have hitems' : call'.outbox.items = [] := by
          rw [hcall]
          exact hitems
        refine .on ?_ ⟨hc.limits, hc.inputEnded, hc.abandoned⟩
        obtain ⟨t', taken', ht', htask', hin'⟩ | ⟨htask', rfl, hmore, hinput⟩ := hafter
        · exact .asking rfl ht' hattended' htask' hin' hitems' houtput
        · exact .answering [] rfl hmore hinput hattended' htask'
            (by rw [hitems']; rfl) (by rw [houtput]; rfl)
    | none =>
        obtain ⟨rfl, hmore⟩ | ⟨r, htake⟩ := hwaits
        · have hwrite : c.writeStep waiting .reading call deadline = none := by
            rw [Connection.writeStep, hitems, hrun]
          dsimp only
          rw [hwrite]
          refine .paused hmore ⟨?_, ?_, houtput⟩
          · rw [Connection.isTaking, hphase]
          · rw [Connection.isEnded, hphase]
        · obtain ⟨w', call', progress, hmove⟩ := e.exists_ask htask htake
          have := Host.advance_of_move hmove
          rw [← hrun, hadvance] at this
          cases this

theorem next_answering (hc : Connected limits c) {said written : List Message}
    (hphase : c.phase = .serving .draining call deadline) (hmore : more = [])
    (hinput : c.input = []) (hattended : call.Attended)
    (htask : e.Answering said w call.progress) (hsaid : said = written ++ call.outbox.items)
    (houtput : c.output.reverse.flatten = Frame.encodeAll (written.map .message)) :
    Next e timeout limits more w c (c.step Host.service now none w) := by
  have hread : c.readStep .draining call = none := by
    rw [Connection.readStep, Connection.hear, hinput, hc.inputEnded]
    rfl
  rw [Connection.step, hphase]
  dsimp only
  rw [hread]
  dsimp only
  cases hadvance : call.advance Host.service w with
  | some r =>
      obtain ⟨w', call'⟩ := r
      obtain ⟨t, ht, hmove⟩ := Host.move_of_advance hadvance
      rw [ht] at htask
      obtain ⟨new, htask', hattended', hitems'⟩ := e.answer htask hattended hmove
      refine .on (.answering written rfl hmore hinput hattended' htask' ?_ houtput)
        ⟨hc.limits, hc.inputEnded, hc.abandoned⟩
      rw [hsaid, hitems', List.append_assoc]
  | none =>
      dsimp only
      rw [Connection.writeStep]
      cases hitems : call.outbox.items with
      | cons x rest =>
          dsimp only
          cases hshort : (Frame.message x).isAnnounceable with
          | true =>
              have hwritten : (c.write (.message x)).output =
                  (Frame.message x).encode :: c.output := by
                rw [Connection.write, Frame.pack_of_isAnnounceable hshort]
              rw [Connection.isRefused_eq_false.mpr ⟨hc.abandoned, hshort⟩]
              refine .on (.answering (written ++ [x]) rfl hmore hinput
                ⟨hattended.cancelled, hattended.isOpen, hattended.capacity⟩ htask ?_ ?_)
                ⟨hc.limits, hc.inputEnded, hc.abandoned⟩
              · rw [hsaid, hitems]
                simp
              · show (c.write (.message x)).output.reverse.flatten = _
                simp [hwritten, houtput]
          | false =>
              rw [show c.isRefused (.message x) = true by simp [Connection.isRefused, hshort]]
              have hx : x ∈ said := by simp [hsaid, hitems]
              refine .on (.unheard rfl hmore hinput (e.concluding htask (List.ne_nil_of_mem hx)) rfl
                rfl fun hall => ?_) ⟨hc.limits, hc.inputEnded, hc.abandoned⟩
              have hmember : Frame.message x ∈ e.reply := by simp [reply, e.mem_replies htask hx]
              simp [hall _ hmember] at hshort
      | nil =>
          cases hprogress : call.progress with
          | running t =>
              -- With an empty outbox the task could have gone on.
              rw [hprogress] at htask
              obtain ⟨w', call', progress, hmove⟩ := e.exists_answer htask hattended hitems
              have := Host.advance_of_move hmove
              rw [← hprogress, hadvance] at this
              cases this
          | ended status =>
              rw [hprogress] at htask
              obtain ⟨hreplies, rfl, rfl⟩ := e.answered htask
              cases hshort : (Frame.close e.status).isAnnounceable with
              | true =>
                  have hwritten : (c.write (.close e.status)).output =
                      (Frame.close e.status).encode :: c.output := by
                    rw [Connection.write, Frame.pack_of_isAnnounceable hshort]
                  dsimp only
                  rw [Connection.isRefused_eq_false.mpr ⟨hc.abandoned, hshort⟩, hattended.isOpen]
                  refine .on (.answered rfl hmore fun _ => ?_)
                    ⟨hc.limits, hc.inputEnded, hc.abandoned⟩
                  show (c.write (.close e.status)).output.reverse.flatten = _
                  rw [hitems, List.append_nil] at hsaid
                  rw [hwritten, List.reverse_cons, List.flatten_append, houtput, ← hsaid, hreplies,
                    reply, Frame.encodeAll_append]
                  rfl
              | false =>
                  dsimp only
                  rw [show c.isRefused (.close e.status) = true by
                    simp [Connection.isRefused, hshort]]
                  refine .on (.answered rfl hmore fun hall => ?_)
                    ⟨hc.limits, hc.inputEnded, hc.abandoned⟩
                  simp [hall (.close e.status) (by simp [reply])] at hshort

/-- A step of a call that nobody listens to any more. -/
theorem next_unheard (hc : Connected limits c)
    (hphase : c.phase = .serving .draining call deadline) (hmore : more = [])
    (hinput : c.input = []) (htask : e.Concluding w call.progress)
    (hclosed : call.outbox.isOpen = false) (hitems : call.outbox.items = [])
    (hlong : ¬ ∀ f ∈ e.reply, f.isAnnounceable = true) :
    Next e timeout limits more w c (c.step Host.service now waiting w) := by
  have hread : c.readStep .draining call = none := by
    rw [Connection.readStep, Connection.hear, hinput, hc.inputEnded]
    rfl
  rw [Connection.step, hphase]
  dsimp only
  rw [hread]
  dsimp only
  cases hadvance : call.advance Host.service w with
  | some r =>
      obtain ⟨w', call'⟩ := r
      obtain ⟨t, ht, hmove⟩ := Host.move_of_advance hadvance
      rw [ht] at htask
      obtain ⟨htask', hsame⟩ := e.conclude htask hclosed hmove
      refine .on (.unheard rfl hmore hinput htask' ?_ ?_ hlong)
        ⟨hc.limits, hc.inputEnded, hc.abandoned⟩
      · rw [hsame, hclosed]
      · rw [hsame, hitems]
  | none =>
      dsimp only
      rw [Connection.writeStep, hitems]
      cases hprogress : call.progress with
      | running t =>
          rw [hprogress] at htask
          obtain ⟨w', call', progress, hmove⟩ := e.exists_conclude htask hclosed
          have := Host.advance_of_move hmove
          rw [← hprogress, hadvance] at this
          cases this
      | ended status =>
          rw [hprogress] at htask
          dsimp only
          rw [hclosed, Bool.not_false, Bool.or_true]
          obtain rfl := e.concluded htask
          exact .on (.answered rfl hmore fun hall => absurd hall hlong)
            ⟨hc.limits, hc.inputEnded, hc.abandoned⟩

/-- Every step keeps what is known about a connection that serves an errand, as long as the client reads
when it has sent everything. -/
theorem Along.next (hp : e.Passes timeout limits) (hc : Connected limits c)
    (h : Along e timeout more w c) (hreads : more = [] → waiting = none) :
    Next e timeout limits more w c (c.step Host.service now waiting w) := by
  cases h with
  | opening hphase houtput hb => exact next_opening hp hc hphase houtput hb
  | asking hphase hrun hattended htask hin hitems houtput =>
      exact next_asking hp hc hphase hrun hattended htask hin hitems houtput
  | answering written hphase hmore hinput hattended htask hsaid houtput =>
      rw [hreads hmore]
      exact next_answering hc hphase hmore hinput hattended htask hsaid houtput
  | unheard hphase hmore hinput htask hclosed hitems hlong =>
      exact next_unheard hc hphase hmore hinput htask hclosed hitems hlong
  | answered hphase hmore houtput =>
      rw [Connection.step, hphase]
      exact .answered hmore ⟨hphase, houtput, rfl⟩

/-- A connection that serves an errand settles: it waits for more of the request, or it has answered. -/
theorem Along.settle (hp : e.Passes timeout limits) (hc : Connected limits c)
    (h : Along e timeout more w c) (hreads : more = [] → waiting = none)
    {w' : Host σ} {c' : Connection Host.Task}
    (hsettle : c.settle Host.service now waiting w = (w', c')) :
    Along e timeout more w' c' ∧ Connected limits c' ∧
      (more ≠ [] ∧ Paused c' ∨ more = [] ∧ Answered e w' c') := by
  fun_induction Connection.settle Host.service now waiting w c with
  | case1 w c w₁ c₁ hstep ih =>
      have hnext : Next e timeout limits more w c (c.step Host.service now waiting w) :=
        h.next hp hc hreads
      rw [hstep] at hnext
      cases hnext with
      | on h₁ hc₁ => exact ih hc₁ h₁ hsettle
  | case2 w c hstep =>
      have hnext : Next e timeout limits more w c (c.step Host.service now waiting w) :=
        h.next hp hc hreads
      rw [hstep] at hnext
      cases hsettle
      cases hnext with
      | paused hmore hpaused => exact ⟨h, hc, .inl ⟨hmore, hpaused⟩⟩
      | answered hmore hanswered => exact ⟨h, hc, .inr ⟨hmore, hanswered⟩⟩

theorem Arriving.append {bytes input : List UInt8} {inbox : Inbox}
    (h : Arriving e (bytes ++ more) taken reader inbox input) :
    Arriving e more taken reader inbox (input ++ bytes) := by
  cases h with
  | reading pending rest hm hb => exact .reading pending rest hm (by rw [List.append_assoc]; exact hb)
  | holding pending rest hm hb => exact .holding pending rest hm (by rw [List.append_assoc]; exact hb)
  | complete pending hm hmore =>
      obtain ⟨rfl, rfl⟩ := List.append_eq_nil_iff.mp hmore
      exact .complete pending hm rfl

theorem Along.arrive {bytes : List UInt8} (h : Along e timeout (bytes ++ more) w c) :
    Along e timeout more w (c.arrive bytes) := by
  cases h with
  | opening hphase houtput hb => exact .opening hphase houtput (by rw [← hb, ← List.append_assoc]; rfl)
  | asking hphase hrun hattended htask hin hitems houtput =>
      exact .asking hphase hrun hattended htask hin.append hitems houtput
  | answering written hphase hmore hinput hattended htask hsaid houtput =>
      obtain ⟨rfl, rfl⟩ := List.append_eq_nil_iff.mp hmore
      refine .answering written hphase rfl ?_ hattended htask hsaid houtput
      show c.input ++ [] = []
      rw [hinput]
      rfl
  | unheard hphase hmore hinput htask hclosed hitems hlong =>
      obtain ⟨rfl, rfl⟩ := List.append_eq_nil_iff.mp hmore
      exact .unheard hphase rfl (by simpa [Connection.arrive] using hinput) htask hclosed hitems hlong
  | answered hphase hmore houtput =>
      obtain ⟨rfl, rfl⟩ := List.append_eq_nil_iff.mp hmore
      exact .answered hphase rfl houtput

end Steps

end Errand

end RemoteDiscipline

