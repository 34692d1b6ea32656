import RemoteDiscipline.Proofs.Peers
import RemoteDiscipline.Proofs.Stopping
/-!
Requests that are cut short.

A client that computes looks before each chunk of its request whether somebody calls it away. While
it sends, the line may change in any way after each frame (`Client.exchangeAmid`), so it can be called
away between any two of them. If that happens before the last chunk, what it writes is the beginning
of a request with a cancellation behind it, and never looks like a whole one
(`Client.request_cut_short`).
-/

namespace RemoteDiscipline

namespace Client

variable {ω τ : Type} {s : Service ω τ} {meanwhile : Nat → Line ω τ → Line ω τ} {c : Client} {p : Plan}

/-! ### What is written -/

namespace Transcript

def frames (x : Transcript ω τ) : List Frame := x.written.map Prod.fst

/-- Whether the time of something has come before each chunk, when all are sent nevertheless. -/
def looks (s : Service ω τ) (meanwhile : Nat → Line ω τ → Line ω τ) (time : Option Nat) :
    List Parcel → Transcript ω τ → List Bool
  | [], _ => []
  | p :: rest, x =>
    x.call.line.isDue time ::
      looks s meanwhile time rest (x.write s meanwhile (.message (.chunk p.chunk))).2

end Transcript

def messages (chunks : List Chunk) : List Frame := chunks.map fun k => .message (.chunk k)

theorem Transcript.written_of_write {x x' : Transcript ω τ} {f : Frame} {r : Except Error Unit}
    (h : x.write s meanwhile f = (r, x')) : x'.written = x.written ++ [(f, r)] := by
  cases h
  rfl

theorem Transcript.mem_written_of_write {x x' : Transcript ω τ} {f : Frame} {r : Except Error Unit}
    (h : x.write s meanwhile f = (r, x')) : (f, r) ∈ x'.written := by
  rw [written_of_write h]
  exact List.mem_concat_self

theorem Transcript.frames_of_write {x x' : Transcript ω τ} {f : Frame} {r : Except Error Unit}
    (h : x.write s meanwhile f = (r, x')) : x'.frames = x.frames ++ [f] := by
  rw [frames, written_of_write h, List.map_append]
  rfl

theorem Transcript.written_of_cancel (x : Transcript ω τ) :
    x.written <+: (x.cancel s meanwhile).written := by
  unfold cancel
  split
  · exact List.prefix_rfl
  · exact List.prefix_append ..

theorem Transcript.finished_of_write {x x' : Transcript ω τ} {f : Frame}
    (h : x.write s meanwhile f = (.ok (), x')) : x'.call.finished = x.call.finished := by
  obtain ⟨hresult, rfl⟩ := Prod.ext_iff.mp h
  obtain ⟨l, hcall⟩ := ClientCall.exists_line_of_write (Prod.ext hresult rfl)
  exact congrArg (·.finished) hcall

/-- The first look that finds the client called away ends the request; until then every chunk is
written. -/
theorem go_written (parcels : List Parcel) {x : Transcript ω τ} {r : Except Error Unit}
    {x' : Transcript ω τ}
    (hgo : Plan.transmit.go (fun x : Transcript ω τ => x.call.line.isDue c.called)
      (fun k x => x.write s meanwhile (.message (.chunk k))) p parcels x = (r, x'))
    (hok : ∀ w ∈ x'.written, w.2 = .ok ()) :
    x'.call.finished = x.call.finished ∧
      (true ∈ x.looks s meanwhile c.called parcels →
        ∃ done q rest, parcels = done ++ q :: rest ∧ r = .error q.stopped ∧
          done.length = (x.looks s meanwhile c.called parcels).idxOf true ∧
          x'.frames = x.frames ++ messages (done.map (·.chunk))) ∧
      (true ∉ x.looks s meanwhile c.called parcels →
        r = p.ending ∧ x'.frames = x.frames ++ messages (parcels.map (·.chunk))) := by
  induction parcels generalizing x with
  | nil =>
      cases hgo
      exact ⟨rfl, by simp [Transcript.looks], fun _ => ⟨rfl, (List.append_nil _).symm⟩⟩
  | cons q rest ih =>
      rw [Plan.transmit.go] at hgo
      cases hdue : x.call.line.isDue c.called with
      | true =>
          rw [if_pos hdue] at hgo
          cases hgo
          rw [Transcript.looks, hdue]
          refine ⟨rfl, fun _ => ⟨[], q, rest, rfl, rfl, ?_, (List.append_nil _).symm⟩,
            fun hnone => ?_⟩
          · exact List.idxOf_cons_self.symm
          · exact absurd List.mem_cons_self hnone
      | false =>
          rw [if_neg (by simp [hdue])] at hgo
          rcases hwrite : x.write s meanwhile (.message (.chunk q.chunk)) with ⟨e | _, x₁⟩
          · rw [hwrite] at hgo
            cases hgo
            cases hok _ (Transcript.mem_written_of_write hwrite)
          · rw [hwrite] at hgo
            obtain ⟨hkept, hcut, hwhole⟩ := ih hgo
            have hframes := Transcript.frames_of_write hwrite
            rw [Transcript.looks, hdue, hwrite]
            refine ⟨hkept.trans (Transcript.finished_of_write hwrite), fun hcalled => ?_,
              fun hnone => ?_⟩
            · obtain ⟨done, q', rest', rfl, hr, hlength, hdone⟩ := hcut (by simpa using hcalled)
              refine ⟨q :: done, q', rest', rfl, hr, ?_, ?_⟩
              · rw [List.length_cons, hlength, List.idxOf_cons]
                rfl
              · rw [hdone, hframes, List.append_assoc]
                rfl
            · obtain ⟨hr, hall⟩ := hwhole (by simpa using hnone)
              refine ⟨hr, ?_⟩
              rw [hall, hframes, List.append_assoc]
              rfl

/-- What has been put down stays when the rest of the request is put down. -/
theorem written_of_exchangeAmid {y : Yield} {x x₁ x' : Transcript ω τ} {r₁ : Except Error Unit}
    {r : Except Error y.Values}
    (htransmit : p.transmit (fun x => x.call.line.isDue c.called)
      (fun k x => x.write s meanwhile (.message (.chunk k))) x = (r₁, x₁))
    (h : c.exchangeAmid s meanwhile p y x = (r, x')) : x₁.written <+: x'.written := by
  rw [exchangeAmid, transmitAmid, htransmit] at h
  cases r₁ with
  | error e =>
      cases e with
      | cancelled m =>
          cases h
          exact x₁.written_of_cancel
      | _ =>
          cases h
          exact List.prefix_rfl
  | ok _ =>
      rcases hclose : x₁.write s meanwhile .halfClose with ⟨r₂, x₂⟩
      have hwritten := Transcript.written_of_write hclose
      have hkept : x'.written = x₂.written := by
        dsimp only at h
        rw [hclose] at h
        cases r₂ <;> cases h <;> rfl
      rw [hkept, hwritten]
      exact List.prefix_append ..

/-- What becomes of a request for some values on an open call, when the line changes in some way
after each frame. -/
structure CutShort (s : Service ω τ) (meanwhile : Nat → Line ω τ → Line ω τ) (c : Client)
    (l : List (Tag × Variable)) (size : Nat) (call : ClientCall ω τ) : Prop where
  /-- A client that is called away before it sends the last chunk writes the chunks up to then and
  the cancellation. -/
  cut {y : Yield} {r : Except Error y.Values} {x : Transcript ω τ} :
    c.exchangeAmid s meanwhile (.ofVariables l size) y (.opened meanwhile call) = (r, x) →
    (∀ w ∈ x.written, w.2 = .ok ()) →
    true ∈ (Transcript.opened meanwhile call).looks s meanwhile c.called
      (Plan.ofVariables l size).parcels →
    ∃ sent, sent <+: l.flatMap (fun v => v.2.pieces v.1 size) ∧
      sent ≠ l.flatMap (fun v => v.2.pieces v.1 size) ∧
      sent.length = ((Transcript.opened meanwhile call).looks s meanwhile c.called
        (Plan.ofVariables l size).parcels).idxOf true ∧
      x.frames = .opening protocolVersion call.method call.timeout.announced ::
        (messages sent ++ [.cancel]) ∧
      ∃ text, r = .error (.cancelled text)
  /-- Otherwise it writes all chunks and the half-close, and puts the results together. -/
  whole {y : Yield} {r : Except Error y.Values} {x : Transcript ω τ} :
    c.exchangeAmid s meanwhile (.ofVariables l size) y (.opened meanwhile call) = (r, x) →
    (∀ w ∈ x.written, w.2 = .ok ()) →
    true ∉ (Transcript.opened meanwhile call).looks s meanwhile c.called
      (Plan.ofVariables l size).parcels →
    x.frames = .opening protocolVersion call.method call.timeout.announced ::
        (messages (l.flatMap fun v => v.2.pieces v.1 size) ++ [.halfClose]) ∧
      ∃ closed, c.collect s y closed = (r, x.call)
  /-- An exchange is the case in which the line does not change. -/
  exchange (y : Yield) : c.exchange s (.ofVariables l size) y call =
    let (r, x) :=
      c.exchangeAmid s (fun _ => id) (.ofVariables l size) y (.opened (fun _ => id) call)
    (r, x.call)

theorem request_cut_short {l : List (Tag × Variable)} {size : Nat} (hsize : 1 ≤ size)
    {call : ClientCall ω τ} (hopen : call.finished = false) :
    CutShort s meanwhile c l size call := by
  obtain ⟨hending, hchunks⟩ := Plan.sends_ofVariables l hsize
  constructor
  case cut =>
    intro y r x hexchange hok hcalled
    rw [← hchunks]
    rcases htransmit : (Plan.ofVariables l size).transmit
      (fun x : Transcript ω τ => x.call.line.isDue c.called)
      (fun k x => x.write s meanwhile (.message (.chunk k))) (.opened meanwhile call) with ⟨r₁, x₁⟩
    obtain ⟨hfinished, hcut, -⟩ := go_written _ htransmit fun w hw =>
      hok w ((written_of_exchangeAmid htransmit hexchange).subset hw)
    obtain ⟨done, q, rest, hparcels, rfl, hlength, hframes⟩ := hcut hcalled
    rcases hwrite : x₁.write s meanwhile .cancel with ⟨r₂, x₂⟩
    have hunfinished : x₁.call.finished = false := hfinished.trans hopen
    have hcancel : x₁.cancel s meanwhile = x₂ := by
      rw [Transcript.cancel, if_neg (by simp [hunfinished]), hwrite]
    rw [exchangeAmid, transmitAmid, htransmit] at hexchange
    obtain ⟨rfl, rfl⟩ : .error q.stopped = r ∧ x₂ = x := by
      simpa [Parcel.stopped, hcancel] using hexchange
    refine ⟨done.map (·.chunk), ?_, ?_, ?_, ?_, _, rfl⟩
    · rw [Plan.chunks, hparcels, List.map_append]
      exact List.prefix_append ..
    · rw [Plan.chunks, hparcels]
      simp
    · rw [List.length_map, hlength]
    · rw [Transcript.frames_of_write hwrite, hframes]
      rfl
  case whole =>
    intro y r x hexchange hok hnone
    rw [← hchunks]
    rcases htransmit : (Plan.ofVariables l size).transmit
      (fun x : Transcript ω τ => x.call.line.isDue c.called)
      (fun k x => x.write s meanwhile (.message (.chunk k))) (.opened meanwhile call) with ⟨r₁, x₁⟩
    obtain ⟨-, -, hwhole⟩ := go_written _ htransmit fun w hw =>
      hok w ((written_of_exchangeAmid htransmit hexchange).subset hw)
    obtain ⟨rfl, hframes⟩ := hwhole hnone
    rw [exchangeAmid, transmitAmid, htransmit, hending] at hexchange
    dsimp only at hexchange
    rcases hclose : x₁.write s meanwhile .halfClose with ⟨r₂, x₂⟩
    have hwritten := Transcript.frames_of_write hclose
    have hdone := Transcript.mem_written_of_write hclose
    rw [hclose] at hexchange
    cases r₂ with
    | error e =>
        cases hexchange
        cases hok _ hdone
    | ok _ =>
        cases hexchange
        refine ⟨?_, x₂.call, rfl⟩
        show x₂.frames = _
        rw [hwritten, hframes]
        rfl
  case exchange =>
    exact fun y => rfl

end Client

/-! ### Replies and requests -/

/-- Whenever the sender of a reply or of a request is told to stop, what it has sent is a beginning
of all chunks and is not taken for more than that. -/
theorem sending_cut_short {size : Nat} (hsize : 1 ≤ size) :
    (∀ {σ : Type} {m : Metadata} {k : Computation} {values : k.Values} {call : Call}
        {ticket : Option Nat} {c : Served Host.Task} {sent : List Message},
      call.outbox.isOpen = true →
      Host.Emits σ ⟨call, .running (.sending ticket (.reply m size k values))⟩ sent c →
      Host.CutShort σ m size k values c sent) ∧
    ∀ {ω τ : Type} {s : Service ω τ} {n : Network ω} {c : Client} {k : Computation}
        {call : ClientCall ω τ} (l : List (Tag × Variable))
        (meanwhile : Nat → Line ω τ → Line ω τ),
      ClientCall.dial s n (.compute k) c.config.timeout c.config.maxFrameBytes = .ok call →
      Client.CutShort s meanwhile c l size call := by
  refine ⟨fun hopen hrun => Host.reply_cut_short hsize hopen hrun, fun l meanwhile hdial => ?_⟩
  obtain ⟨line, rfl⟩ := ClientCall.exists_line_of_dial hdial
  exact Client.request_cut_short hsize rfl

def twoValues : Variable := ⟨.output, [2], [⟨3⟩, ⟨4⟩], rfl⟩

def firstOfTwo : Parcel := ⟨⟨"y", none, 0, 0, .output, [⟨3⟩]⟩, 0⟩

def secondOfTwo : Parcel := ⟨⟨"y", none, 1, 1, .output, [⟨4⟩]⟩, 1⟩

theorem Host.emits_first_of_two :
    ∃ c, Emits Unit ⟨Call.fresh (.compute .function) 1 true,
        .running (.sending none ⟨[firstOfTwo, secondOfTwo], .ok ()⟩)⟩ [.chunk firstOfTwo.chunk] c ∧
      c.cancelled = true ∧ Concludes c secondOfTwo.stopped.toStatus := by
  let host : Host Unit := (register { kind := .explicit } () .concurrent).2
  have hstart := Emits.refl (σ := Unit) ⟨Call.fresh (.compute .function) 1 true,
    .running (.sending none ⟨[firstOfTwo, secondOfTwo], .ok ()⟩)⟩
  have hbegun := hstart.step (advance_of_move (h := host) (.commit rfl))
  have htold := hbegun.meanwhile Call.cancel (fun h => h) (fun _ => rfl)
  have hsent := htold.step (advance_of_move (h := host) (.put rfl))
  exact ⟨_, hsent.step (advance_of_move (h := host) (.stop rfl)), rfl, .inl ⟨_, rfl⟩⟩

theorem Line.Attended.setClock {ω τ : Type} {answer more : List UInt8} {hold : Bool}
    {deadline now : Nat} {l : Line ω τ} (h : l.Attended answer hold deadline more)
    (hnow : now < deadline) : Attended answer hold deadline more { l with clock := now } :=
  ⟨h.far, h.incoming, hnow, h.capacity⟩

namespace Client

def listening : Network Habit := ⟨0, .echo, .peers [.answer [] false], []⟩

def calledAt (now : Nat) : Client := { config := {}, called := some now }

/-- The clock shows how many frames have been written before the last one. -/
def ticking (i : Nat) (l : Line Habit Habit.Task) : Line Habit Habit.Task := { l with clock := i }

theorem exchange_first_of_two (y : Yield) :
    ∃ (call : ClientCall Habit Habit.Task) (r : Except Error y.Values)
      (x : Transcript Habit Habit.Task),
      ClientCall.dial Habit.service listening (.compute .function)
        (calledAt 1).config.timeout (calledAt 1).config.maxFrameBytes = .ok call ∧
      (calledAt 1).exchangeAmid Habit.service ticking ⟨[firstOfTwo, secondOfTwo], .ok ()⟩ y
        (.opened ticking call) = (r, x) ∧
      (∀ w ∈ x.written, w.2 = .ok ()) ∧
      true ∈ (Transcript.opened ticking call).looks Habit.service ticking (some 1)
        [firstOfTwo, secondOfTwo] := by
  have hclock (now : Nat) (hnow : now ≤ 1) : now < Duration.deadline 0 60000 :=
    Nat.lt_of_le_of_lt hnow (by decide)
  have hchunk : (Frame.message (.chunk firstOfTwo.chunk)).Travels PeerEnd.limit :=
    Frame.InRange.travels ⟨⟨by decide, by decide⟩, by decide, by decide⟩
      ⟨by decide +kernel, by decide +kernel⟩
  have hcancel : Frame.cancel.Travels PeerEnd.limit :=
    Frame.InRange.travels trivial ⟨by decide, by decide⟩
  have htravels : ∀ f ∈ [Frame.message (.chunk firstOfTwo.chunk), .cancel],
      f.Travels PeerEnd.limit ∧ f ≠ .halfClose := by
    simp [hchunk, hcancel]
  obtain ⟨l, hdial, hl⟩ := ClientCall.dial_attended (s := Habit.service) (n := listening) rfl
    (show 0 < 60000 by decide) (.compute .function) defaultMaxFrameBytes htravels
  let call : ClientCall Habit Habit.Task :=
    ⟨.compute .function, 60000, Duration.deadline 0 60000, defaultMaxFrameBytes, false, l⟩
  let x₀ := Transcript.opened ticking call
  obtain ⟨l₁, hfirst, hl₁, -⟩ := ClientCall.write_accepting x₀.call
    (Line.accepting_attended (s := Habit.service)) hchunk.isAnnounceable
    (hl.setClock (hclock 0 (by decide)))
  let x₁ := Transcript.note ticking (.message (.chunk firstOfTwo.chunk)) (.ok ())
    { x₀ with call := { x₀.call with line := l₁ } }
  obtain ⟨l₂, hgivenUp, -, -⟩ := ClientCall.write_accepting x₁.call
    (Line.accepting_attended (s := Habit.service)) hcancel.isAnnounceable
    (hl₁.setClock (hclock 1 (by decide)))
  have hwrite :
      x₀.write Habit.service ticking (.message (.chunk firstOfTwo.chunk)) = (.ok (), x₁) := by
    rw [Transcript.write, hfirst]
  have htransmit : (calledAt 1).transmitAmid Habit.service ticking
      ⟨[firstOfTwo, secondOfTwo], .ok ()⟩ x₀ =
        (.error secondOfTwo.stopped, (x₁.write Habit.service ticking .cancel).2) := by
    rw [transmitAmid, Plan.transmit, Plan.transmit.go,
      if_neg (show ¬ x₀.call.line.isDue (calledAt 1).called = true from Bool.false_ne_true), hwrite]
    rfl
  refine ⟨call, .error secondOfTwo.stopped, (x₁.write Habit.service ticking .cancel).2, hdial,
    ?_, ?_, ?_⟩
  · show (calledAt 1).exchangeAmid Habit.service ticking _ y x₀ = _
    rw [exchangeAmid, htransmit]
  · rw [Transcript.write, hgivenUp]
    simp [Transcript.note, x₁, x₀, Transcript.opened]
  · show true ∈ x₀.looks _ _ _ _
    rw [Transcript.looks, Transcript.looks, hwrite]
    exact .tail _ (.head _)

end Client

/-- Two chunks, with a stop between them: a host that has been told so after it began with the first
one, and a client that has been called away behind it. -/
theorem sending_cut_short_after_first :
    let m : Metadata := { Metadata.fresh .explicit with variableList := [⟨"y", .output, [2], ""⟩] }
    let l := [(Tag.ofVariable "y" .output, twoValues)]
    1 ≤ 1 ∧
    (∃ c, Host.CutShort Unit m 1 .function (.ofList [("y", twoValues)]) c
        [.chunk firstOfTwo.chunk] ∧
      c.cancelled = true ∧ Host.Concludes c secondOfTwo.stopped.toStatus) ∧
    ∃ (call : ClientCall Habit Habit.Task) (x : Client.Transcript Habit Habit.Task) (text : String),
      ClientCall.dial Habit.service Client.listening (.compute .function)
        (Client.calledAt 1).config.timeout (Client.calledAt 1).config.maxFrameBytes = .ok call ∧
      (Client.calledAt 1).exchangeAmid Habit.service Client.ticking (.ofVariables l 1)
        Computation.function.yield (.opened Client.ticking call) = (.error (.cancelled text), x) ∧
      ∃ sent, sent <+: l.flatMap (fun v => v.2.pieces v.1 1) ∧
        sent ≠ l.flatMap (fun v => v.2.pieces v.1 1) ∧
        x.frames = .opening protocolVersion call.method call.timeout.announced ::
          (Client.messages sent ++ [.cancel]) := by
  intro m l
  obtain ⟨hreply, hrequest⟩ := @sending_cut_short 1 (by decide)
  obtain ⟨c, hrun, hstop, hstatus⟩ := Host.emits_first_of_two
  obtain ⟨call, r, x, hdial, hexchange, hok, hlooks⟩ :=
    Client.exchange_first_of_two Computation.function.yield
  refine ⟨by decide, ⟨c, hreply rfl hrun, hstop, hstatus⟩, ?_⟩
  obtain ⟨sent, hprefix, hproper, -, hframes, text, rfl⟩ :=
    (hrequest l Client.ticking hdial).cut hexchange hok hlooks
  exact ⟨call, x, text, hdial, hexchange, sent, hprefix, hproper, hframes⟩

end RemoteDiscipline
