import RemoteDiscipline.Proofs.Peers
/-!
How a client learns that its call is over.

A closing frame is read in two places: where the client waits for a message, and where something
could not be sent and the stream is searched for the reason (`ClientCall.searched`). A call counts as
finished once a closing frame has been read in the first place, or one with a bad status in the
second (`ClientCall.Deed.finished_left`). From then on a client that waits is told that the call went
well, also if its closing frame had a bad status and that has been reported only once
(`ClientCall.ended_iff`).
-/

namespace RemoteDiscipline

def Line.Arrival.frames : Arrival → List Frame
  | .frame f => [f]
  | .ended | .fault _ | .late | .called => []

@[simp] theorem Line.Arrival.mem_frames {a : Arrival} {f : Frame} : f ∈ a.frames ↔ a = .frame f := by
  cases a <;> simp [frames, eq_comm]

theorem Line.Yields.exists_close {ω τ : Type} {s : Service ω τ} {limit deadline : Nat}
    {called : Option Nat} {l : Line ω τ} {status : Status}
    (h : l.Yields s limit deadline called [] (.closed status)) :
    ∃ l', l.receive s limit deadline called = (.frame (.close status), l') := by
  cases h with
  | @ending _ l' a _ hreceive ha =>
      cases a with
      | frame f =>
          cases f with
          | close status' =>
              cases ha
              exact ⟨l', hreceive⟩
          | message | opening | halfClose | cancel => cases ha
      | ended | fault | late | called => cases ha

namespace ClientCall

variable {ω τ : Type}

inductive Action
  | send (m : Message)
  | halfClose
  | receive

inductive Answer
  | sent (r : Except Error Unit)
  | received (r : Except Error (Option Message))

def perform (s : Service ω τ) (c : ClientCall ω τ) : Action → Answer × ClientCall ω τ
  | .send m => (.sent (c.send s m).1, (c.send s m).2)
  | .halfClose => (.sent (c.halfClose s).1, (c.halfClose s).2)
  | .receive => (.received (c.receive s).1, (c.receive s).2)

/-! ### The frames that are read -/

/-- The frames that are read in search of the reason why something could not be sent: the messages,
and the first frame that is none. -/
def searched (s : Service ω τ) (c : ClientCall ω τ) : List Frame :=
  match _h : c.read s none with
  | (.frame (.message m), c') => .message m :: searched s c'
  | (a, _) => a.frames
termination_by c.work
decreasing_by exact work_lt_of_read _h

/-- The frames that are read when a frame is written: none, unless that fails. -/
def readBehind (s : Service ω τ) (c : ClientCall ω τ) (f : Frame) : List Frame :=
  match c.line.sendFrame s c.deadline f with
  | (.broken _, l) => { c with line := l }.searched s
  | (.done, _) | (.late, _) => []

def awaited (s : Service ω τ) (c : ClientCall ω τ) : List Frame :=
  if c.finished then [] else (c.read s none).1.frames

/-! ### Deeds -/

/-- Something that a client does, with the call as it finds it. -/
structure Deed (ω τ : Type) where
  found : ClientCall ω τ
  action : Action

namespace Deed

def answer (s : Service ω τ) (d : Deed ω τ) : Answer := (d.found.perform s d.action).1

def left (s : Service ω τ) (d : Deed ω τ) : ClientCall ω τ := (d.found.perform s d.action).2

def frames (s : Service ω τ) (d : Deed ω τ) : List Frame :=
  match d.action with
  | .send m => d.found.readBehind s (.message m)
  | .halfClose => d.found.readBehind s .halfClose
  | .receive => d.found.awaited s

def Completes (s : Service ω τ) (d : Deed ω τ) : Prop :=
  d.action = .receive ∧ ∃ status, status.isOk = true ∧ .close status ∈ d.frames s

def Reports (s : Service ω τ) (d : Deed ω τ) : Prop :=
  ∃ status, status.isOk = false ∧ .close status ∈ d.frames s ∧
    (d.answer s = .sent (.error (.ofStatus status d.found.timeout)) ∨
      d.answer s = .received (.error (.ofStatus status d.found.timeout)))

end Deed

/-- What a client does one after the other. In between the stream may change in any way. -/
def deeds (s : Service ω τ) (c : ClientCall ω τ) :
    List ((Line ω τ → Line ω τ) × Action) → List (Deed ω τ)
  | [] => []
  | (meanwhile, action) :: rest =>
    let d : Deed ω τ := ⟨{ c with line := meanwhile c.line }, action⟩
    d :: (d.left s).deeds s rest

variable {s : Service ω τ} {c c' : ClientCall ω τ}

/-! ### One deed -/

theorem searched_of_message {m : Message} (h : c.read s none = (.frame (.message m), c')) :
    c.searched s = .message m :: c'.searched s := by
  rw [searched]
  split <;> rename_i heq <;> rw [h] at heq <;> cases heq
  · rfl
  · rename_i hother
    exact absurd rfl (hother m)

theorem searched_of_other {a : Line.Arrival} (h : c.read s none = (a, c'))
    (ha : ∀ m, a ≠ .frame (.message m)) : c.searched s = a.frames := by
  rw [searched]
  split <;> rename_i heq <;> rw [h] at heq <;> cases heq
  · exact absurd rfl (ha _)
  · rfl

theorem explainBroken_cases (s : Service ω τ) (e : WriteFault) (c : ClientCall ω τ) :
    (∃ status, status.isOk = false ∧ .close status ∈ c.searched s ∧
        (c.explainBroken s e).1 = .ofStatus status c.timeout ∧
        (c.explainBroken s e).2.finished = true) ∨
      (∀ status, .close status ∈ c.searched s → status.isOk = true) ∧
        (c.explainBroken s e).2.finished = c.finished := by
  fun_induction explainBroken s e c with
  | case1 c status c' hread hok =>
      obtain rfl : c' = (c.read s none).2 := congrArg Prod.snd hread.symm
      rw [searched_of_other hread (by simp)]
      refine .inr ⟨fun status' h => ?_, rfl⟩
      obtain rfl : status = status' := by simpa using h
      exact hok
  | case2 c status c' hread hok =>
      obtain rfl : c' = (c.read s none).2 := congrArg Prod.snd hread.symm
      rw [searched_of_other hread (by simp)]
      exact .inl ⟨status, by simpa using hok, by simp, rfl, rfl⟩
  | case3 c m c' hread ih =>
      obtain rfl : c' = (c.read s none).2 := congrArg Prod.snd hread.symm
      rw [searched_of_message hread]
      simp only [List.mem_cons, reduceCtorEq, false_or]
      exact ih
  | case4 c c' hread =>
      obtain rfl : c' = (c.read s none).2 := congrArg Prod.snd hread.symm
      rw [searched_of_other hread (by simp)]
      exact .inr ⟨by simp, rfl⟩
  | case5 c a c' hclose hmessage hlate hread =>
      obtain rfl : c' = (c.read s none).2 := congrArg Prod.snd hread.symm
      rw [searched_of_other hread (fun m hm => hmessage m hm)]
      exact .inr ⟨fun status h => absurd (Line.Arrival.mem_frames.mp h) (hclose status), rfl⟩

/-- What writing a frame has to do with the end of the call: a bad status that is read on this
occasion is the answer. -/
theorem write_cases (s : Service ω τ) (c : ClientCall ω τ) (f : Frame) :
    (∃ status, status.isOk = false ∧ .close status ∈ c.readBehind s f ∧
        (c.write s f).1 = .error (.ofStatus status c.timeout) ∧
        (c.write s f).2.finished = true) ∨
      (∀ status, .close status ∈ c.readBehind s f → status.isOk = true) ∧
        (c.write s f).2.finished = c.finished := by
  unfold write readBehind
  rcases c.line.sendFrame s c.deadline f with ⟨_ | e | _, l⟩
  · exact .inr ⟨by simp, rfl⟩
  · obtain ⟨status, hbad, hmem, herror, hfinished⟩ | hnone :=
      explainBroken_cases s e { c with line := l }
    · exact .inl ⟨status, hbad, hmem, congrArg Except.error herror, hfinished⟩
    · exact .inr hnone
  · exact .inr ⟨by simp, rfl⟩

theorem readBehind_of_write {f : Frame} (h : c.write s f = (.ok (), c')) :
    c.readBehind s f = [] := by
  rw [write] at h
  rw [readBehind]
  rcases hsend : c.line.sendFrame s c.deadline f with ⟨_ | _ | _, l⟩
  · rfl
  · rw [hsend] at h
    cases h
  · rfl

/-- What waiting has to do with the end of the call: a closing frame that is read finishes it, and its
status is the answer. Otherwise it is not said that the call went well. -/
theorem receive_cases (s : Service ω τ) (h : c.finished = false) :
    (∃ status, c.awaited s = [.close status] ∧ (c.receive s).2.finished = true ∧
        (c.receive s).1 =
          if status.isOk then .ok none else .error (.ofStatus status c.timeout)) ∨
      (∀ status, .close status ∉ c.awaited s) ∧ (c.receive s).2.finished = false ∧
        (c.receive s).1 ≠ .ok none := by
  have hcalled := Line.receive_ne_called s c.line c.limit c.deadline
  unfold receive receiveUnless awaited
  rw [if_neg (by simp [h]), if_neg (by simp [h])]
  obtain ⟨method, timeout, deadline, limit, finished, line⟩ := c
  cases h
  rw [read]
  dsimp only at hcalled ⊢
  rcases hr : line.receive s limit deadline none with ⟨a, l⟩
  rw [hr] at hcalled
  cases a with
  | frame f =>
      cases f with
      | close status =>
          refine .inl ⟨status, rfl, ?_⟩
          by_cases hok : status.isOk = true
          · simp [hok]
          · simp [hok, classify]
      | message | opening | halfClose | cancel => exact .inr ⟨by simp, rfl, by simp⟩
  | ended | fault | late => exact .inr ⟨by simp, rfl, by simp⟩
  | called => exact absurd rfl hcalled

theorem receive_of_finished (s : Service ω τ) (h : c.finished = true) :
    c.receive s = (.ok none, c) ∧ c.awaited s = [] := by
  rw [receive, receiveUnless, awaited, if_pos h, if_pos h]
  exact ⟨rfl, rfl⟩

namespace Deed

variable {d : Deed ω τ}

theorem finished_write (s : Service ω τ) (d : Deed ω τ) (f : Frame)
    (haction : d.action ≠ .receive) (hframes : d.frames s = d.found.readBehind s f)
    (hanswer : d.answer s = .sent (d.found.write s f).1)
    (hleft : d.left s = (d.found.write s f).2) :
    (d.left s).finished = true ↔ d.found.finished = true ∨ d.Completes s ∨ d.Reports s := by
  have hcomplete : ¬ d.Completes s := fun h => haction h.1
  obtain ⟨status, hbad, hmem, herror, hfinished⟩ | ⟨hgood, hkeeps⟩ := write_cases s d.found f
  · have hreports : d.Reports s :=
      ⟨status, hbad, hframes ▸ hmem, .inl (hanswer.trans (congrArg Answer.sent herror))⟩
    simp [hleft, hfinished, hreports]
  · have hreports : ¬ d.Reports s := by
      rintro ⟨status, hbad, hmem, -⟩
      rw [hgood status (hframes ▸ hmem)] at hbad
      cases hbad
    simp [hleft, hkeeps, hcomplete, hreports]

/-- A call is finished by the deeds that read its end, and by no others. -/
theorem finished_left (s : Service ω τ) (d : Deed ω τ) :
    (d.left s).finished = true ↔
      d.found.finished = true ∨ d.Completes s ∨ d.Reports s := by
  obtain ⟨c, action⟩ := d
  cases action with
  | send m => exact finished_write s _ (.message m) (by simp) rfl rfl rfl
  | halfClose => exact finished_write s _ .halfClose (by simp) rfl rfl rfl
  | receive =>
      rcases Bool.eq_false_or_eq_true c.finished with hfinished | hfinished
      · have hleft : (c.receive s).2 = c := congrArg Prod.snd (receive_of_finished s hfinished).1
        simp [left, perform, hleft, hfinished]
      · obtain ⟨status, hawaited, hleft, hanswer⟩ | ⟨hnone, hleft, -⟩ := receive_cases s hfinished
        · have hmem : .close status ∈ (Deed.mk c .receive).frames s := by simp [frames, hawaited]
          refine iff_of_true hleft (.inr ?_)
          cases hok : status.isOk with
          | true => exact .inl ⟨rfl, status, hok, hmem⟩
          | false =>
              rw [hok, if_neg Bool.false_ne_true] at hanswer
              exact .inr ⟨status, hok, hmem, .inr (congrArg Answer.received hanswer)⟩
        · refine iff_of_false (by simp [left, perform, hleft]) ?_
          rintro (h | ⟨-, status, -, hmem⟩ | ⟨status, -, hmem, -⟩)
          · exact absurd h (by simp [hfinished])
          · exact hnone status hmem
          · exact hnone status hmem

/-- A client that waits is told that the call went well if this has been settled before, or when it
reads so now. -/
theorem ended_iff_found (s : Service ω τ) (h : d.action = .receive) :
    d.answer s = .received (.ok none) ↔ d.found.finished = true ∨ d.Completes s := by
  obtain ⟨c, action⟩ := d
  cases h
  rcases Bool.eq_false_or_eq_true c.finished with hfinished | hfinished
  · have hanswer : (c.receive s).1 = .ok none := congrArg Prod.fst (receive_of_finished s hfinished).1
    exact iff_of_true (congrArg Answer.received hanswer) (.inl hfinished)
  · obtain ⟨status, hawaited, -, hanswer⟩ | ⟨hnone, -, hanswer⟩ := receive_cases s hfinished
    · simp [answer, perform, Completes, frames, hfinished, hawaited, hanswer]
    · refine iff_of_false (by simpa [answer, perform] using hanswer) ?_
      rintro (h | ⟨-, status, -, hmem⟩)
      · exact absurd h (by simp [hfinished])
      · exact hnone status hmem

end Deed

/-! ### Runs -/

/-- What a deed finds is finished when it was so at the start, or some deed before has finished it. -/
theorem finished_found {steps : List ((Line ω τ → Line ω τ) × Action)} {before after : List (Deed ω τ)}
    {d : Deed ω τ} (h : c.deeds s steps = before ++ d :: after) :
    d.found.finished = true ↔
      c.finished = true ∨ ∃ b ∈ before, b.Completes s ∨ b.Reports s := by
  induction before generalizing c steps with
  | nil =>
      cases steps with
      | nil => simp [deeds] at h
      | cons step steps =>
          obtain ⟨rfl, -⟩ := List.cons.inj h
          simp
  | cons b before ih =>
      cases steps with
      | nil => simp [deeds] at h
      | cons step steps =>
          obtain ⟨rfl, hrest⟩ := List.cons.inj h
          rw [ih hrest, Deed.finished_left]
          simp only [List.mem_cons, exists_eq_or_imp, or_assoc]

/-- A client that says it is done and waits twice, when a closing frame is all that it gets to read:
the second time nothing is read any more. -/
theorem deeds_closed (s : Service ω τ) {n : Network ω} {status : Status} {peers : List Peer}
    (hremote : n.remote = .peers (.answer (Frame.close status).encode false :: peers))
    (method : Method) {timeout : Duration} (htimeout : 0 < timeout) {limit : Nat}
    (hstatus : (Frame.close status).Travels limit) :
    ∃ c d₁ d₂ d₃, dial s n method timeout limit = .ok c ∧
      c.deeds s [(id, .halfClose), (id, .receive), (id, .receive)] = [d₁, d₂, d₃] ∧
      (d₁.answer s = .sent (.ok ()) ∧ d₁.frames s = []) ∧
      (d₂.answer s = .received (if status.isOk then .ok none
          else .error (.ofStatus status timeout)) ∧ d₂.frames s = [.close status]) ∧
      d₃.action = .receive ∧ d₃.answer s = .received (.ok none) ∧ d₃.frames s = [] := by
  have hnone : ∀ f ∈ ([] : List Frame), f.Travels PeerEnd.limit ∧ f ≠ .halfClose := by simp
  obtain ⟨l, hdial, hl⟩ := dial_attended (s := s) hremote htimeout method limit hnone
  let c : ClientCall ω τ := ⟨method, timeout, Duration.deadline n.clock timeout, limit, false, l⟩
  obtain ⟨l₁, hwrite, hl₁, hstirred⟩ := write_accepting c (Line.accepting_attended (s := s))
    (f := .halfClose) (by decide) hl
  -- All that the peer has to say is the closing frame.
  have hread : Frame.responses limit (Frame.close status).encode = ([], .closed status) := by
    have hfirst := Frame.read_encode hstatus true []
    rw [List.append_nil] at hfirst
    rw [Frame.responses, Frame.readAll_of_read hfirst]
    rfl
  have hyields : l₁.Yields s limit c.deadline none _ _ := hl₁.yields hstirred (by simp)
  rw [hread] at hyields
  obtain ⟨l₂, hreceive⟩ := hyields.exists_close
  let c₁ : ClientCall ω τ := { c with line := l₁ }
  have hsent : c.halfClose s = (.ok (), c₁) := hwrite
  have hquiet : c.readBehind s .halfClose = [] := readBehind_of_write hwrite
  have hawaited : c₁.awaited s = [.close status] := by
    rw [awaited, if_neg (show ¬ c₁.finished = true from Bool.false_ne_true), read_eq hreceive]
    rfl
  obtain ⟨status', hawaited', hfinished, hanswer⟩ | ⟨hno, -⟩ := receive_cases s (c := c₁) rfl
  · obtain rfl : status = status' := by simpa [hawaited] using hawaited'
    obtain ⟨hagain, hnothing⟩ := receive_of_finished s hfinished
    refine ⟨c, ⟨c, .halfClose⟩, ⟨c₁, .receive⟩, ⟨(c₁.receive s).2, .receive⟩, hdial, ?_,
      ⟨?_, hquiet⟩, ⟨congrArg Answer.received hanswer, hawaited⟩, rfl,
      congrArg Answer.received (congrArg Prod.fst hagain), hnothing⟩
    · rw [deeds, deeds, deeds, deeds]
      simp only [Deed.left, perform, id, hsent]
    · exact congrArg Answer.sent (congrArg Prod.fst hsent)
  · exact absurd (by simp [hawaited]) (hno status)

/-- On a call that has been opened, a client that waits is told that the call went well when it reads
so, or has read so before, and also once the bad status of a closing frame has been reported to it. -/
theorem ended_iff {n : Network ω} {method : Method} {timeout : Duration} {limit : Nat}
    (hdial : dial s n method timeout limit = .ok c)
    {steps : List ((Line ω τ → Line ω τ) × Action)} {before after : List (Deed ω τ)} {d : Deed ω τ}
    (hdeeds : c.deeds s steps = before ++ d :: after) (hd : d.action = .receive) :
    d.answer s = .received (.ok none) ↔
      d.Completes s ∨ (∃ b ∈ before, b.Completes s) ∨ ∃ b ∈ before, b.Reports s := by
  have hopen : c.finished = false := by
    obtain ⟨l, rfl⟩ := exists_line_of_dial hdial
    rfl
  rw [Deed.ended_iff_found s hd, finished_found hdeeds, hopen]
  simp only [Bool.false_eq_true, false_or, and_or_left, exists_or]
  exact or_comm

def refusing : Network Habit :=
  ⟨0, .echo, .peers [.answer (Frame.close ⟨.internal, "boom"⟩).encode false], []⟩

theorem deeds_refused :
    ∃ c d₁ d₂ d₃,
      dial Habit.service refusing (.compute .function) 60000 defaultMaxFrameBytes = .ok c ∧
      c.deeds Habit.service [(id, .halfClose), (id, .receive), (id, .receive)] = [d₁, d₂, d₃] ∧
      (d₁.answer Habit.service = .sent (.ok ()) ∧ d₁.frames Habit.service = []) ∧
      (d₂.answer Habit.service = .received (.error (.remote .internal "boom")) ∧
        d₂.frames Habit.service = [.close ⟨.internal, "boom"⟩]) ∧
      d₃.action = .receive ∧ d₃.answer Habit.service = .received (.ok none) ∧
      d₃.frames Habit.service = [] := by
  have htravels : (Frame.close ⟨.internal, "boom"⟩).Travels defaultMaxFrameBytes :=
    Frame.InRange.travels trivial ⟨by decide, by decide⟩
  exact deeds_closed Habit.service rfl (.compute .function) (by decide) htravels

theorem ended_iff_of_refusal :
    ∃ c before d,
      dial Habit.service refusing (.compute .function) 60000 defaultMaxFrameBytes = .ok c ∧
      c.deeds Habit.service [(id, .halfClose), (id, .receive), (id, .receive)] = before ++ [d] ∧
      d.action = .receive ∧ d.answer Habit.service = .received (.ok none) ∧
      (d.Completes Habit.service ∨ (∃ b ∈ before, b.Completes Habit.service) ∨
        ∃ b ∈ before, b.Reports Habit.service) := by
  obtain ⟨c, d₁, d₂, d₃, hdial, hdeeds, -, -, haction, hanswer, -⟩ := deeds_refused
  have hlast : c.deeds Habit.service _ = [d₁, d₂] ++ d₃ :: [] := hdeeds
  exact ⟨c, [d₁, d₂], d₃, hdial, hlast, haction, hanswer,
    (ended_iff hdial hlast haction).mp hanswer⟩

/-- The server closes the call with a bad status. The client learns this when it waits, and when it
waits again the call went well; a closing frame that says so has never been read. -/
theorem ended_after_refusal :
    let steps : List ((Line Habit Habit.Task → Line Habit Habit.Task) × Action) :=
      [(id, .halfClose), (id, .receive), (id, .receive)]
    ∃ c, dial Habit.service refusing (.compute .function) 60000 defaultMaxFrameBytes = .ok c ∧
      (c.deeds Habit.service steps).map (Deed.answer Habit.service) =
        [.sent (.ok ()), .received (.error (.remote .internal "boom")), .received (.ok none)] ∧
      ∀ d ∈ c.deeds Habit.service steps, ∀ status, .close status ∈ d.frames Habit.service →
        status.isOk = false := by
  intro steps
  obtain ⟨c, d₁, d₂, d₃, hdial, hdeeds, ⟨h₁, hf₁⟩, ⟨h₂, hf₂⟩, -, h₃, hf₃⟩ := deeds_refused
  refine ⟨c, hdial, ?_, ?_⟩
  · rw [hdeeds]
    simp only [List.map_cons, List.map_nil, h₁, h₂, h₃]
  · rw [hdeeds]
    simp [hf₁, hf₂, hf₃, Status.isOk]

end ClientCall

end RemoteDiscipline
