import RemoteDiscipline.Proofs.Schedules
import RemoteDiscipline.Proofs.Turns
/-!
Computations that are served one at a time might as well come one at a time.

When no request about the discipline is heeded in between, every computation does what it would have
done alone, on the host that the computation before it has left (`Host.one_at_a_time`). What a call
would have done alone is told by following its own part of the schedule in a session with no other
call; the steps in which it only waited for its turn are not in that part.
-/

namespace RemoteDiscipline

namespace Host

variable {σ ι : Type}

/-! ### A call alone -/

/-- A session with one call, which begins on a linked host with some lifecycle and nobody in line.
Its number is going to be `n`. -/
def alone (l : Lifecycle σ) (n : Nat) (id : ι) (call : Call) : Session ι (Host σ) Task :=
  ⟨⟨true, l, some ⟨[], n⟩⟩, [(id, .begin (service (σ := σ)) call)]⟩

/-- What computations do in some steps: which task, in what state of the discipline. Hooks and their
arguments can be read off it. -/
def work (made : List (Deed (Host σ) Task)) : List (Task × Lifecycle σ) :=
  (made.filter (·.task.isComputing)).map fun d => (d.task, d.world.lifecycle)

theorem work_append (made more : List (Deed (Host σ) Task)) :
    work (made ++ more) = work made ++ work more := by
  simp [work]

/-- A call of a run has become what it would have become alone on a host with some lifecycle, where
it would have left the host `h'` behind, and it has done the same work. -/
def Alone (x : Session ι (Host σ) Task) (past : List (Session.Event ι)) (i : Nat) (l : Lifecycle σ)
    (n : Nat) (h' : Host σ) : Prop :=
  ∃ id call c, (Session.begun past)[i]? = some (id, call) ∧
    (x.follow service unlink past).calls[i]? = some (id, c) ∧
    (alone l n id call).follow service unlink (x.own service unlink i past) = ⟨h', [(id, c)]⟩ ∧
    work ((alone l n id call).deeds service unlink (x.own service unlink i past)) =
      work ((x.deeds service unlink past).filter (·.call = i))

section Alone

variable {x : Session ι (Host σ) Task} {past : List (Session.Event ι)} {i : Nat} {l : Lifecycle σ}
  {n : Nat} {h' : Host σ} {id : ι} {c : Served Task} {t : Task}

theorem Alone.same (h : Alone x past i l n h') {e : Session.Event ι}
    (hown : (x.follow service unlink past).ownEvent? service i e = none)
    (hcalls : ((x.follow service unlink past).play service unlink e).calls[i]? =
      (x.follow service unlink past).calls[i]?)
    (hdeed : ∀ d ∈ (x.follow service unlink past).deed? service e, d.call ≠ i) :
    Alone x (past ++ [e]) i l n h' := by
  obtain ⟨id, call, c, hbegun, hc, hfollow, hwork⟩ := h
  refine ⟨id, call, c, ?_, ?_, ?_, ?_⟩
  · rw [Session.begun_append, List.getElem?_append_left (List.getElem?_eq_some_iff.mp hbegun).1,
      hbegun]
  · rw [Session.follow_concat, hcalls, hc]
  · rw [Session.own_concat, hown, Option.toList_none, List.append_nil, hfollow]
  · have hnone :
        ((x.follow service unlink past).deed? service e).toList.filter (·.call = i) = [] := by
      rw [List.filter_eq_nil_iff]
      intro d hd
      simpa using hdeed d (by simpa using hd)
    rw [Session.own_concat, hown, Option.toList_none, List.append_nil, hwork,
      Session.deeds_concat, List.filter_append, hnone, List.append_nil]

theorem Alone.other (h : Alone x past i l n h') {e : Session.Event ι} (he : e.call? ≠ some i) :
    Alone x (past ++ [e]) i l n h' := by
  have hlt : i < (x.follow service unlink past).calls.length := by
    obtain ⟨id, call, c, -, hc, -⟩ := h
    exact (List.getElem?_eq_some_iff.mp hc).1
  exact h.same (Session.ownEvent?_of_other he) (Session.calls_play_of_other he hlt)
    fun d hd => Session.call_ne_of_other he hd

theorem Alone.advance (h : Alone x past i l n h') {h'' w : Host σ} {c' : Served Task}
    (hc : (x.follow service unlink past).calls[i]? = some (id, c)) (ht : c.progress = .running t)
    (ha : c.advance service (x.follow service unlink past).world = some (w, c'))
    (ha' : c.advance service h' = some (h'', c'))
    (hl : t.isComputing = true → h'.lifecycle = (x.follow service unlink past).world.lifecycle) :
    Alone x (past ++ [.step i]) i l n h'' := by
  obtain ⟨id', call, c₀, hbegun, hc₀, hfollow, hwork⟩ := h
  rw [hc] at hc₀
  cases hc₀
  have hown : (x.follow service unlink past).ownEvent? service i (.step i) = some (.step 0) := by
    rw [Session.ownEvent?, if_pos rfl, Session.deed?_step hc ht ha]
    rfl
  have hfirst : ((alone l n id call).follow service unlink (x.own service unlink i past)).calls[0]? =
      some (id, c) := by
    rw [hfollow]
    rfl
  have hworld : ((alone l n id call).follow service unlink
      (x.own service unlink i past)).world = h' := by
    rw [hfollow]
  rw [← hworld] at ha'
  refine ⟨id, call, c', ?_, ?_, ?_, ?_⟩
  · rw [Session.begun_append, List.getElem?_append_left (List.getElem?_eq_some_iff.mp hbegun).1,
      hbegun]
  · rw [Session.follow_concat, Session.play_step hc ha]
    exact List.getElem?_set_self (List.getElem?_eq_some_iff.mp hc).1
  · rw [Session.own_concat, hown, Option.toList_some, Session.follow_concat,
      Session.play_step hfirst ha', hfollow]
    rfl
  · rw [Session.own_concat, hown, Option.toList_some, Session.deeds_concat,
      Session.deed?_step hfirst ht ha', work_append, hwork, Session.deeds_concat,
      Session.deed?_step hc ht ha, Option.toList_some, List.filter_append, work_append, hworld]
    congr 1
    by_cases hcomputing : t.isComputing = true
    · simp [work, hcomputing, hl hcomputing]
    · simp [work, hcomputing]

/-- At the door, a computation takes its number. -/
theorem Alone.enter (h : Alone x past i l n ⟨true, l, some ⟨[], n⟩⟩) {w : Host σ} {k : Computation}
    (hc : (x.follow service unlink past).calls[i]? = some (id, c))
    (ht : c.progress = .running (.arrived (.compute k)))
    (ha : c.advance service (x.follow service unlink past).world =
      some (w, ⟨c.toCall, .running (.queued k (some n))⟩)) :
    Alone x (past ++ [.step i]) i l n ⟨true, l, some ⟨[n], n + 1⟩⟩ := by
  refine h.advance hc ht ha ?_ (by simp [Task.isComputing])
  obtain ⟨call, progress⟩ := c
  cases ht
  rfl

/-- Behind the door the call needs the same lifecycle, and its turn. -/
theorem Alone.move (h : Alone x past i l n h') {w : Host σ} {c' : Served Task}
    (hc : (x.follow service unlink past).calls[i]? = some (id, c)) (ht : c.progress = .running t)
    (harr : t.isArrived = false)
    (ha : c.advance service (x.follow service unlink past).world = some (w, c'))
    (hl : h'.lifecycle = (x.follow service unlink past).world.lifecycle)
    (hturn : ∀ k ticket, t = .queued k ticket → h'.hasTurn ticket = true) :
    Alone x (past ++ [.step i]) i l n { h'.leftBy t with lifecycle := w.lifecycle } := by
  obtain ⟨t', ht', hm⟩ := move_of_advance ha
  rw [ht] at ht'
  cases ht'
  have hm' := hm.elsewhere harr hl fun k ticket he _ => hturn k ticket he
  refine h.advance hc ht ha ?_ fun _ => hl
  obtain ⟨call, progress⟩ := c
  cases ht
  exact advance_of_move hm'

theorem Alone.client (h : Alone x past i l n h') (f : Call → Call) :
    Alone x (past ++ [.client i f]) i l n h' := by
  obtain ⟨id, call, c, hbegun, hc, hfollow, hwork⟩ := h
  obtain ⟨hlt, -⟩ := List.getElem?_eq_some_iff.mp hc
  have hown : (x.follow service unlink past).ownEvent? service i (.client i f) =
      some (.client 0 f) := if_pos ⟨rfl, hlt⟩
  refine ⟨id, call, c.onCall f, ?_, ?_, ?_, ?_⟩
  · rw [Session.begun_append, List.getElem?_append_left (List.getElem?_eq_some_iff.mp hbegun).1,
      hbegun]
  · rw [Session.follow_concat, Session.play_client hc]
    exact List.getElem?_set_self hlt
  · rw [Session.own_concat, hown, Option.toList_some, Session.follow_concat, hfollow]
    rfl
  · rw [Session.own_concat, hown, Option.toList_some, Session.deeds_concat, Session.deeds_concat,
      List.filter_append, work_append, work_append, hwork]
    rfl

theorem Alone.expire (h : Alone x past i l n h') (status : Status) :
    ∃ h'', h''.lifecycle = h'.lifecycle ∧ Alone x (past ++ [.expire i status]) i l n h'' := by
  obtain ⟨id, call, c, hbegun, hc, hfollow, hwork⟩ := h
  obtain ⟨hlt, -⟩ := List.getElem?_eq_some_iff.mp hc
  have hown : (x.follow service unlink past).ownEvent? service i (.expire i status) =
      some (.expire 0 status) := if_pos ⟨rfl, hlt⟩
  have hfirst : ((alone l n id call).follow service unlink (x.own service unlink i past)).calls[0]? =
      some (id, c) := by
    rw [hfollow]
    rfl
  have hbegun' : (Session.begun (past ++ [.expire i status]))[i]? = some (id, call) := by
    rw [Session.begun_append, List.getElem?_append_left (List.getElem?_eq_some_iff.mp hbegun).1,
      hbegun]
  have hwork' : work ((alone l n id call).deeds service unlink
      (x.own service unlink i (past ++ [.expire i status]))) =
        work ((x.deeds service unlink (past ++ [.expire i status])).filter (·.call = i)) := by
    rw [Session.own_concat, hown, Option.toList_some, Session.deeds_concat, Session.deeds_concat,
      List.filter_append, work_append, work_append, hwork]
    rfl
  cases ht : c.progress with
  | ended status' =>
      refine ⟨h', rfl, id, call, c, hbegun', ?_, ?_, hwork'⟩
      · rw [Session.follow_concat, Session.play_expire_of_ended hc ht, hc]
      · rw [Session.own_concat, hown, Option.toList_some, Session.follow_concat,
          Session.play_expire_of_ended hfirst ht, hfollow]
  | running t =>
      refine ⟨h'.release t.ticket, lifecycle_release h' _, id, call,
        ⟨c.toCall.cancel, .ended status⟩, hbegun', ?_, ?_, hwork'⟩
      · rw [Session.follow_concat, Session.play_expire hc ht]
        exact List.getElem?_set_self hlt
      · rw [Session.own_concat, hown, Option.toList_some, Session.follow_concat,
          Session.play_expire hfirst ht, hfollow]
        rfl

end Alone

/-! ### Turns -/

structure Turn (σ : Type) where
  call : Nat
  ticket : Nat
  before : Lifecycle σ
  after : Lifecycle σ

/-- Turns that lead from one lifecycle to another, each from where the one before has left it. -/
def Chain (l : Lifecycle σ) : List (Turn σ) → Lifecycle σ → Prop
  | [], l' => l' = l
  | turn :: rest, l' => turn.before = l ∧ Chain turn.after rest l'

theorem chain_concat {l l' : Lifecycle σ} {turns : List (Turn σ)} {turn : Turn σ} :
    Chain l (turns ++ [turn]) l' ↔ Chain l turns turn.before ∧ l' = turn.after := by
  induction turns generalizing l with
  | nil => simp [Chain]
  | cons first rest ih =>
      rw [List.cons_append, Chain, Chain, ih, and_assoc]

/-- The call whose turn begins with a step. -/
def starts? (d : Deed (Host σ) Task) : Option Nat :=
  match d.task with
  | .queued _ _ => some d.call
  | _ => none

theorem starts?_of_not_computing {d : Deed (Host σ) Task} (hd : d.task.isComputing = false) :
    starts? d = none := by
  unfold starts?
  split
  · rename_i ht
    rw [ht] at hd
    cases hd
  · rfl

def Task.isApplying : Task → Bool
  | .applying _ _ => true
  | _ => false

/-- Requests that are not applied and calls that come or go leave the lifecycle alone. -/
theorem Move.lifecycle_eq {h h' : Host σ} {c c' : Call} {t : Task} {p : Progress Task}
    (hm : Move h c t h' c' p) (ht : t.isComputing = false) (happly : t.isApplying = false) :
    h'.lifecycle = h.lifecycle := by
  cases hm with
  | letIn m => exact lifecycle_letIn h m
  | leave => exact lifecycle_release h _
  | apply | decline => cases happly
  | evaluate | abort => cases ht
  | request | close | responded | respond | start | refuse | drain | sent | cut | stop | commit
  | put => rfl

/-- What comes after a task that is no computation at work: a computation only at the door, where it
takes the next number. -/
theorem Move.idle_cases {h h' : Host σ} {c c' : Call} {t u : Task} {gate : Gate}
    (hm : Move h c t h' c' (.running u)) (hg : h.gate = some gate) (ht : t.isComputing = false)
    (hw : t.isAtWork = false) :
    u.isAtWork = false ∧ (∀ m, u ≠ .arrived m) ∧
      ∀ k ticket, u = .queued k ticket →
        t = .arrived (.compute k) ∧ ticket = some gate.next ∧ c' = c := by
  have harrived (m : Method) : u ≠ .arrived m := by
    rintro rfl
    cases hm.isArrived_eq_false
  cases hm with
  | letIn m =>
      rcases letIn_eq h m with ⟨k, g, rfl, hg', -, he⟩ | ⟨u, he, hn, hnone⟩
      · rw [hg] at hg'
        cases hg'
        refine ⟨by rw [he]; rfl, harrived, ?_⟩
        rw [he]
        intro k' ticket hu
        cases hu
        exact ⟨rfl, rfl, rfl⟩
      · rw [he]
        rw [hg] at hnone
        have hu : u.isComputing = false := Bool.eq_false_iff.mpr fun hu => by cases hnone hu
        refine ⟨isAtWork_false_of_ticket hn hu, by rwa [he] at harrived, ?_⟩
        rintro k ticket rfl
        cases hu
  | @request m r c' hr =>
      unfold Task.ofRequest
      split <;> simp [Task.isAtWork, Task.failing]
  | @close m request r c' hr =>
      unfold Task.ofEnd
      split <;> simp [Task.isAtWork, Task.failing]
  | @respond m rest r c' hr => cases r <;> simp [Task.ofResponse, Task.isAtWork, Task.failing]
  | apply | decline | responded => simp [Task.isAtWork, Task.failing]
  | start | refuse | drain | evaluate | abort | sent | cut | stop | commit | put => cases ht

theorem Move.isAtWork {h h' : Host σ} {c c' : Call} {t t' : Task}
    (hm : Move h c t h' c' (.running t')) (hn : t.ticket.isSome = true)
    (ht : t.isComputing = true ∨ t.isAtWork = true) : t'.isAtWork = true := by
  cases hm with
  | drain hr =>
      unfold Task.ofArgument
      split
      · rfl
      · split
        · rfl
        · exact hn
      · exact hn
  | @put ticket chunk rest r c' hr =>
      cases r with
      | ok u => rfl
      | error e => exact hn
  | start | evaluate | commit => rfl
  | refuse | abort | sent | cut | stop => exact hn
  | letIn | request | close | apply | decline | responded | respond => cases hn

/-- What is known of a run in which no request was heeded: every turn was what it would have been
alone, and all calls that have not had their turn could still have it after any others. -/
structure Ledger (x : Session ι (Host σ) Task) (past : List (Session.Event ι))
    (turns : List (Turn σ)) : Prop where
  length : (Session.begun past).length = (x.follow service unlink past).calls.length
  door : ∀ i m, Runs (x.follow service unlink past) i (.arrived m) →
    ∀ l n, Alone x past i l n ⟨true, l, some ⟨[], n⟩⟩
  waiting : ∀ i k n, Runs (x.follow service unlink past) i (.queued k (some n)) →
    ∀ l, Alone x past i l n ⟨true, l, some ⟨[n], n + 1⟩⟩
  done : ∀ turn ∈ turns, ∃ h' : Host σ, h'.lifecycle = turn.after ∧
    Alone x past turn.call turn.before turn.ticket h'
  chain : Chain x.world.lifecycle turns (x.follow service unlink past).world.lifecycle
  nodup : (turns.map (·.call)).Nodup
  working : ∀ turn ∈ turns, ∀ t, Runs (x.follow service unlink past) turn.call t →
    t.isAtWork = true
  last : ∀ i, AtWork (x.follow service unlink past) i →
    ∃ front turn, turns = front ++ [turn] ∧ turn.call = i
  order : (x.deeds service unlink past).filterMap starts? = turns.map (·.call)
  covered : ∀ d ∈ x.deeds service unlink past, d.task.isComputing = true →
    d.call ∈ turns.map (·.call)

theorem ledger_start (h : Host σ) : Ledger (⟨h, []⟩ : Session ι (Host σ) Task) [] [] := by
  have nobody (i : Nat) (t : Task) : ¬ Runs (⟨h, []⟩ : Session ι (Host σ) Task) i t := by
    rintro ⟨id, c, hc, -⟩
    simp at hc
  constructor
  · rfl
  · exact fun i m hr => absurd hr (nobody i _)
  · exact fun i k n hr => absurd hr (nobody i _)
  · simp
  · rfl
  · exact .nil
  · simp
  · rintro i ⟨t, hr, -⟩
    exact absurd hr (nobody i t)
  · rfl
  · simp [Session.deeds]

section Ledger

variable {x : Session ι (Host σ) Task} {past : List (Session.Event ι)} {turns : List (Turn σ)}
  {gate : Gate} {i : Nat} {id : ι} {c c' : Served Task} {t : Task} {w : Host σ}

/-- A call that is not at work has not had its turn, or has ended. -/
theorem Ledger.call_ne (h : Ledger x past turns) (hr : Runs (x.follow service unlink past) i t)
    (ht : t.isAtWork = false) : ∀ turn ∈ turns, turn.call ≠ i := by
  rintro turn hturn rfl
  rw [h.working turn hturn t hr] at ht
  cases ht

theorem Ledger.keep (h : Ledger x past turns) {e : Session.Event ι}
    (hlength : (Session.begun (past ++ [e])).length =
      (x.follow service unlink (past ++ [e])).calls.length)
    (hlife : (x.follow service unlink (past ++ [e])).world.lifecycle =
      (x.follow service unlink past).world.lifecycle)
    (hdeed : ∀ d ∈ (x.follow service unlink past).deed? service e, d.task.isComputing = false)
    (hdone : ∀ i l n (h' : Host σ), Alone x past i l n h' →
      (∀ turn ∈ turns, turn.call ≠ i) ∨
        ∃ h'' : Host σ, h''.lifecycle = h'.lifecycle ∧ Alone x (past ++ [e]) i l n h'')
    (hruns : ∀ i t, Runs (x.follow service unlink (past ++ [e])) i t →
      Runs (x.follow service unlink past) i t ∧
          (∀ l n (h' : Host σ), Alone x past i l n h' → Alone x (past ++ [e]) i l n h') ∨
        (∀ turn ∈ turns, turn.call ≠ i) ∧ t.isAtWork = false ∧
          (∀ m, t = .arrived m → ∀ l n, Alone x (past ++ [e]) i l n ⟨true, l, some ⟨[], n⟩⟩) ∧
          ∀ k n, t = .queued k (some n) →
            ∀ l, Alone x (past ++ [e]) i l n ⟨true, l, some ⟨[n], n + 1⟩⟩) :
    Ledger x (past ++ [e]) turns := by
  constructor
  · exact hlength
  · intro j m hr l n
    rcases hruns j _ hr with ⟨hr, halone⟩ | ⟨-, -, hnew, -⟩
    · exact halone l n _ (h.door j m hr l n)
    · exact hnew m rfl l n
  · intro j k n hr l
    rcases hruns j _ hr with ⟨hr, halone⟩ | ⟨-, -, -, hnew⟩
    · exact halone l n _ (h.waiting j k n hr l)
    · exact hnew k n rfl l
  · intro turn hturn
    obtain ⟨h', hl, halone⟩ := h.done turn hturn
    rcases hdone _ _ _ _ halone with hne | ⟨h'', hl'', halone''⟩
    · exact absurd rfl (hne turn hturn)
    · exact ⟨h'', hl''.trans hl, halone''⟩
  · rw [hlife]
    exact h.chain
  · exact h.nodup
  · intro turn hturn u hr
    rcases hruns _ u hr with ⟨hr, -⟩ | ⟨hne, -⟩
    · exact h.working turn hturn u hr
    · exact absurd rfl (hne turn hturn)
  · rintro j ⟨u, hr, hu⟩
    rcases hruns j u hr with ⟨hr, -⟩ | ⟨-, hidle, -⟩
    · exact h.last j ⟨u, hr, hu⟩
    · rw [hidle] at hu
      cases hu
  · rw [Session.deeds_concat, List.filterMap_append, h.order]
    have hnone : ((x.follow service unlink past).deed? service e).toList.filterMap starts? = [] := by
      rw [List.filterMap_eq_nil_iff]
      intro d hd
      exact starts?_of_not_computing (hdeed d (by simpa using hd))
    rw [hnone, List.append_nil]
  · intro d hd hcomputing
    rw [Session.deeds_concat, List.mem_append] at hd
    rcases hd with hd | hd
    · exact h.covered d hd hcomputing
    · rw [hdeed d (by simpa using hd)] at hcomputing
      cases hcomputing

theorem Ledger.pass (h : Ledger x past turns) {e : Session.Event ι} (hbegun : Session.begun [e] = [])
    (hcalls : ((x.follow service unlink past).play service unlink e).calls =
      (x.follow service unlink past).calls)
    (hlife : ((x.follow service unlink past).play service unlink e).world.lifecycle =
      (x.follow service unlink past).world.lifecycle)
    (hdeed : (x.follow service unlink past).deed? service e = none)
    (hown : ∀ i < (x.follow service unlink past).calls.length,
      (x.follow service unlink past).ownEvent? service i e = none) :
    Ledger x (past ++ [e]) turns := by
  have same (i : Nat) (l : Lifecycle σ) (n : Nat) (h' : Host σ) (halone : Alone x past i l n h') :
      Alone x (past ++ [e]) i l n h' := by
    have hlt : i < (x.follow service unlink past).calls.length := by
      obtain ⟨id, call, c, -, hc, -⟩ := halone
      exact (List.getElem?_eq_some_iff.mp hc).1
    apply halone.same (hown i hlt) (by rw [hcalls])
    simp [hdeed]
  apply h.keep
  · rw [Session.begun_append, hbegun, List.append_nil, Session.follow_concat, hcalls, h.length]
  · rw [Session.follow_concat, hlife]
  · simp [hdeed]
  · exact fun i l n h' halone => .inr ⟨h', rfl, same i l n h' halone⟩
  · intro i t hr
    refine .inl ⟨?_, same i⟩
    obtain ⟨id, c, hc, ht⟩ := hr
    rw [Session.follow_concat, hcalls] at hc
    exact ⟨id, c, hc, ht⟩

theorem Ledger.begin (h : Ledger x past turns) (id : ι) (call : Call) :
    Ledger x (past ++ [.begin id call]) turns := by
  have hcalls : (x.follow service unlink (past ++ [.begin id call])).calls =
      (x.follow service unlink past).calls ++ [(id, .begin (service (σ := σ)) call)] := by
    rw [Session.follow_concat]
    rfl
  have other (i : Nat) (l : Lifecycle σ) (n : Nat) (h' : Host σ) (halone : Alone x past i l n h') :
      Alone x (past ++ [.begin id call]) i l n h' := halone.other (by simp [Session.Event.call?])
  apply h.keep
  · rw [hcalls, Session.begun_append, List.length_append, List.length_append, h.length]
    rfl
  · rw [Session.follow_concat]
    rfl
  · simp [Session.deed?]
  · exact fun i l n h' halone => .inr ⟨h', rfl, other i l n h' halone⟩
  · intro i t hr
    rw [Session.follow_concat] at hr
    rcases runs_begin.mp hr with hr | ⟨hi, rfl⟩
    · exact .inl ⟨hr, other i⟩
    · right
      refine ⟨?_, rfl, ?_, by simp⟩
      · -- A turn is the turn of a call that has begun before.
        intro turn hturn hcall
        obtain ⟨h', -, id', call', c', -, hc', -⟩ := h.done turn hturn
        have hlt := (List.getElem?_eq_some_iff.mp hc').1
        omega
      · intro m _ l n
        -- Nothing in the schedule was about this call so far.
        have hbegun : (Session.begun (past ++ [.begin id call]))[i]? = some (id, call) := by
          rw [Session.begun_append, hi, ← h.length]
          simp [Session.begun]
        have hown : x.own service unlink i (past ++ [.begin id call]) = [] := by
          rw [Session.own_concat, Session.own_eq_nil (Nat.le_of_eq hi.symm)]
          rfl
        have hnone :
            (x.deeds service unlink (past ++ [.begin id call])).filter (·.call = i) = [] := by
          rw [Session.deeds_concat, List.filter_eq_nil_iff]
          intro d hd
          have hlt := Session.call_lt_of_mem_deeds (s := service) (by simpa [Session.deed?] using hd)
          simpa using Nat.ne_of_lt (hi ▸ hlt)
        refine ⟨id, call, .begin (service (σ := σ)) call, hbegun, ?_, ?_, ?_⟩
        · rw [hcalls, hi]
          simp
        · rw [hown]
          rfl
        · rw [hown, hnone]
          rfl

theorem Ledger.client (h : Ledger x past turns) (i : Nat) (f : Call → Call) :
    Ledger x (past ++ [.client i f]) turns := by
  cases hc : (x.follow service unlink past).calls[i]? with
  | none =>
      have hplay : (x.follow service unlink past).play service unlink (.client i f) =
          x.follow service unlink past := Session.play_client_of_none hc f
      apply h.pass rfl
      · rw [hplay]
      · rw [hplay]
      · rfl
      · intro j hj
        refine if_neg fun hij => ?_
        rw [hij.1] at hc
        exact absurd hj (Nat.not_lt.mpr (List.getElem?_eq_none_iff.mp hc))
  | some call =>
      obtain ⟨id, c⟩ := call
      have hplay : (x.follow service unlink past).play service unlink (.client i f) = _ :=
        Session.play_client hc f
      have halone (j : Nat) (l : Lifecycle σ) (n : Nat) (h' : Host σ) (h : Alone x past j l n h') :
          Alone x (past ++ [.client i f]) j l n h' := by
        by_cases hij : i = j
        · subst hij
          exact h.client f
        · exact h.other (by simpa [Session.Event.call?] using hij)
      apply h.keep
      · rw [Session.begun_append, Session.follow_concat, hplay, List.length_set]
        simpa [Session.begun] using h.length
      · rw [Session.follow_concat, hplay]
      · simp [Session.deed?]
      · exact fun j l n h' h => .inr ⟨h', rfl, halone j l n h' h⟩
      · intro j t hr
        refine .inl ⟨?_, halone j⟩
        rw [Session.follow_concat, hplay] at hr
        rcases (runs_set hc).mp hr with ⟨rfl, ht⟩ | ⟨-, hr⟩
        · exact ⟨id, c, hc, ht⟩
        · exact hr

theorem Ledger.expire (h : Ledger x past turns) (i : Nat) (status : Status) :
    Ledger x (past ++ [.expire i status]) turns := by
  cases hc : (x.follow service unlink past).calls[i]? with
  | none =>
      have hplay : (x.follow service unlink past).play service unlink (.expire i status) =
          x.follow service unlink past := Session.play_expire_of_none hc status
      apply h.pass rfl
      · rw [hplay]
      · rw [hplay]
      · rfl
      · intro j hj
        refine if_neg fun hij => ?_
        rw [hij.1] at hc
        exact absurd hj (Nat.not_lt.mpr (List.getElem?_eq_none_iff.mp hc))
  | some call =>
      obtain ⟨id, c⟩ := call
      have hdone (j : Nat) (l : Lifecycle σ) (n : Nat) (h' : Host σ) (h : Alone x past j l n h') :
          ∃ h'' : Host σ, h''.lifecycle = h'.lifecycle ∧
            Alone x (past ++ [.expire i status]) j l n h'' := by
        by_cases hij : i = j
        · subst hij
          exact h.expire status
        · exact ⟨h', rfl, h.other (by simpa [Session.Event.call?] using hij)⟩
      have hlength : (Session.begun (past ++ [.expire i status])).length =
          (x.follow service unlink past).calls.length := by
        simpa [Session.begun_append, Session.begun] using h.length
      cases ht : c.progress with
      | ended status' =>
          have hplay : (x.follow service unlink past).play service unlink (.expire i status) =
              x.follow service unlink past := Session.play_expire_of_ended hc ht status
          apply h.keep
          · rw [hlength, Session.follow_concat, hplay]
          · rw [Session.follow_concat, hplay]
          · simp [Session.deed?]
          · exact fun j l n h' h => .inr (hdone j l n h' h)
          · intro j t hr
            rw [Session.follow_concat, hplay] at hr
            refine .inl ⟨hr, fun l n h' h => h.other ?_⟩
            -- The call that was to expire runs nothing.
            rintro hij
            cases hij
            obtain ⟨id', c', hc', ht'⟩ := hr
            rw [hc] at hc'
            cases hc'
            rw [ht] at ht'
            cases ht'
      | running t =>
          have hplay : (x.follow service unlink past).play service unlink (.expire i status) = _ :=
            Session.play_expire hc ht status
          apply h.keep
          · rw [hlength, Session.follow_concat, hplay, List.length_set]
          · rw [Session.follow_concat, hplay]
            exact lifecycle_release _ _
          · simp [Session.deed?]
          · exact fun j l n h' h => .inr (hdone j l n h' h)
          · intro j u hr
            rw [Session.follow_concat, hplay] at hr
            rcases (runs_set hc).mp hr with ⟨-, hu⟩ | ⟨hij, hr⟩
            · cases hu
            · exact .inl ⟨hr, fun l n h' h =>
                h.other (by simpa [Session.Event.call?] using Ne.symm hij)⟩

/-! ### Steps -/

theorem Ledger.length_step (h : Ledger x past turns)
    (hc : (x.follow service unlink past).calls[i]? = some (id, c))
    (ha : c.advance service (x.follow service unlink past).world = some (w, c')) :
    (Session.begun (past ++ [.step i])).length =
      (x.follow service unlink (past ++ [.step i])).calls.length := by
  rw [Session.begun_append, Session.follow_concat, Session.play_step hc ha, List.length_set]
  simpa [Session.begun] using h.length

theorem Ledger.step_idle (h : Ledger x past turns)
    (horderly : Orderly gate (x.follow service unlink past))
    (hc : (x.follow service unlink past).calls[i]? = some (id, c)) (ht : c.progress = .running t)
    (ha : c.advance service (x.follow service unlink past).world = some (w, c'))
    (hcomputing : t.isComputing = false) (hwork : t.isAtWork = false)
    (happly : t.isApplying = false) : Ledger x (past ++ [.step i]) turns := by
  obtain ⟨t', ht', hm⟩ := move_of_advance ha
  rw [ht] at ht'
  cases ht'
  have hi : Runs (x.follow service unlink past) i t := ⟨id, c, hc, ht⟩
  have hother (j : Nat) (hij : j ≠ i) (l : Lifecycle σ) (n : Nat) (h' : Host σ)
      (halone : Alone x past j l n h') : Alone x (past ++ [.step i]) j l n h' :=
    halone.other (by simpa [Session.Event.call?] using Ne.symm hij)
  apply h.keep (h.length_step hc ha)
  · rw [Session.follow_concat, Session.play_step hc ha]
    exact hm.lifecycle_eq hcomputing happly
  · intro d hd
    rw [Session.deed?_step hc ht ha] at hd
    cases hd
    exact hcomputing
  · intro j l n h' halone
    by_cases hij : j = i
    · subst hij
      exact .inl (h.call_ne hi hwork)
    · exact .inr ⟨h', rfl, hother j hij l n h' halone⟩
  · intro j u hr
    rw [Session.follow_concat, Session.play_step hc ha] at hr
    rcases (runs_set hc).mp hr with ⟨rfl, hu⟩ | ⟨hij, hr⟩
    · rw [hu] at hm
      obtain ⟨hidle, harrived, hqueued⟩ := hm.idle_cases horderly.gate_eq hcomputing hwork
      refine .inr ⟨h.call_ne hi hwork, hidle, fun m hm => absurd hm (harrived m), ?_⟩
      intro k n hk l
      obtain ⟨rfl, hn, hcall⟩ := hqueued k _ hk
      cases hk
      cases hn
      obtain ⟨call', progress'⟩ := c'
      cases hu
      cases hcall
      exact (h.door j _ hi l gate.next).enter hc ht ha
    · exact .inl ⟨hr, hother j hij⟩

/-- A step of a call that has had the latest turn afterwards, behind the turns of others. -/
theorem Ledger.step_turn (h : Ledger x past turns)
    (hc : (x.follow service unlink past).calls[i]? = some (id, c)) (ht : c.progress = .running t)
    (ha : c.advance service (x.follow service unlink past).world = some (w, c'))
    (hnew : ∀ u, c'.progress = .running u → u.isAtWork = true)
    (hlast : ∀ j, AtWork (x.follow service unlink (past ++ [.step i])) j → j = i)
    {front : List (Turn σ)} {turn : Turn σ} (hcall : turn.call = i)
    (hfront : ∀ other ∈ front, other ∈ turns ∧ other.call ≠ i)
    (hdone : ∃ h' : Host σ, h'.lifecycle = turn.after ∧
      Alone x (past ++ [.step i]) turn.call turn.before turn.ticket h')
    (hchain : Chain x.world.lifecycle (front ++ [turn]) w.lifecycle)
    (hnodup : ((front ++ [turn]).map (·.call)).Nodup)
    (horder : turns.map (·.call) ++
        (starts? (⟨i, (x.follow service unlink past).world, t⟩ : Deed (Host σ) Task)).toList =
      (front ++ [turn]).map (·.call)) :
    Ledger x (past ++ [.step i]) (front ++ [turn]) := by
  have hplay : x.follow service unlink (past ++ [.step i]) =
      ⟨w, (x.follow service unlink past).calls.set i (id, c')⟩ := by
    rw [Session.follow_concat, Session.play_step hc ha]
  have hother (j : Nat) (hij : j ≠ i) (l : Lifecycle σ) (n : Nat) (h' : Host σ)
      (halone : Alone x past j l n h') : Alone x (past ++ [.step i]) j l n h' :=
    halone.other (by simpa [Session.Event.call?] using Ne.symm hij)
  have hdeed := Session.deed?_step (s := service) hc ht ha
  constructor
  · exact h.length_step hc ha
  · intro j m hr l n
    rw [hplay] at hr
    rcases (runs_set hc).mp hr with ⟨-, hu⟩ | ⟨hij, hr⟩
    · cases hnew _ hu
    · exact hother j hij l n _ (h.door j m hr l n)
  · intro j k n hr l
    rw [hplay] at hr
    rcases (runs_set hc).mp hr with ⟨-, hu⟩ | ⟨hij, hr⟩
    · cases hnew _ hu
    · exact hother j hij l n _ (h.waiting j k n hr l)
  · intro other hmem
    rcases List.mem_append.mp hmem with hmem | hmem
    · obtain ⟨hmem, hne⟩ := hfront other hmem
      obtain ⟨h', hl, halone⟩ := h.done other hmem
      exact ⟨h', hl, hother _ hne _ _ _ halone⟩
    · rwa [List.mem_singleton.mp hmem]
  · rwa [hplay]
  · exact hnodup
  · intro other hmem u hr
    rw [hplay] at hr
    rcases (runs_set hc).mp hr with ⟨-, hu⟩ | ⟨hij, hr⟩
    · exact hnew u hu
    · rcases List.mem_append.mp hmem with hmem | hmem
      · exact h.working other (hfront other hmem).1 u hr
      · rw [List.mem_singleton] at hmem
        subst hmem
        exact absurd hcall hij
  · exact fun j hj => ⟨front, turn, rfl, hcall.trans (hlast j hj).symm⟩
  · rw [Session.deeds_concat, hdeed, List.filterMap_append, h.order, ← horder]
    cases hstarts : starts? (⟨i, (x.follow service unlink past).world, t⟩ : Deed (Host σ) Task) <;>
      simp [hstarts]
  · intro d hd hcomputing
    rw [Session.deeds_concat, hdeed, List.mem_append] at hd
    rcases hd with hd | hd
    · rw [← horder]
      exact List.mem_append_left _ (h.covered d hd hcomputing)
    · rw [Option.toList_some, List.mem_singleton] at hd
      subst hd
      simp [hcall]

theorem Ledger.step_first (h : Ledger x past turns)
    (horderly : Orderly gate (x.follow service unlink past))
    (horderly' : ∃ gate', Orderly gate' (x.follow service unlink (past ++ [.step i])))
    (hc : (x.follow service unlink past).calls[i]? = some (id, c)) {k : Computation}
    {ticket : Option Nat} (ht : c.progress = .running (.queued k ticket))
    (ha : c.advance service (x.follow service unlink past).world = some (w, c')) :
    ∃ turns', Ledger x (past ++ [.step i]) turns' := by
  obtain ⟨t', ht', hm⟩ := move_of_advance ha
  rw [ht] at ht'
  cases ht'
  have hi : Runs (x.follow service unlink past) i (.queued k ticket) := ⟨id, c, hc, ht⟩
  have hne := h.call_ne hi rfl
  obtain ⟨n, hn⟩ := Option.isSome_iff_exists.mp (horderly.numbered i _ hi rfl)
  cases hn
  have hnew (u : Task) (hu : c'.progress = .running u) : u.isAtWork = true := by
    rw [hu] at hm
    exact hm.isAtWork rfl (.inl rfl)
  have hlife : w.lifecycle = (x.follow service unlink past).world.lifecycle := by
    cases c'
    cases hm <;> rfl
  refine ⟨turns ++ [⟨i, n, (x.follow service unlink past).world.lifecycle, w.lifecycle⟩],
    h.step_turn hc ht ha hnew ?_ rfl (fun other hmem => ⟨hmem, hne other hmem⟩) ?_
      (chain_concat.mpr ⟨h.chain, rfl⟩) ?_ (by simp [starts?])⟩
  · -- Whoever has its turn is the only one at work.
    intro j hj
    obtain ⟨gate', horderly'⟩ := horderly'
    cases hp : c'.progress with
    | ended status =>
        rw [hp] at hm
        generalize c'.toCall = call' at hm
        cases hm
    | running u =>
        refine horderly'.eq_of_isAtWork hj ⟨u, ?_, hnew u hp⟩
        rw [Session.follow_concat, Session.play_step hc ha]
        exact (runs_set hc).mpr (.inl ⟨rfl, hp⟩)
  · -- Alone it would stand in front, on a host with the lifecycle that the last turn has left.
    have halone := h.waiting i k n hi (x.follow service unlink past).world.lifecycle
    refine ⟨_, ?_, halone.move hc ht rfl ha rfl ?_⟩
    · rfl
    · intro k' ticket' he
      cases he
      simp [hasTurn, Gate.admits]
  · rw [List.map_append, List.nodup_append]
    refine ⟨h.nodup, by simp, ?_⟩
    rintro j hj m hm rfl
    obtain ⟨turn, hturn, rfl⟩ := List.mem_map.mp hj
    simp only [List.map_cons, List.map_nil, List.mem_singleton] at hm
    exact hne turn hturn hm

theorem Ledger.step_last (h : Ledger x past turns)
    (horderly : Orderly gate (x.follow service unlink past))
    (hc : (x.follow service unlink past).calls[i]? = some (id, c)) (ht : c.progress = .running t)
    (ha : c.advance service (x.follow service unlink past).world = some (w, c'))
    (hwork : t.isAtWork = true) : ∃ turns', Ledger x (past ++ [.step i]) turns' := by
  obtain ⟨t', ht', hm⟩ := move_of_advance ha
  rw [ht] at ht'
  cases ht'
  have hi : Runs (x.follow service unlink past) i t := ⟨id, c, hc, ht⟩
  obtain ⟨front, turn, rfl, hcall⟩ := h.last i ⟨t, hi, hwork⟩
  obtain ⟨n, hn⟩ := horderly.exists_ticket hi hwork
  have hnew (u : Task) (hu : c'.progress = .running u) : u.isAtWork = true := by
    rw [hu] at hm
    exact hm.isAtWork (by rw [hn]; rfl) (.inr hwork)
  have hnone :
      starts? (⟨i, (x.follow service unlink past).world, t⟩ : Deed (Host σ) Task) = none := by
    cases t <;> first
      | rfl
      | cases hwork
  have hnodup := h.nodup
  rw [List.map_append, List.nodup_append] at hnodup
  obtain ⟨hchain, hafter⟩ := chain_concat.mp h.chain
  have hcalls : (front ++ [{ turn with after := w.lifecycle }]).map (fun u : Turn σ => u.call) =
      (front ++ [turn]).map (fun u : Turn σ => u.call) := by simp
  refine ⟨front ++ [{ turn with after := w.lifecycle }],
    h.step_turn hc ht ha hnew ?_ hcall (fun other hmem => ⟨List.mem_append_left _ hmem, ?_⟩) ?_
      (chain_concat.mpr ⟨hchain, rfl⟩) (by rw [hcalls]; exact h.nodup) (by rw [hnone]; simp)⟩
  · -- The one at work was at work before, so nobody else is.
    rintro j ⟨u, hr, hu⟩
    rw [Session.follow_concat, Session.play_step hc ha] at hr
    rcases (runs_set hc).mp hr with ⟨hji, -⟩ | ⟨-, hr⟩
    · exact hji
    · exact horderly.eq_of_isAtWork ⟨u, hr, hu⟩ ⟨t, hi, hwork⟩
  · rw [← hcall]
    exact hnodup.2.2 _ (List.mem_map_of_mem hmem) _ (by simp)
  · obtain ⟨h', hl, halone⟩ := h.done turn (by simp)
    rw [hcall] at halone
    refine ⟨{ h'.leftBy t with lifecycle := w.lifecycle }, rfl, ?_⟩
    show Alone x _ turn.call _ _ _
    rw [hcall]
    apply halone.move hc ht ?_ ha (hl.trans hafter.symm)
    · rintro k ticket rfl
      cases hwork
    · cases t <;> first
        | rfl
        | cases hwork

theorem Ledger.next (h : Ledger x past turns)
    (horderly : ∀ events, ∃ gate, Orderly gate (x.follow service unlink events))
    {e : Session.Event ι}
    (happly : ∀ d ∈ (x.follow service unlink past).deed? service e, d.task.isApplying = false) :
    ∃ turns', Ledger x (past ++ [e]) turns' := by
  obtain ⟨gate, hgate⟩ := horderly past
  cases e with
  | step i =>
      obtain ⟨hplay, hdeed⟩ | ⟨id, c, t, w, c', hc, ht, ha⟩ :=
        Session.step_cases service unlink (x.follow service unlink past) i
      · refine ⟨turns, h.pass rfl (by rw [hplay]) (by rw [hplay]) hdeed ?_⟩
        intro j _
        rw [Session.ownEvent?, hdeed]
        exact ite_self none
      · rw [Session.deed?_step hc ht ha] at happly
        have happly : t.isApplying = false := happly _ rfl
        cases hwork : t.isAtWork with
        | true => exact h.step_last hgate hc ht ha hwork
        | false =>
            cases hcomputing : t.isComputing with
            | false => exact ⟨turns, h.step_idle hgate hc ht ha hcomputing hwork happly⟩
            | true =>
                cases t with
                | queued k ticket => exact h.step_first hgate (horderly _) hc ht ha
                | draining | evaluating | sending | committed => cases hwork
                | _ => cases hcomputing
  | «begin» id call => exact ⟨turns, h.begin id call⟩
  | client i f => exact ⟨turns, h.client i f⟩
  | expire i status => exact ⟨turns, h.expire i status⟩
  | meanwhile => exact ⟨turns, h.pass rfl rfl rfl rfl fun _ _ => rfl⟩

theorem Ledger.follow (h : Ledger x past turns)
    (horderly : ∀ events, ∃ gate, Orderly gate (x.follow service unlink events))
    {rest : List (Session.Event ι)}
    (happly : ∀ d ∈ (x.follow service unlink past).deeds service unlink rest,
      d.task.isApplying = false) :
    ∃ turns', Ledger x (past ++ rest) turns' := by
  induction rest generalizing past turns with
  | nil => exact ⟨turns, by rwa [List.append_nil]⟩
  | cons e rest ih =>
      rw [Session.deeds] at happly
      obtain ⟨turns', h'⟩ := h.next horderly fun d hd =>
        happly d (List.mem_append_left _ (by simpa using hd))
      obtain ⟨turns'', h''⟩ := ih h' fun d hd => by
        rw [Session.follow_concat] at hd
        exact happly d (List.mem_append_right _ hd)
      exact ⟨turns'', by simpa using h''⟩

theorem Ledger.ended (h : Ledger x past turns) {turn : Turn σ} (hturn : turn ∈ turns.dropLast)
    (t : Task) : ¬ Runs (x.follow service unlink past) turn.call t := by
  intro hr
  have hmem := (List.dropLast_sublist turns).subset hturn
  obtain ⟨front, last, rfl, hlast⟩ := h.last turn.call ⟨t, hr, h.working turn hmem t hr⟩
  rw [List.dropLast_concat] at hturn
  have hnodup := h.nodup
  rw [List.map_append, List.nodup_append] at hnodup
  exact hnodup.2.2 _ (List.mem_map_of_mem hturn) _ (by simp) hlast.symm

end Ledger

/-! ### One at a time -/

/-- On a host that serves one computation at a time, whatever happens to its calls and in whatever
order: at most one computation is at work, which is to say between its snapshot and its end; the line
holds the numbers of the calls that are there, so that whoever has ended or was given up does not
stand in the way, and the first of those who wait can begin unless somebody is at work. If moreover no
request about the discipline is answered in between, the computations have done one after the other,
in the order in which they had their turns, what each of them does alone on the host that the one
before has left; and no other computation has done anything. -/
theorem one_at_a_time {h : Host σ} {n : Nat} (hg : h.gate = some ⟨[], n⟩)
    (schedule : List (Session.Event ι)) :
    let x : Session ι (Host σ) Task := ⟨h, []⟩
    let y := x.follow service unlink schedule
    let made := x.deeds service unlink schedule
    (∀ i j, AtWork y i → AtWork y j → i = j) ∧
    (∃ gate, y.world.gate = some gate ∧
      ∀ m, m ∈ gate.line ↔ ∃ i t, Runs y i t ∧ t.ticket = some m) ∧
    ((∃ i k ticket, Runs y i (.queued k ticket)) →
      (∃ i, AtWork y i) ∨
        ∃ (i : Nat) (id : ι) (c : Served Task) (k : Computation) (ticket : Option Nat),
          y.calls[i]? = some (id, c) ∧ c.progress = .running (.queued k ticket) ∧
            (c.advance service y.world).isSome = true) ∧
    ((∀ d ∈ made, d.task.isApplying = false) →
      ∃ turns : List (Turn σ),
        made.filterMap starts? = turns.map (·.call) ∧
        Chain h.lifecycle turns y.world.lifecycle ∧
        (∀ turn ∈ turns, ∃ h' : Host σ, h'.lifecycle = turn.after ∧
          Alone x schedule turn.call turn.before turn.ticket h') ∧
        (∀ turn ∈ turns.dropLast, ∀ t, ¬ Runs y turn.call t) ∧
        ∀ d ∈ made, d.task.isComputing = true → d.call ∈ turns.map (·.call)) := by
  intro x y made
  have horderly (events : List (Session.Event ι)) :
      ∃ gate, Orderly gate (x.follow service unlink events) :=
    (orderly_start hg).run (Session.run_follow x events)
  obtain ⟨gate, hgate⟩ := horderly schedule
  refine ⟨fun i j hi hj => hgate.eq_of_isAtWork hi hj, ⟨gate, hgate.gate_eq, fun m => ?_⟩,
    hgate.exists_first, fun happly => ?_⟩
  · constructor
    · exact hgate.exists_owner m
    · rintro ⟨i, t, hr, ht⟩
      exact hgate.inLine i t m hr ht
  · obtain ⟨turns, hledger⟩ := (ledger_start h).follow horderly happly
    exact ⟨turns, hledger.order, hledger.chain, hledger.done, fun turn hturn => hledger.ended hturn,
      hledger.covered⟩

/-- Two computations of a discipline that is set up. The one that began later is let in first, and has
its turn before the other; the other's step in between is passed over. -/
theorem one_at_a_time_of_two :
    let ready := ((register { kind := .explicit } () .serialized).2.negotiate .setup .empty).2
    let schedule : List (Session.Event Bool) :=
      [.begin true (.fresh (.compute .function) 1 true),
        .begin false (.fresh (.compute .function) 1 true),
        .client 1 Call.halfClose, .step 1, .step 0, .step 0, .step 1, .step 1, .step 0, .step 1,
        .step 1, .step 1, .step 0]
    ready.gate = some ⟨[], 0⟩ ∧
      ∃ turns : List (Turn Unit), turns.map (·.call) = [1, 0] ∧
        ∀ turn ∈ turns, ∃ h' : Host Unit, h'.lifecycle = turn.after ∧
          Alone ⟨ready, []⟩ schedule turn.call turn.before turn.ticket h' := by
  intro ready schedule
  have hg : ready.gate = some ⟨[], 0⟩ := rfl
  have happly : ∀ d ∈ Session.deeds service unlink ⟨ready, []⟩ schedule,
      d.task.isApplying = false := by decide +kernel
  have hstarts : (Session.deeds service unlink ⟨ready, []⟩ schedule).filterMap starts? = [1, 0] := by
    decide +kernel
  obtain ⟨-, -, -, hserial⟩ := one_at_a_time hg schedule
  obtain ⟨turns, horder, -, halone, -, -⟩ := hserial happly
  exact ⟨hg, turns, horder.symm.trans hstarts, halone⟩

end Host

end RemoteDiscipline
