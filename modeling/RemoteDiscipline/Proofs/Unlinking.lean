import RemoteDiscipline.Proofs.Moves
import RemoteDiscipline.Proofs.Schedules
/-!
Unlinking cuts cleanly between the calls.

Whether a host is linked is looked at once for each call, when the call is let in. Everything behind
the door depends on the lifecycle and the line only, so the calls that are under way go on as if
nothing had been unlinked, and the calls that come later are turned away without leaving a trace
(`Host.unlink_cuts`). Both are statements about two runs: one with the unlinking, and one without it
and without the steps of the calls that come later. These would be let in without the unlinking, and
they can spoil what the others rely on (`Host.late_setup_spoils_snapshot`).
-/

namespace RemoteDiscipline

namespace Host

variable {σ ι : Type}

/-! ### Moves do not look whether the host is linked -/

theorem leftBy_relink (h : Host σ) (b : Bool) (t : Task) :
    ({ h with linked := b } : Host σ).leftBy t = { h.leftBy t with linked := b } := by
  cases t with
  | leaving ticket status =>
      simp only [leftBy, release]
      split <;> rfl
  | _ => rfl

theorem release_unlink (h : Host σ) (ticket : Option Nat) :
    h.unlink.release ticket = (h.release ticket).unlink := by
  simp only [unlink, release]
  split <;> rfl

/-- Behind the door, a move is the same whether the host is linked or not. -/
theorem Move.relink {h h' : Host σ} {c c' : Call} {t : Task} {progress : Progress Task}
    (hm : Move h c t h' c' progress) (ht : t.isArrived = false) (b : Bool) :
    Move { h with linked := b } c t { h' with linked := b } c' progress := by
  have hhost : ({ ({ h with linked := b } : Host σ).leftBy t with
      lifecycle := h'.lifecycle } : Host σ) = { h' with linked := b } := by
    rw [hm.host_eq ht, leftBy_relink]
  rw [← hhost]
  exact hm.elsewhere ht rfl fun _ _ _ hturn => hturn

def isIn (c : Served Task) : Bool :=
  match c.progress with
  | .running t => !t.isArrived
  | .ended _ => true

theorem isIn_advance {h h' : Host σ} {c c' : Served Task}
    (ha : c.advance service h = some (h', c')) : isIn c' = true := by
  obtain ⟨t, -, hm⟩ := move_of_advance ha
  obtain ⟨call', _ | _⟩ := c'
  · simpa [isIn] using hm.isArrived_eq_false
  · rfl

theorem advance_relink {h h' : Host σ} {c c' : Served Task} (hc : isIn c = true)
    (ha : c.advance service h = some (h', c')) (b : Bool) :
    c.advance service { h with linked := b } = some ({ h' with linked := b }, c') := by
  obtain ⟨t, ht, hm⟩ := move_of_advance ha
  obtain ⟨call, progress⟩ := c
  cases ht
  exact advance_of_move (hm.relink (by simpa [isIn] using hc) b)

/-- A call that is past the door makes the same step on an unlinked host, or waits there, too. -/
theorem advance_unlink (h : Host σ) {c : Served Task} (hc : isIn c = true) :
    c.advance service h.unlink = (c.advance service h).map fun r => (r.1.unlink, r.2) := by
  cases ha : c.advance service h with
  | some r => exact advance_relink hc ha false
  | none =>
      rw [Option.map_none]
      cases hu : c.advance service h.unlink with
      | none => rfl
      | some r =>
          -- A step on the unlinked host would be one on the host when it is linked again.
          have hback := advance_relink hc hu h.linked
          have hsame : ({ h.unlink with linked := h.linked } : Host σ) = h := rfl
          rw [hsame, ha] at hback
          cases hback

/-! ### Calls that come too late -/

def notLinked : Status := ⟨.failedPrecondition, "precondition failed: Discipline is not linked"⟩

/-- How a call stands that was not let in before its host was unlinked: it stands at the door, or it
has been turned away, or its time was over. -/
inductive TurnedAway (events : List (Session.Event ι)) (i : Nat) : Progress Task → Prop
  | waiting (m : Method) : TurnedAway events i (.running (.arrived m))
  | leaving : TurnedAway events i (.running (.leaving none notLinked))
  | ended : TurnedAway events i (.ended notLinked)
  | expired {status : Status} : .expire i status ∈ events → TurnedAway events i (.ended status)

theorem TurnedAway.mono {events events' : List (Session.Event ι)} {i : Nat} {p : Progress Task}
    (h : TurnedAway events i p) (hsub : events ⊆ events') : TurnedAway events' i p := by
  cases h with
  | waiting m => exact .waiting m
  | leaving => exact .leaving
  | ended => exact .ended
  | expired he => exact .expired (hsub he)

theorem TurnedAway.move {events : List (Session.Event ι)} {i : Nat} {h h' : Host σ} {c c' : Call}
    {t : Task} {p : Progress Task} (ht : TurnedAway events i (.running t)) (hl : h.linked = false)
    (hm : Move h c t h' c' p) : h' = h ∧ c' = c ∧ TurnedAway events i p := by
  cases ht with
  | waiting m =>
      have hletIn : h.letIn m = (h, .leaving none notLinked) := by
        simp only [letIn, hl]
        rfl
      cases hm with
      | letIn m =>
          rw [hletIn]
          exact ⟨rfl, rfl, .leaving⟩
  | leaving =>
      cases hm with
      | leave => exact ⟨release_none h, rfl, .ended⟩

theorem TurnedAway.exists_move {events : List (Session.Event ι)} {i : Nat} {t : Task}
    (ht : TurnedAway events i (.running t)) (h : Host σ) (c : Call) :
    ∃ h' c' p, Move h c t h' c' p := by
  cases ht with
  | waiting m => exact ⟨_, _, _, .letIn m⟩
  | leaving => exact ⟨_, _, _, .leave⟩

/-! ### The two runs -/

def isUnderway (x : Session ι (Host σ) Task) (i : Nat) : Bool :=
  match x.calls[i]? with
  | some (_, c) => isIn c
  | none => false

theorem exists_of_isUnderway {x : Session ι (Host σ) Task} {i : Nat} (h : isUnderway x i = true) :
    ∃ id c, x.calls[i]? = some (id, c) ∧ isIn c = true := by
  unfold isUnderway at h
  split at h
  · exact ⟨_, _, by assumption, h⟩
  · cases h

/-- Whether an event of a schedule is still there when the host is not unlinked, and the calls that
were not under way are not let in. -/
def isKept (underway : Nat → Bool) : Session.Event ι → Bool
  | .step i | .expire i _ => underway i
  | .begin _ _ | .client _ _ => true
  | .meanwhile => false

def unlinkDeed (d : Deed (Host σ) Task) : Deed (Host σ) Task := { d with world := d.world.unlink }

/-- How a run on an unlinked host stands to the one without the unlinking. -/
structure Cut (underway : Nat → Bool) (past : List (Session.Event ι))
    (y z : Session ι (Host σ) Task) : Prop where
  world : y.world = z.world.unlink
  length : y.calls.length = z.calls.length
  /-- The calls that were under way are the same in both. -/
  same : ∀ i, underway i = true →
    ∃ id c, y.calls[i]? = some (id, c) ∧ z.calls[i]? = some (id, c) ∧ isIn c = true
  /-- All others are turned away. -/
  others : ∀ i id c, underway i = false → y.calls[i]? = some (id, c) → TurnedAway past i c.progress

theorem cut_start (x : Session ι (Host σ) Task) :
    Cut (isUnderway x) [] (x.onWorld unlink) x where
  world := rfl
  length := rfl
  same i hi := by
    obtain ⟨id, c, hc, hin⟩ := exists_of_isUnderway hi
    exact ⟨id, c, hc, hc, hin⟩
  others i id c hi hc := by
    have hc : x.calls[i]? = some (id, c) := hc
    obtain ⟨call, t | status⟩ := c
    · cases t with
      | arrived m => exact .waiting m
      | _ => simp [isUnderway, hc, isIn, Task.isArrived] at hi
    · simp [isUnderway, hc, isIn] at hi

section Step

variable {underway : Nat → Bool} {past past' : List (Session.Event ι)}
  {y y' z z' : Session ι (Host σ) Task} {j : Nat} {id : ι} {c : Served Task}

theorem Cut.change (h : Cut underway past y z) (hsub : past ⊆ past')
    (hw : y'.world = z'.world.unlink) (hlength : y'.calls.length = z'.calls.length)
    (hy : ∀ i, i ≠ j → y'.calls[i]? = y.calls[i]?) (hz : ∀ i, i ≠ j → z'.calls[i]? = z.calls[i]?)
    (hsame : underway j = true →
      ∃ id c, y'.calls[j]? = some (id, c) ∧ z'.calls[j]? = some (id, c) ∧ isIn c = true)
    (hother : underway j = false →
      ∀ id c, y'.calls[j]? = some (id, c) → TurnedAway past' j c.progress) :
    Cut underway past' y' z' where
  world := hw
  length := hlength
  same i hi := by
    by_cases hij : i = j
    · subst hij
      exact hsame hi
    · rw [hy i hij, hz i hij]
      exact h.same i hi
  others i id c hi hc := by
    by_cases hij : i = j
    · subst hij
      exact hother hi id c hc
    · rw [hy i hij] at hc
      exact (h.others i id c hi hc).mono hsub

theorem Cut.later (h : Cut underway past y z) (e : Session.Event ι) :
    Cut underway (e :: past) y z where
  world := h.world
  length := h.length
  same := h.same
  others i id c hi hc := (h.others i id c hi hc).mono (List.subset_cons_self e past)

theorem Cut.set_same (h : Cut underway past y z) (hsub : past ⊆ past') (hj : underway j = true)
    (hy : y.calls[j]? = some (id, c)) {w : Host σ} {c' : Served Task} (hin : isIn c' = true) :
    Cut underway past' ⟨w.unlink, y.calls.set j (id, c')⟩ ⟨w, z.calls.set j (id, c')⟩ := by
  obtain ⟨hlt, -⟩ := List.getElem?_eq_some_iff.mp hy
  have hlt' : j < z.calls.length := h.length ▸ hlt
  apply h.change (j := j) hsub rfl
  · simp [h.length]
  · exact fun i hi => List.getElem?_set_ne (Ne.symm hi)
  · exact fun i hi => List.getElem?_set_ne (Ne.symm hi)
  · exact fun _ => ⟨id, c', List.getElem?_set_self hlt, List.getElem?_set_self hlt', hin⟩
  · intro hj'
    rw [hj] at hj'
    cases hj'

theorem Cut.set_other (h : Cut underway past y z) (hsub : past ⊆ past') (hj : underway j = false)
    (hy : y.calls[j]? = some (id, c)) {c' : Served Task} (ht : TurnedAway past' j c'.progress)
    {calls : List (ι × Served Task)} (hlength : calls.length = z.calls.length)
    (hz : ∀ i, i ≠ j → calls[i]? = z.calls[i]?) :
    Cut underway past' ⟨y.world, y.calls.set j (id, c')⟩ ⟨z.world, calls⟩ := by
  obtain ⟨hlt, -⟩ := List.getElem?_eq_some_iff.mp hy
  apply h.change (j := j) hsub
  · exact h.world
  · simp [h.length, hlength]
  · exact fun i hi => List.getElem?_set_ne (Ne.symm hi)
  · exact hz
  · intro hj'
    rw [hj] at hj'
    cases hj'
  · intro _ id' c₀ hc₀
    dsimp only at hc₀
    rw [List.getElem?_set_self hlt] at hc₀
    cases hc₀
    exact ht

/-- The two runs after one event more, and the step that was made in it. -/
structure CutNext (underway : Nat → Bool) (past : List (Session.Event ι))
    (y z : Session ι (Host σ) Task) (e : Session.Event ι) : Prop where
  cut : Cut underway (e :: past) (y.play service unlink e)
    (if isKept underway e then z.play service unlink e else z)
  deeds : (y.deed? service e).toList.filter (fun d => underway d.call) =
    (if isKept underway e then (z.deed? service e).toList else []).map unlinkDeed

theorem Cut.next_step (h : Cut underway past y z) (i : Nat) :
    CutNext underway past y z (.step i) := by
  have hsub := List.subset_cons_self (.step i) past
  cases hi : underway i with
  | true =>
      obtain ⟨id, c, hy, hz, hin⟩ := h.same i hi
      have ha := advance_unlink z.world hin
      rw [← h.world] at ha
      cases hstep : c.advance service z.world with
      | none =>
          rw [hstep, Option.map_none] at ha
          constructor
          · rw [Session.play_step_of_waiting hy ha, Session.play_step_of_waiting hz hstep, ite_self]
            exact h.later _
          · rw [Session.deed?_step_of_waiting hy ha, Session.deed?_step_of_waiting hz hstep]
            simp
      | some r =>
          obtain ⟨w, c'⟩ := r
          rw [hstep, Option.map_some] at ha
          obtain ⟨t, ht, -⟩ := move_of_advance hstep
          constructor
          · rw [Session.play_step hy ha, Session.play_step hz hstep, isKept, if_pos hi]
            exact h.set_same hsub hi hy (isIn_advance hstep)
          · rw [Session.deed?_step hy ht ha, Session.deed?_step hz ht hstep, isKept, if_pos hi,
              h.world]
            simp [hi, unlinkDeed]
  | false =>
      have hkept : isKept underway (.step i : Session.Event ι) = false := hi
      obtain ⟨hp, hd⟩ | ⟨id, c, t, w, c', hc, ht, ha⟩ :=
        Session.step_cases service unlink y i
      · constructor
        · rw [hp, hkept]
          exact h.later _
        · rw [hd, hkept]
          rfl
      · obtain ⟨t', ht', hm⟩ := move_of_advance ha
        rw [ht] at ht'
        cases ht'
        have haway := h.others i id c hi hc
        rw [ht] at haway
        have hlinked : y.world.linked = false := by rw [h.world]; rfl
        obtain ⟨hw, -, haway'⟩ := haway.move hlinked hm
        constructor
        · rw [Session.play_step hc ha, hkept, hw]
          exact h.set_other hsub hi hc (haway'.mono hsub) rfl fun _ _ => rfl
        · rw [Session.deed?_step hc ht ha, hkept]
          simp [hi]

theorem Cut.next_begin (h : Cut underway past y z) (id : ι) (call : Call) :
    CutNext underway past y z (.begin id call) := by
  have hnew : underway y.calls.length = false := by
    apply Bool.eq_false_iff.mpr
    intro hu
    obtain ⟨id, c, hc, -⟩ := h.same _ hu
    simp at hc
  refine ⟨?_, by simp [Session.deed?]⟩
  rw [isKept, if_pos rfl]
  have others {calls : List (ι × Served Task)} {new : ι × Served Task} {i : Nat}
      (hi : i ≠ calls.length) : (calls ++ [new])[i]? = calls[i]? := by
    rw [List.getElem?_append]
    split
    · rfl
    · rw [List.getElem?_eq_none (by simp; omega), List.getElem?_eq_none (by omega)]
  apply h.change (j := y.calls.length) (List.subset_cons_self _ _)
  · exact h.world
  · simp [Session.play, h.length]
  · exact fun i hi => others hi
  · exact fun i hi => others (h.length ▸ hi)
  · intro hu
    rw [hnew] at hu
    cases hu
  · intro _ id' c hc
    simp only [Session.play, List.getElem?_concat_length, Option.some.injEq, Prod.mk.injEq] at hc
    rw [← hc.2]
    exact .waiting call.method

theorem Cut.next_client (h : Cut underway past y z) (i : Nat) (f : Call → Call) :
    CutNext underway past y z (.client i f) := by
  have hsub := List.subset_cons_self (.client i f) past
  refine ⟨?_, by simp [Session.deed?]⟩
  rw [isKept, if_pos rfl]
  cases hi : underway i with
  | true =>
      obtain ⟨id, c, hy, hz, hin⟩ := h.same i hi
      rw [Session.play_client hy, Session.play_client hz, h.world]
      exact h.set_same hsub hi hy hin
  | false =>
      cases hy : y.calls[i]? with
      | none =>
          have hz : z.calls[i]? = none := by simpa [h.length] using hy
          rw [Session.play_client_of_none hy, Session.play_client_of_none hz]
          exact h.later _
      | some call =>
          obtain ⟨id, c⟩ := call
          have haway : TurnedAway past i (c.onCall f).progress := h.others i id c hi hy
          rw [Session.play_client hy]
          cases hz : z.calls[i]? with
          | none =>
              rw [Session.play_client_of_none hz]
              exact h.set_other hsub hi hy (haway.mono hsub) rfl fun _ _ => rfl
          | some call' =>
              rw [Session.play_client hz]
              exact h.set_other hsub hi hy (haway.mono hsub) (by simp)
                fun k hk => List.getElem?_set_ne (Ne.symm hk)

theorem Cut.next_expire (h : Cut underway past y z) (i : Nat) (status : Status) :
    CutNext underway past y z (.expire i status) := by
  have hsub := List.subset_cons_self (.expire i status) past
  cases hi : underway i with
  | true =>
      refine ⟨?_, by simp [Session.deed?]⟩
      rw [isKept, if_pos hi]
      obtain ⟨id, c, hy, hz, hin⟩ := h.same i hi
      cases ht : c.progress with
      | ended status' =>
          rw [Session.play_expire_of_ended hy ht, Session.play_expire_of_ended hz ht]
          exact h.later _
      | running t =>
          rw [Session.play_expire hy ht, Session.play_expire hz ht, h.world]
          have habandon : (service (σ := σ)).abandon z.world.unlink t =
              (service.abandon z.world t).unlink := release_unlink z.world t.ticket
          rw [habandon]
          exact h.set_same hsub hi hy rfl
  | false =>
      refine ⟨?_, by simp [Session.deed?]⟩
      rw [isKept, hi]
      cases hy : y.calls[i]? with
      | none =>
          rw [Session.play_expire_of_none hy]
          exact h.later _
      | some call =>
          obtain ⟨id, c⟩ := call
          have haway := h.others i id c hi hy
          cases ht : c.progress with
          | ended status' =>
              rw [Session.play_expire_of_ended hy ht]
              exact h.later _
          | running t =>
              rw [Session.play_expire hy ht]
              rw [ht] at haway
              have habandon : service.abandon y.world t = y.world := by
                have hticket : t.ticket = none := by cases haway <;> rfl
                show y.world.release t.ticket = y.world
                rw [hticket, release_none]
              rw [habandon]
              exact h.set_other hsub hi hy (.expired (by simp)) rfl fun _ _ => rfl

theorem Cut.next (h : Cut underway past y z) (e : Session.Event ι) :
    CutNext underway past y z e := by
  cases e with
  | step i => exact h.next_step i
  | «begin» id call => exact h.next_begin id call
  | client i f => exact h.next_client i f
  | expire i status => exact h.next_expire i status
  | meanwhile =>
      refine ⟨?_, rfl⟩
      obtain ⟨hw, hlength, hsame, hothers⟩ := h.later .meanwhile
      exact ⟨by simp [Session.play, hw, isKept, unlink], hlength, hsame, hothers⟩

end Step

theorem Cut.follow {underway : Nat → Bool} {past : List (Session.Event ι)}
    {y z : Session ι (Host σ) Task} (h : Cut underway past y z) (events : List (Session.Event ι)) :
    Cut underway (events.reverse ++ past) (y.follow service unlink events)
        (z.follow service unlink (events.filter (isKept underway))) ∧
      (y.deeds service unlink events).filter (fun d => underway d.call) =
        (z.deeds service unlink (events.filter (isKept underway))).map unlinkDeed := by
  induction events generalizing past y z with
  | nil => exact ⟨h, rfl⟩
  | cons e rest ih =>
      obtain ⟨hcut, hdeeds⟩ := h.next e
      obtain ⟨hrest, hmore⟩ := ih hcut
      rw [List.reverse_cons, List.append_assoc, List.singleton_append, Session.follow,
        Session.deeds, List.filter_append, hdeeds]
      cases hkept : isKept underway e with
      | true =>
          rw [hkept, if_pos rfl] at hrest hmore
          rw [List.filter_cons_of_pos hkept, Session.follow, Session.deeds, List.map_append,
            hmore, if_pos rfl]
          exact ⟨hrest, rfl⟩
      | false =>
          simp only [hkept, Bool.false_eq_true, if_false] at hrest hmore
          rw [List.filter_cons_of_neg (by simp [hkept]), hmore]
          exact ⟨hrest, rfl⟩

/-- Every step for a call that was not under way is one of turning it away, on an unlinked host. -/
theorem Cut.turnedAway_of_mem_deeds {underway : Nat → Bool} {past : List (Session.Event ι)}
    {y z : Session ι (Host σ) Task} (h : Cut underway past y z) {events : List (Session.Event ι)}
    {d : Deed (Host σ) Task} (hd : d ∈ y.deeds service unlink events)
    (hu : underway d.call = false) :
    d.world.linked = false ∧
      ∃ earlier : List (Session.Event ι), TurnedAway earlier d.call (.running d.task) := by
  induction events generalizing past y z with
  | nil => cases hd
  | cons e rest ih =>
      rw [Session.deeds, List.mem_append] at hd
      rcases hd with hd | hd
      · cases e with
        | step i =>
            obtain ⟨-, hnone⟩ | ⟨id, c, t, w, c', hc, ht, ha⟩ :=
              Session.step_cases service unlink y i
            · rw [hnone] at hd
              cases hd
            · rw [Session.deed?_step hc ht ha] at hd
              simp only [Option.toList_some, List.mem_singleton] at hd
              subst hd
              have haway := h.others i id c hu hc
              rw [ht] at haway
              exact ⟨by rw [h.world]; rfl, past, haway⟩
        | «begin» | client | expire | meanwhile => cases hd
      · exact ih (h.next e).cut hd

/-- Unlinking is a clean cut, whatever the calls of a session are doing at that moment and whatever
happens afterwards. Beside the run with the unlinking stands the one without it, along the same
schedule with nothing done for the calls that come too late. The calls that were under way are the
same at the end of both, with the same responses and the same status, and they have made the same
steps, one for one, on hosts that differ in being linked only. All others are turned away, which
leaves the host and both ends of the call as they are, and they wait for nothing. The host stays
unlinked, and unlinking it again changes nothing. -/
theorem unlink_cuts (x : Session ι (Host σ) Task) (schedule : List (Session.Event ι)) :
    let cut := x.onWorld unlink
    let kept := schedule.filter (isKept (isUnderway x))
    let y := cut.follow service unlink schedule
    let z := x.follow service unlink kept
    (∀ i, isUnderway x i = true → y.calls[i]? = z.calls[i]?) ∧
    (cut.deeds service unlink schedule).filter (fun d => isUnderway x d.call) =
      (x.deeds service unlink kept).map unlinkDeed ∧
    (∀ i id c, isUnderway x i = false → y.calls[i]? = some (id, c) →
      TurnedAway schedule i c.progress ∧
      (c.advance service y.world = none →
        c.progress = .ended notLinked ∨
          ∃ status, .expire i status ∈ schedule ∧ c.progress = .ended status)) ∧
    (∀ d ∈ cut.deeds service unlink schedule, isUnderway x d.call = false →
      ((∃ m, d.task = .arrived m) ∨ d.task = .leaving none notLinked) ∧
      ∀ (c c' : Served Task) (h' : Host σ), c.progress = .running d.task →
        c.advance service d.world = some (h', c') → h' = d.world ∧ c'.toCall = c.toCall) ∧
    y.world = z.world.unlink ∧ y.world.linked = false ∧ y.world.state? = none ∧
    y.world.unlink = y.world := by
  intro cut kept y z
  obtain ⟨hcut, hdeeds⟩ := (cut_start x).follow schedule
  have hworld : y.world = z.world.unlink := hcut.world
  refine ⟨?_, hdeeds, ?_, ?_, hworld, ?_, ?_, ?_⟩
  · intro i hi
    obtain ⟨id, c, hy, hz, -⟩ := hcut.same i hi
    exact hy.trans hz.symm
  · intro i id c hi hc
    have haway : TurnedAway schedule i c.progress :=
      (hcut.others i id c hi hc).mono (by simp)
    refine ⟨haway, fun hwaits => ?_⟩
    cases ht : c.progress with
    | running t =>
        rw [ht] at haway
        obtain ⟨h', c', p, hm⟩ := haway.exists_move y.world c.toCall
        have ha := advance_of_move hm
        obtain ⟨call, progress⟩ := c
        cases ht
        rw [hwaits] at ha
        cases ha
    | ended status =>
        rw [ht] at haway
        cases haway with
        | ended => exact .inl rfl
        | expired he => exact .inr ⟨status, he, rfl⟩
  · intro d hd hu
    obtain ⟨hlinked, earlier, haway⟩ := (cut_start x).turnedAway_of_mem_deeds hd hu
    constructor
    · generalize d.task = t at haway
      cases haway with
      | waiting m => exact .inl ⟨m, rfl⟩
      | leaving => exact .inr rfl
    · intro c c' h' ht ha
      obtain ⟨t, ht', hm⟩ := move_of_advance ha
      rw [ht] at ht'
      cases ht'
      obtain ⟨hh, hcall, -⟩ := haway.move hlinked hm
      exact ⟨hh, hcall⟩
  · rw [hworld]
    rfl
  · rw [hworld]
    rfl
  · rw [hworld]
    rfl

def setupEvents (i : Nat) : List (Session.Event Unit) :=
  .begin () ⟨.negotiate .setup, ⟨[.ok .empty], false⟩, ⟨[], none, true⟩, false⟩ ::
    List.replicate 7 (.step i)

def snapshotEvents (i : Nat) : List (Session.Event Unit) :=
  .begin () ⟨.compute .function, ⟨[], false⟩, ⟨[], none, true⟩, false⟩ ::
    List.replicate 2 (.step i)

/-- One schedule with and without the unlinking, and nothing left out: a computation has its snapshot
when a setup comes late. The setup is turned away and the computation succeeds, or the setup succeeds
and the computation is refused. -/
theorem late_setup_spoils_snapshot :
    let host : Host Unit := (register { kind := .explicit } () .concurrent).2
    let x := Session.follow service unlink ⟨host, []⟩ (setupEvents 0 ++ snapshotEvents 1)
    let schedule := setupEvents 2 ++ List.replicate 4 (.step 1)
    isUnderway x 1 = true ∧
      ((x.onWorld unlink).follow service unlink schedule).calls.map (fun c => c.2.status?) =
        [some .ok, some .ok, some notLinked] ∧
      (x.follow service unlink schedule).calls.map (fun c => c.2.status?) =
        [some .ok, some ⟨.failedPrecondition,
          "precondition failed: discipline was set up again while the call was in flight"⟩,
          some .ok] :=
  ⟨rfl, rfl, rfl⟩

end Host

end RemoteDiscipline
