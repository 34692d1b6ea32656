import RemoteDiscipline.Plan
import RemoteDiscipline.Proofs.Chunks
/-!
Which chunks are planned.

A plan for values of the right lengths lists all their pieces, one value after another, and ends well;
what comes before each chunk on the way does not depend on who sends it.
-/

namespace RemoteDiscipline

namespace Plan

def chunks (p : Plan) : List Chunk := p.parcels.map (·.chunk)

/-- A plan that ends well, and sends just these chunks. -/
structure Sends (p : Plan) (cs : List Chunk) : Prop where
  ending : p.ending = .ok ()
  chunks : p.chunks = cs

theorem sends_empty : empty.Sends [] := ⟨rfl, rfl⟩

/-- Behind a plan that ends well, the next one decides. -/
theorem append_of_ending {p : Plan} (h : p.ending = .ok ()) (q : Plan) :
    (p.append q).chunks = p.chunks ++ q.chunks ∧ (p.append q).ending = q.ending := by
  have happend : p.append q = ⟨p.parcels ++ q.parcels, q.ending⟩ := by rw [Plan.append, h]
  rw [happend]
  exact ⟨List.map_append, rfl⟩

theorem Sends.append {p q : Plan} {cs ds : List Chunk} (hp : p.Sends cs) (hq : q.Sends ds) :
    (p.append q).Sends (cs ++ ds) := by
  obtain ⟨hchunks, hending⟩ := append_of_ending hp.ending q
  exact ⟨hending.trans hq.ending, by rw [hchunks, hp.chunks, hq.chunks]⟩

theorem sends_concat {α : Type} {plan : α → Plan} {cs : α → List Chunk} {l : List α}
    (h : ∀ a ∈ l, (plan a).Sends (cs a)) : (concat (l.map plan)).Sends (l.flatMap cs) := by
  induction l with
  | nil => exact sends_empty
  | cons a l ih =>
      rw [List.map_cons, List.flatMap_cons]
      exact (h a (by simp)).append (ih fun b hb => h b (by simp [hb]))

theorem sends_ofVariable (tag : Tag) (v : Variable) {size : Nat} (hsize : 1 ≤ size) :
    (ofVariable tag v size).Sends (v.pieces tag size) := by
  rw [ofVariable, v.chunks_eq tag hsize]
  refine ⟨rfl, ?_⟩
  rw [Plan.chunks, List.map_map]
  exact List.zipIdx_map_fst 0 (v.pieces tag size)

theorem sends_ofVariables (l : List (Tag × Variable)) {size : Nat} (hsize : 1 ≤ size) :
    (ofVariables l size).Sends (l.flatMap fun p => p.2.pieces p.1 size) :=
  sends_concat fun p _ => sends_ofVariable p.1 p.2 hsize

theorem ending_of_append {p q : Plan} (h : (p.append q).ending = .ok ()) :
    p.ending = .ok () ∧ q.ending = .ok () := by
  unfold append at h
  split at h
  · rename_i hp
    exact ⟨hp, h⟩
  · rename_i e hp
    cases hp.symm.trans h

theorem ending_of_concat {plans : List Plan} (h : (concat plans).ending = .ok ()) :
    ∀ p ∈ plans, p.ending = .ok () := by
  induction plans with
  | nil => simp
  | cons p plans ih =>
      obtain ⟨hp, hrest⟩ := ending_of_append h
      simpa [hp] using ih hrest

theorem mem_chunks_of_concat {plans : List Plan} {c : Chunk} (h : c ∈ (concat plans).chunks) :
    ∃ p ∈ plans, c ∈ p.chunks := by
  induction plans with
  | nil => cases h
  | cons p plans ih =>
      change c ∈ (p.append (concat plans)).chunks at h
      unfold append at h
      split at h
      · rw [chunks, List.map_append, List.mem_append] at h
        rcases h with hp | hrest
        · exact ⟨p, by simp, hp⟩
        · obtain ⟨q, hq, hc⟩ := ih hrest
          exact ⟨q, by simp [hq], hc⟩
      · exact ⟨p, by simp, h⟩

/-- Carrying out a plan looks at nothing but what `stop` and `send` make of a state. -/
theorem transmit_map {s t : Type} {stop : s → Bool} {send : Chunk → s → Except Error Unit × s}
    {stop' : t → Bool} {send' : Chunk → t → Except Error Unit × t} (f : t → s)
    (hstop : ∀ x, stop (f x) = stop' x)
    (hsend : ∀ k x, send k (f x) = ((send' k x).1, f (send' k x).2)) (p : Plan) (x : t) :
    p.transmit stop send (f x) =
      ((p.transmit stop' send' x).1, f (p.transmit stop' send' x).2) := by
  suffices hgo : ∀ parcels x, transmit.go stop send p parcels (f x) =
      ((transmit.go stop' send' p parcels x).1, f (transmit.go stop' send' p parcels x).2) from
    hgo p.parcels x
  intro parcels
  induction parcels with
  | nil => exact fun x => rfl
  | cons parcel parcels ih =>
      intro x
      rw [transmit.go, transmit.go, hstop, hsend]
      cases stop' x with
      | true => rfl
      | false =>
          obtain ⟨_ | _, x'⟩ := send' parcel.chunk x
          · rfl
          · exact ih x'

end Plan

namespace Outcome

theorem checked_eq_ok {o : Outcome} {hook : Hook} {x : Variable} :
    o.checked hook = .ok x ↔ o.value = some x ∧ x.length = o.shape.count := by
  unfold checked
  cases o.value with
  | none => simp
  | some v =>
      dsimp only
      split <;> simp
      · rintro rfl
        assumption
      · rintro rfl
        assumption

def pieces (size : Nat) (o : Outcome) : List Chunk :=
  match o.value with
  | none => []
  | some x => x.pieces o.tag size

/-- Whether all of some results are there, with their declared lengths. -/
def AllThere (l : List Outcome) : Prop :=
  ∀ o ∈ l, ∃ x, o.value = some x ∧ x.length = o.shape.count

theorem sends_plan {o : Outcome} (h : ∃ x, o.value = some x ∧ x.length = o.shape.count) (hook : Hook)
    {size : Nat} (hsize : 1 ≤ size) : (o.plan hook size).Sends (o.pieces size) := by
  obtain ⟨x, hx, hlength⟩ := h
  rw [plan, checked_eq_ok.mpr ⟨hx, hlength⟩, pieces, hx]
  exact Plan.sends_ofVariable o.tag x hsize

end Outcome

/-- When a hook leaves all results, the reply consists of all their pieces. -/
theorem Plan.sends_reply {m : Metadata} {k : Computation} {values : k.Values}
    (h : Outcome.AllThere (m.outcomes k.yield values)) {size : Nat} (hsize : 1 ≤ size) :
    (reply m size k values).Sends
      ((m.outcomes k.yield values).flatMap (Outcome.pieces size)) :=
  sends_concat fun o ho => Outcome.sends_plan (h o ho) _ hsize

theorem Plan.allThere_of_reply {m : Metadata} {size : Nat} {k : Computation} {values : k.Values}
    (h : (reply m size k values).ending = .ok ()) :
    Outcome.AllThere (m.outcomes k.yield values) := by
  intro o ho
  have hplan := ending_of_concat h _ (List.mem_map_of_mem ho)
  unfold Outcome.plan at hplan
  split at hplan
  · rename_i x hx
    exact ⟨x, Outcome.checked_eq_ok.mp hx⟩
  · cases hplan

theorem Plan.exists_piece_of_reply {m : Metadata} {size : Nat} (hsize : 1 ≤ size) {k : Computation}
    {values : k.Values} {c : Chunk} (h : c ∈ (reply m size k values).chunks) :
    ∃ o ∈ m.outcomes k.yield values, ∃ x i, x.length = o.shape.count ∧
      c = Variable.piece x o.tag size i := by
  obtain ⟨p, hp, hc⟩ := mem_chunks_of_concat h
  obtain ⟨o, ho, rfl⟩ := List.mem_map.mp hp
  unfold Outcome.plan at hc
  split at hc
  · rename_i x hx
    rw [(sends_ofVariable o.tag x hsize).chunks, Variable.pieces, List.mem_map] at hc
    obtain ⟨i, -, rfl⟩ := hc
    exact ⟨o, ho, x, i, (Outcome.checked_eq_ok.mp hx).2, rfl⟩
  · cases hc

end RemoteDiscipline
