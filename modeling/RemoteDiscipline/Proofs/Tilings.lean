import Mathlib.Data.List.Induction
import RemoteDiscipline.Client.Assembly
import RemoteDiscipline.Proofs.Delivery
/-!
Which chunks make up one result, whoever sends them.

A slot counts the values that have arrived, and the next chunk has to start at that count. This one
number rules out gaps, overlaps, repetitions and overruns: after any chunks that it takes a slot
holds their payloads one behind the other, over the zeros it began with (`Slot.Holds`). So the
declared length and the count decide whether a chunk comes next (`Chunk.Continues`), and a result is
there in full exactly when its chunks tile it (`Chunk.complete_iff`).
-/

namespace RemoteDiscipline

/-! ### The chunks of one result -/

namespace Chunk

def payload (cs : List Chunk) : List Binary64 := cs.flatMap (·.data)

@[simp] theorem payload_nil : payload [] = [] := rfl

@[simp] theorem payload_cons (c : Chunk) (cs : List Chunk) :
    payload (c :: cs) = c.data ++ payload cs := List.flatMap_cons

@[simp] theorem payload_append (cs ds : List Chunk) :
    payload (cs ++ ds) = payload cs ++ payload ds := List.flatMap_append

/-- Whether a chunk comes next for a buffer of `length` values when `arrived` of them are there. -/
def Continues (c : Chunk) (length arrived : Nat) : Prop :=
  (length = 0 ∧ c.isFraming) ∨
    (c.data ≠ [] ∧ c.start = arrived ∧ c.stop = arrived + c.data.length - 1 ∧
      arrived + c.data.length ≤ length)

def Unbroken (length : Nat) (cs : List Chunk) : Prop :=
  ∀ (before : List Chunk) (c : Chunk) (after : List Chunk), cs = before ++ c :: after →
    c.Continues length (payload before).length

/-- Chunks that tile the positions of a buffer from left to right. -/
structure Tile (length : Nat) (cs : List Chunk) : Prop where
  carries : ∀ c ∈ cs, c.data ≠ []
  start : ∀ (before : List Chunk) (c : Chunk) (after : List Chunk), cs = before ++ c :: after →
    c.start = (payload before).length
  stop : ∀ c ∈ cs, c.stop = c.start + c.data.length - 1
  last : ∃ c, cs.getLast? = some c ∧ c.stop = (length : Int) - 1

/-- Chunks that make up a buffer of `length` values: a buffer without values takes only chunks that
stand for it, and any other buffer has to be tiled. -/
def Complete (length : Nat) (cs : List Chunk) : Prop :=
  (length = 0 ∧ ∀ c ∈ cs, c.isFraming) ∨ (0 < length ∧ Tile length cs)

variable {length : Nat} {cs : List Chunk} {c : Chunk}

theorem data_of_isFraming (h : c.isFraming) : c.data = [] := by
  simp only [isFraming, Bool.and_eq_true, List.isEmpty_iff] at h
  exact h.1.1

theorem payload_of_isFraming (h : ∀ c ∈ cs, c.isFraming) : payload cs = [] := by
  simpa [payload, List.flatMap_eq_nil_iff] using fun c hc => data_of_isFraming (h c hc)

@[simp] theorem unbroken_nil : Unbroken length [] := by
  rintro before c after h
  simp at h

@[simp] theorem unbroken_concat :
    Unbroken length (cs ++ [c]) ↔ Unbroken length cs ∧ c.Continues length (payload cs).length := by
  constructor
  · intro h
    exact ⟨fun before d after hcs => h before d (after ++ [c]) (by simp [hcs]), h cs c [] rfl⟩
  · rintro ⟨hcs, hc⟩ before d after h
    rcases List.eq_nil_or_concat after with rfl | ⟨after, e, rfl⟩
    · obtain ⟨rfl, hd⟩ := List.append_inj' h rfl
      obtain rfl : c = d := by simpa using hd
      exact hc
    · rw [List.concat_eq_append, ← List.cons_append, ← List.append_assoc] at h
      exact hcs before d after (List.append_inj' h rfl).1

/-- A stream makes up a buffer exactly when each chunk comes next and in the end nothing is missing.
-/
theorem complete_iff : Complete length cs ↔ Unbroken length cs ∧ (payload cs).length = length := by
  constructor
  · rintro (⟨rfl, hframing⟩ | ⟨hlength, htile⟩)
    · refine ⟨?_, by simp [payload_of_isFraming hframing]⟩
      rintro before c after rfl
      exact .inl ⟨rfl, hframing c (by simp)⟩
    · -- The last chunk ends where the buffer ends, so no chunk before it can reach any further.
      obtain ⟨last, hlast, hstop⟩ := htile.last
      obtain ⟨most, rfl⟩ := List.getLast?_eq_some_iff.mp hlast
      have hend := htile.stop last (by simp)
      rw [htile.start most last [] rfl] at hend
      have hall : (payload (most ++ [last])).length = length := by
        simp only [payload_append, payload_cons, payload_nil, List.append_nil, List.length_append]
        omega
      refine ⟨?_, hall⟩
      intro before c after h
      have hmem : c ∈ most ++ [last] := by simp [h]
      have hstart := htile.start before c after h
      have hstop := htile.stop c hmem
      rw [h] at hall
      simp only [payload_append, payload_cons, List.length_append] at hall
      exact .inr ⟨htile.carries c hmem, hstart, by omega, by omega⟩
  · rintro ⟨hunbroken, hall⟩
    rcases Nat.eq_zero_or_pos length with rfl | hlength
    · refine .inl ⟨rfl, fun c hc => ?_⟩
      obtain ⟨before, after, rfl⟩ := List.append_of_mem hc
      rcases hunbroken before c after rfl with ⟨-, hframing⟩ | ⟨hdata, -, -, hle⟩
      · exact hframing
      · have := List.length_pos_iff.mpr hdata
        omega
    · have htile (before : List Chunk) (c : Chunk) (after : List Chunk)
          (h : cs = before ++ c :: after) :
          c.data ≠ [] ∧ c.start = (payload before).length ∧
            c.stop = (payload before).length + c.data.length - 1 ∧
            (payload before).length + c.data.length ≤ length := by
        rcases hunbroken before c after h with ⟨hzero, -⟩ | hnext
        · omega
        · exact hnext
      refine .inr ⟨hlength, ⟨?_, fun before c after h => (htile before c after h).2.1, ?_, ?_⟩⟩
      · intro c hc
        obtain ⟨before, after, h⟩ := List.append_of_mem hc
        exact (htile before c after h).1
      · intro c hc
        obtain ⟨before, after, h⟩ := List.append_of_mem hc
        obtain ⟨-, hstart, hstop, -⟩ := htile before c after h
        omega
      · rcases List.eq_nil_or_concat cs with rfl | ⟨most, last, rfl⟩
        · simp at hall
          omega
        · rw [List.concat_eq_append] at hall htile ⊢
          obtain ⟨-, -, hstop, -⟩ := htile most last [] rfl
          simp only [payload_append, payload_cons, payload_nil, List.append_nil,
            List.length_append] at hall
          exact ⟨last, by simp, by omega⟩

end Chunk

open Chunk

/-! ### Slots -/

namespace Slot

variable {v : Variable} {p : List Binary64} {s s' : Slot} {c : Chunk} {label : String}

structure Holds (v : Variable) (p : List Binary64) (s : Slot) : Prop where
  outline : s.value.outline = v.outline
  data : s.value.data = p ++ v.data.drop p.length
  arrived : s.arrived = p.length

theorem holds_empty (v : Variable) : (empty v).Holds v [] := ⟨rfl, rfl, rfl⟩

theorem Holds.length_eq (h : s.Holds v p) : s.value.length = v.length := by
  have hshape : s.value.shape = v.shape := congrArg Prod.snd h.outline
  rw [Variable.length, Variable.length, s.value.length_eq, v.length_eq, hshape]

theorem Holds.accept_isOk_iff (h : s.Holds v p) (label : String) (c : Chunk) :
    (∃ s', s.accept label c = .ok s') ↔ c.Continues v.length p.length := by
  unfold accept Continues
  simp only [Bool.and_eq_true, Variable.isEmpty_iff, h.length_eq, h.arrived]
  split
  · rename_i hframing
    exact ⟨fun _ => .inl hframing, fun _ => ⟨s, rfl⟩⟩
  · rename_i hframing
    split
    · rename_i hstart
      constructor
      · rintro ⟨s', hs'⟩
        cases hs'
      · rintro (hc | ⟨-, hc, -⟩)
        · exact absurd hc hframing
        · exact absurd hc hstart
    · rename_i hstart
      have hassign : (∃ s', (s.value.assign c).map
          (fun v => (⟨v, p.length + c.data.length⟩ : Slot)) = .ok s') ↔ ∃ v', s.value.assign c = .ok v' := by
        cases s.value.assign c <;> simp [Except.map]
      rw [hassign, Variable.assign_isOk_iff, h.length_eq, HasPlace]
      simp only [hframing, false_or, Prod.exists, targetRange_eq_ok, ← List.length_pos_iff]
      constructor
      · rintro ⟨a, b, ha, hb, hlt, hle, hdata⟩
        omega
      · rintro ⟨hdata, ha, hb, hle⟩
        exact ⟨p.length, p.length + c.data.length, by omega, by omega, by omega, hle, by omega⟩

/-- What a slot takes stands behind all that it took before. -/
theorem Holds.accept (h : s.Holds v p) (hs : s.accept label c = .ok s') :
    s'.Holds v (p ++ c.data) := by
  unfold Slot.accept at hs
  split at hs
  · rename_i hframing
    cases hs
    rw [data_of_isFraming (Bool.and_eq_true _ _ ▸ hframing).2, List.append_nil]
    exact h
  · rename_i hframing
    split at hs
    · cases hs
    · rename_i hstart
      obtain ⟨v', hv', rfl⟩ := exists_of_map_eq_ok hs
      rcases Variable.assign_cases hv' with ⟨hzero, -⟩ | ⟨a, b, hrange, houtline, hwritten⟩
      · rw [Bool.and_eq_true, Variable.isEmpty_iff] at hframing
        exact absurd hzero hframing
      · obtain ⟨ha, -, -, -, -⟩ := targetRange_eq_ok.mp hrange
        obtain rfl : a = p.length := by
          have := h.arrived
          omega
        refine ⟨houtline.trans h.outline, ?_, ?_⟩
        · rw [hwritten]
          simp [Variable.overlay, h.data, List.drop_append, List.drop_drop]
        · simp [h.arrived]

end Slot

end RemoteDiscipline
