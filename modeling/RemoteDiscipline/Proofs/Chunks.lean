import RemoteDiscipline.Chunk
/-!
The pieces of a buffer, put together again.

A buffer is cut at the multiples of the chunk size. When its pieces are written in order over
another buffer of the same length, what has been written so far is a beginning of the first buffer,
and the rest still belongs to the second (`Variable.assign_piece`).
-/

namespace RemoteDiscipline

namespace Chunk

/-- Where the `i`-th chunk of a buffer starts, and the one before it ends. -/
def position (length size i : Nat) : Nat := min (i * size) length

/-- How many chunks a buffer needs, when the chunk size can be used. -/
def needed (length size : Nat) : Nat := max 1 ((length + size - 1) / size)

variable {length size i : Nat}

theorem count_eq (hsize : 1 ≤ size) : count length size = .ok (needed length size) := by
  rw [count, if_neg (by omega), needed]

theorem position_zero (length size : Nat) : position length size 0 = 0 := by
  rw [position, Nat.zero_mul, Nat.zero_min]

theorem position_le (length size i : Nat) : position length size i ≤ length := Nat.min_le_right _ _

theorem mul_lt_of_lt_needed (hsize : 1 ≤ size) (hi : i < needed length size) (hlength : 0 < length) :
    i * size < length := by
  by_cases hzero : i = 0
  · rw [hzero, Nat.zero_mul]
    exact hlength
  · have hdiv : i + 1 ≤ (length + size - 1) / size := by
      rw [needed] at hi
      omega
    have hmul := (Nat.le_div_iff_mul_le hsize).mp hdiv
    rw [Nat.succ_mul] at hmul
    omega

/-- The chunks reach the end of the buffer. -/
theorem le_needed_mul (hsize : 1 ≤ size) : length ≤ needed length size * size := by
  have hlast := Nat.lt_mul_div_succ (length + size - 1) hsize
  have hle : (length + size - 1) / size ≤ needed length size := Nat.le_max_right _ _
  have hmul := Nat.mul_le_mul_right size hle
  rw [Nat.mul_succ, Nat.mul_comm] at hlast
  omega

theorem position_needed (hsize : 1 ≤ size) :
    position length size (needed length size) = length :=
  Nat.min_eq_right (le_needed_mul hsize)

theorem position_lt (hsize : 1 ≤ size) (hi : i < needed length size) (hlength : 0 < length) :
    position length size i < position length size (i + 1) := by
  have hlt := mul_lt_of_lt_needed hsize hi hlength
  rw [position, position, Nat.succ_mul]
  omega

end Chunk

open Chunk

namespace Variable

def piece (v : Variable) (tag : Tag) (size i : Nat) : Chunk :=
  tag.chunk (position v.length size i) (position v.length size (i + 1))
    ((v.data.drop (position v.length size i)).take
      (position v.length size (i + 1) - position v.length size i))

def pieces (v : Variable) (tag : Tag) (size : Nat) : List Chunk :=
  (List.range (needed v.length size)).map (v.piece tag size)

theorem chunks_eq (v : Variable) (tag : Tag) {size : Nat} (hsize : 1 ≤ size) :
    v.chunks tag size = .ok (v.pieces tag size) := by
  rw [chunks, ranges, count_eq hsize]
  show Except.ok (((List.range _).map _).map _) = Except.ok _
  rw [List.map_map]
  rfl

/-- The beginning of `x` with the rest of `y` behind it. -/
def blend (y x : Variable) (h : x.data.length = y.data.length) (p : Nat) : Variable :=
  y.withData (x.data.take p ++ y.data.drop p) (by
    rw [List.length_append, List.length_take, List.length_drop]
    omega)

variable {x y : Variable} {tag : Tag} {size i : Nat}

theorem ext_data (hrole : x.role = y.role) (hshape : x.shape = y.shape) (hdata : x.data = y.data) :
    x = y := by
  cases x
  cases y
  cases hrole
  cases hshape
  cases hdata
  rfl

theorem blend_zero (h : x.data.length = y.data.length) : y.blend x h 0 = y := by
  apply ext_data
  · rfl
  · rfl
  · rfl

theorem blend_length (h : x.data.length = y.data.length) :
    y.blend x h x.length = y.withData x.data h := by
  apply ext_data
  · rfl
  · rfl
  · show x.data.take x.data.length ++ y.data.drop x.data.length = x.data
    rw [List.take_length, h, List.drop_length, List.append_nil]

theorem length_blend (h : x.data.length = y.data.length) (p : Nat) :
    (y.blend x h p).length = x.length := by
  show (x.data.take p ++ y.data.drop p).length = x.data.length
  rw [List.length_append, List.length_take, List.length_drop]
  omega

/-- The next piece, behind what has been taken over, is taken over as well. -/
theorem overlay_blend (h : x.data.length = y.data.length) {p q : Nat} (hpq : p ≤ q)
    (hq : q ≤ x.data.length) :
    overlay (x.data.take p ++ y.data.drop p) p ((x.data.drop p).take (q - p)) =
      x.data.take q ++ y.data.drop q := by
  have hp : (x.data.take p).length = p := by
    rw [List.length_take]
    omega
  have hlen : ((x.data.drop p).take (q - p)).length = q - p := by
    rw [List.length_take, List.length_drop]
    omega
  have htake : (x.data.take p ++ y.data.drop p).take p = x.data.take p := by
    rw [List.take_append_of_le_length (by omega), List.take_of_length_le (by omega)]
  have hdrop : (x.data.take p ++ y.data.drop p).drop q = y.data.drop q := by
    rw [List.drop_append, hp, List.drop_of_length_le (by omega), List.nil_append, List.drop_drop]
    congr 1
    omega
  have hjoin : x.data.take p ++ (x.data.drop p).take (q - p) = x.data.take q := by
    rw [← List.take_add]
    congr 1
    omega
  rw [overlay, hlen, Nat.add_sub_cancel' hpq, htake, hdrop, hjoin]

/-- A piece that holds something goes exactly where it was cut out. -/
theorem targetRange_piece (hsize : 1 ≤ size) (hi : i < needed x.length size)
    (hlength : 0 < x.length) :
    (x.piece tag size i).targetRange x.length =
      .ok (position x.length size i, position x.length size (i + 1)) := by
  have hlt := position_lt hsize hi hlength
  have hle := position_le x.length size (i + 1)
  rw [targetRange_eq_ok]
  refine ⟨rfl, ?_, hlt, hle, ?_⟩
  · simp only [piece, Tag.chunk, Nat.not_le.mpr hlt, if_false]
    omega
  · show ((x.data.drop _).take _).length = _
    rw [List.length_take, List.length_drop]
    rw [length] at hle ⊢
    omega

theorem isFraming_piece (hlength : x.length = 0) : (x.piece tag size i).isFraming := by
  have hposition (j : Nat) : position x.length size j = 0 := by
    have := position_le x.length size j
    omega
  simp [isFraming, piece, Tag.chunk, hposition]

theorem assign_of_targetRange {v : Variable} {c : Chunk} {a b : Nat} (hv : ¬ v.isEmpty)
    (h : c.targetRange v.length = .ok (a, b)) :
    ∃ hlength, v.assign c = .ok (v.withData (overlay v.data a c.data) hlength) := by
  have hlength : (overlay v.data a c.data).length = v.data.length := by
    obtain ⟨-, -, hlt, hle, hdata⟩ := targetRange_eq_ok.mp h
    rw [length] at hle
    exact length_overlay (by omega)
  refine ⟨hlength, ?_⟩
  rw [assign, if_neg (by simp [hv])]
  split
  · rename_i he
    rw [h] at he
    cases he
  · rename_i hr
    rw [h] at hr
    cases hr
    rfl

/-- Pieces written in order: after each of them one more part has been taken over. -/
theorem assign_piece (tag : Tag) (h : x.data.length = y.data.length) (hsize : 1 ≤ size)
    (hi : i < needed x.length size) :
    (y.blend x h (position x.length size i)).assign (x.piece tag size i) =
      .ok (y.blend x h (position x.length size (i + 1))) := by
  have hlen := length_blend h (position x.length size i)
  by_cases hlength : x.length = 0
  -- The only piece of an empty buffer is accepted, and nothing is written.
  · have hempty : (y.blend x h (position x.length size i)).isEmpty := by
      rw [isEmpty, List.isEmpty_iff, ← List.length_eq_zero_iff]
      exact hlen.trans hlength
    have hsame : position x.length size (i + 1) = position x.length size i := by
      have h₁ := position_le x.length size (i + 1)
      have h₂ := position_le x.length size i
      omega
    rw [assign, if_pos (by rw [hempty, isFraming_piece hlength]; rfl), hsame]
  · have hpos : 0 < x.length := Nat.pos_of_ne_zero hlength
    have hnonempty : ¬ (y.blend x h (position x.length size i)).isEmpty := by
      rw [isEmpty, List.isEmpty_iff, ← List.length_eq_zero_iff]
      exact fun hzero => hlength (hlen.symm.trans hzero)
    have hrange : (x.piece tag size i).targetRange (y.blend x h (position x.length size i)).length =
        .ok (position x.length size i, position x.length size (i + 1)) := by
      rw [hlen]
      exact targetRange_piece hsize hi hpos
    obtain ⟨_, hassign⟩ := assign_of_targetRange hnonempty hrange
    rw [hassign]
    congr 1
    apply ext_data
    · rfl
    · rfl
    · exact overlay_blend h (Nat.le_of_lt (position_lt hsize hi hpos)) (position_le _ _ _)

end Variable

theorem foldlM_range_map {ε β γ : Type} {n : Nat} {piece : Nat → γ} {state : Nat → β}
    {step : β → γ → Except ε β}
    (h : ∀ i < n, step (state i) (piece i) = .ok (state (i + 1))) :
    ((List.range n).map piece).foldlM step (state 0) = .ok (state n) := by
  induction n with
  | zero => rfl
  | succ n ih =>
      have hbefore := ih fun i hi => h i (Nat.lt_succ_of_lt hi)
      rw [List.range_succ, List.map_append, List.foldlM_append, hbefore]
      show (step (state n) (piece n) >>= fun b => pure b) = _
      rw [h n (Nat.lt_succ_self n)]
      rfl

theorem mapM_of_pure {μ : Type → Type} [Monad μ] [LawfulMonad μ] {β γ : Type} {step : β → μ γ}
    {value : β → γ} {l : List β} (h : ∀ b ∈ l, step b = pure (value b)) :
    l.mapM step = pure (l.map value) := by
  induction l with
  | nil => rw [List.mapM_nil, List.map_nil]
  | cons b l ih =>
      have htail := ih fun b' hb' => h b' (by simp [hb'])
      rw [List.mapM_cons, h b (by simp), htail, pure_bind, pure_bind, List.map_cons]

end RemoteDiscipline
