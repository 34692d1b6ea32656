import Mathlib.Algebra.Order.Floor.Div
import RemoteDiscipline.Proofs.Chunks
import RemoteDiscipline.Proofs.Collecting
/-!
A buffer cut into chunks and put together in any order.

The chunks of a buffer divide its positions among them (`Chunk.Partition`), and each of them carries
what the buffer holds in its range (`Chunk.CutFrom`). Writing such a chunk makes its positions agree
with the buffer it was cut from and leaves the others alone. So two of them never undo each other,
and only which chunks have been written matters, not when or how often (`Variable.assignAll_cut`).
-/

namespace RemoteDiscipline

namespace Chunk

def Covers (c : Chunk) (i : Nat) : Prop := c.start ≤ i ∧ i ≤ c.stop

instance (c : Chunk) : DecidablePred c.Covers := fun _ => inferInstanceAs (Decidable (_ ∧ _))

/-- Chunks that divide the positions of a buffer of `length` values among them, from left to right,
so that all have `size` values and only the last may have fewer. -/
structure Partition (length size : Nat) (cs : List Chunk) : Prop where
  inside : ∀ c ∈ cs, 0 ≤ c.start ∧ c.start ≤ c.stop ∧ c.stop < length
  filled : ∀ c ∈ cs, (c.data.length : Int) = c.stop - c.start + 1
  increasing : cs.Pairwise fun c d => c.stop < d.start
  covering : ∀ i < length, ∃ c ∈ cs, c.Covers i
  full : ∀ c ∈ cs.dropLast, c.data.length = size
  last : ∀ c ∈ cs.getLast?, 1 ≤ c.data.length ∧ c.data.length ≤ size

/-- Whether a chunk has a place in `x` and carries what stands there. -/
def CutFrom (c : Chunk) (x : Variable) : Prop :=
  c.HasPlace x.length ∧ ∀ i, c.Covers i → c.valueAt i = x.data[i]?

/-- The ends of a half-open range, both included. An empty range is taken for the position where it
starts. -/
def inclusive (r : Nat × Nat) : Nat × Nat := (r.1, if r.2 ≤ r.1 then r.1 else r.2 - 1)

variable {length size i j : Nat}

theorem needed_eq (length size : Nat) : needed length size = max 1 (length ⌈/⌉ size) := by
  rw [needed, Nat.ceilDiv_eq_add_pred_div]

theorem position_mono (h : i ≤ j) : position length size i ≤ position length size j :=
  min_le_min_right length (Nat.mul_le_mul_right size h)

/-- A position of a buffer lies in the chunk to which division by the chunk size leads. -/
theorem exists_position (hsize : 1 ≤ size) (hi : i < length) :
    ∃ k < needed length size, position length size k ≤ i ∧ i < position length size (k + 1) := by
  have hlow : i / size * size ≤ i := Nat.div_mul_le_self i size
  have hhigh : i < (i / size + 1) * size := by
    rw [Nat.mul_comm]
    exact Nat.lt_mul_div_succ i hsize
  refine ⟨i / size, ?_, ?_, ?_⟩
  · rw [Nat.div_lt_iff_lt_mul hsize]
    exact Nat.lt_of_lt_of_le hi (le_needed_mul hsize)
  · exact Nat.le_trans (Nat.min_le_left _ _) hlow
  · exact lt_min hhigh hi

end Chunk

open Chunk

namespace Variable

variable {v x y : Variable} {tag : Tag} {start stop size i : Nat} {c : Chunk}

/-! ### Chunks that are cut out -/

def cutOut (v : Variable) (tag : Tag) (start stop : Nat) : Chunk where
  name := tag.name
  inputName := tag.inputName
  start := start
  stop := stop
  role := tag.role
  data := (v.data.drop start).take (stop - start + 1)

theorem createChunk_eq_ok : v.createChunk tag start stop = .ok c ↔
    (v.length = 0 ∧ start = 0 ∧ stop = 0 ∨ start ≤ stop ∧ stop < v.length) ∧
      c = v.cutOut tag start stop := by
  by_cases hempty : v.length = 0 ∧ start = 0 ∧ stop = 0
  · have hcreate : v.createChunk tag start stop = .ok (v.cutOut tag start stop) := by
      have hdata : v.data = [] := List.length_eq_zero_iff.mp hempty.1
      rw [createChunk, if_pos (by simp [isEmpty_iff, hempty])]
      simp [cutOut, hdata]
    rw [hcreate]
    simp [hempty, eq_comm]
  · have hcreate : v.createChunk tag start stop =
        (checkRange v.length start stop).map fun _ => v.cutOut tag start stop := by
      rw [createChunk, if_neg (by simpa [isEmpty_iff, and_assoc] using hempty), segment]
      cases checkRange v.length start stop <;> rfl
    rw [hcreate]
    constructor
    · intro h
      obtain ⟨⟨⟩, hcheck, rfl⟩ := exists_of_map_eq_ok h
      exact ⟨.inr (checkRange_eq_ok.mp hcheck), rfl⟩
    · rintro ⟨hends, rfl⟩
      rw [checkRange_eq_ok.mpr (hends.resolve_left hempty)]
      rfl

/-- A chunk that is cut out carries what the buffer holds from `start` to `stop`. -/
theorem createChunk_cutFrom (h : v.createChunk tag start stop = .ok c) :
    c.CutFrom v ∧ ∀ i : Nat, c.Covers i ↔ start ≤ i ∧ i ≤ stop := by
  obtain ⟨hends, rfl⟩ := createChunk_eq_ok.mp h
  have hcovers (i : Nat) : (v.cutOut tag start stop).Covers i ↔ start ≤ i ∧ i ≤ stop := by
    simp [Covers, cutOut]
  refine ⟨⟨?_, fun i hi => ?_⟩, hcovers⟩
  · rcases hends with ⟨hlength, rfl, rfl⟩ | ⟨hle, hlt⟩
    · have hdata : v.data = [] := List.length_eq_zero_iff.mp hlength
      exact .inl ⟨hlength, by simp [isFraming, cutOut, hdata]⟩
    · refine .inr ⟨(start, stop + 1), targetRange_eq_ok.mpr ⟨rfl, rfl, by omega, by omega, ?_⟩⟩
      rw [length] at hlt
      show ((v.data.drop start).take _).length = _
      rw [List.length_take, List.length_drop]
      omega
  · have hcovered := (hcovers i).mp hi
    rw [Covers] at hi
    rw [valueAt, if_pos hi]
    show ((v.data.drop start).take _)[i - start]? = _
    rw [List.getElem?_take_of_lt (by omega), List.getElem?_drop]
    congr 1
    omega

theorem createChunk_piece (tag : Tag) (hsize : 1 ≤ size) (hi : i < needed v.length size) :
    v.createChunk tag (inclusive (position v.length size i, position v.length size (i + 1))).1
      (inclusive (position v.length size i, position v.length size (i + 1))).2 =
        .ok (v.piece tag size i) := by
  rw [createChunk_eq_ok, inclusive]
  rcases Nat.eq_zero_or_pos v.length with hzero | hlength
  · have hposition (j : Nat) : position v.length size j = 0 := by
      have := position_le v.length size j
      omega
    have hdata : v.data = [] := List.length_eq_zero_iff.mp hzero
    rw [piece, hposition, hposition]
    exact ⟨.inl ⟨hzero, rfl, rfl⟩, by simp [Tag.chunk, cutOut, hdata]⟩
  · have hlt := position_lt hsize hi hlength
    have hle := position_le v.length size (i + 1)
    have hlast : position v.length size (i + 1) - 1 - position v.length size i + 1 =
        position v.length size (i + 1) - position v.length size i := by omega
    refine ⟨.inr ?_, ?_⟩
    · dsimp only
      split <;> omega
    · simp only [piece, Tag.chunk, cutOut, if_neg (Nat.not_le.mpr hlt), hlast]
      congr 1
      omega

/-! ### The chunks of a buffer -/

theorem piece_range (tag : Tag) (hsize : 1 ≤ size) (hi : i < needed x.length size)
    (hlength : 0 < x.length) :
    (x.piece tag size i).start = position x.length size i ∧
      (x.piece tag size i).stop + 1 = position x.length size (i + 1) ∧
      (x.piece tag size i).data.length = position x.length size (i + 1) - position x.length size i := by
  obtain ⟨hstart, hstop, -, -, hdata⟩ := targetRange_eq_ok.mp (targetRange_piece hsize hi hlength)
  exact ⟨hstart, hstop, hdata⟩

theorem piece_cutFrom (tag : Tag) (hsize : 1 ≤ size) (hi : i < needed x.length size) :
    (x.piece tag size i).CutFrom x :=
  (createChunk_cutFrom (createChunk_piece tag hsize hi)).1

theorem cutFrom_of_mem_pieces (hsize : 1 ≤ size) (hc : c ∈ x.pieces tag size) : c.CutFrom x := by
  obtain ⟨i, hi, rfl⟩ := List.mem_map.mp hc
  exact piece_cutFrom tag hsize (List.mem_range.mp hi)

theorem exists_piece_covers (tag : Tag) (hsize : 1 ≤ size) (hi : i < x.length) :
    ∃ c ∈ x.pieces tag size, c.Covers i := by
  obtain ⟨k, hk, hlow, hhigh⟩ := exists_position hsize hi
  obtain ⟨hstart, hstop, -⟩ := piece_range tag hsize hk (Nat.zero_lt_of_lt hi)
  refine ⟨_, List.mem_map_of_mem (List.mem_range.mpr hk), ?_⟩
  rw [Covers]
  omega

/-- Every piece but the last is as long as a chunk can be. -/
theorem length_piece (tag : Tag) (hsize : 1 ≤ size) (hi : i + 1 < needed x.length size)
    (hlength : 0 < x.length) : (x.piece tag size i).data.length = size := by
  have hend := mul_lt_of_lt_needed hsize hi hlength
  obtain ⟨-, -, hdata⟩ := piece_range tag hsize (Nat.lt_of_succ_lt hi) hlength
  rw [hdata, position, position]
  rw [Nat.succ_mul] at hend ⊢
  omega

theorem length_piece_le (tag : Tag) (hsize : 1 ≤ size) (hi : i < needed x.length size)
    (hlength : 0 < x.length) :
    1 ≤ (x.piece tag size i).data.length ∧ (x.piece tag size i).data.length ≤ size := by
  have hlt := position_lt hsize hi hlength
  obtain ⟨-, -, hdata⟩ := piece_range tag hsize hi hlength
  refine ⟨by omega, ?_⟩
  rw [hdata, position, position, Nat.succ_mul]
  omega

theorem pieces_partition (tag : Tag) (hsize : 1 ≤ size) (hlength : 0 < x.length) :
    Partition x.length size (x.pieces tag size) where
  inside := by
    intro c hc
    obtain ⟨i, hi, rfl⟩ := List.mem_map.mp hc
    have hi := List.mem_range.mp hi
    obtain ⟨hstart, hstop, -⟩ := piece_range tag hsize hi hlength
    have hlt := position_lt hsize hi hlength
    have hle := position_le x.length size (i + 1)
    omega
  filled := by
    intro c hc
    obtain ⟨i, hi, rfl⟩ := List.mem_map.mp hc
    have hi := List.mem_range.mp hi
    obtain ⟨hstart, hstop, hdata⟩ := piece_range tag hsize hi hlength
    have hlt := position_lt hsize hi hlength
    omega
  increasing := by
    refine List.pairwise_map.mpr (List.Pairwise.imp_of_mem ?_ List.pairwise_lt_range)
    intro i j hi hj hlt
    obtain ⟨-, hstop, -⟩ := piece_range tag hsize (List.mem_range.mp hi) hlength
    obtain ⟨hstart, -, -⟩ := piece_range tag hsize (List.mem_range.mp hj) hlength
    have hmono : position x.length size (i + 1) ≤ position x.length size j := position_mono hlt
    omega
  covering := fun i hi => exists_piece_covers tag hsize hi
  full := by
    intro c hc
    obtain ⟨n, hn⟩ : ∃ n, needed x.length size = n + 1 :=
      Nat.exists_eq_add_one.mpr (Nat.le_max_left _ _)
    rw [pieces, hn, List.range_succ, List.map_append, List.map_singleton, List.dropLast_concat] at hc
    obtain ⟨i, hi, rfl⟩ := List.mem_map.mp hc
    have hi := List.mem_range.mp hi
    exact length_piece tag hsize (by omega) hlength
  last := by
    intro c hc
    obtain ⟨i, hi, rfl⟩ := List.mem_map.mp (List.mem_of_getLast? hc)
    exact length_piece_le tag hsize (List.mem_range.mp hi) hlength

theorem pieces_of_length_zero (tag : Tag) (size : Nat) (hlength : x.length = 0) :
    ∃ c, x.pieces tag size = [c] ∧ c.isFraming := by
  have hneeded : needed x.length size = 1 := by
    have hdiv : (0 + size - 1) / size ≤ 1 := Nat.div_le_of_le_mul (by omega)
    rw [needed, hlength]
    omega
  refine ⟨x.piece tag size 0, ?_, isFraming_piece hlength⟩
  rw [pieces, hneeded]
  rfl

/-! ### Chunks that arrive in any order -/

def assignAll (y : Variable) (cs : List Chunk) : Except Error Variable := cs.foldlM assign y

theorem assignAll_cons (y : Variable) (c : Chunk) (cs : List Chunk) :
    y.assignAll (c :: cs) = (y.assign c).bind fun y' => y'.assignAll cs := rfl

/-- A chunk that was cut from `x` brings its positions of `y` to what they are in `x`. -/
theorem assign_cut (h : x.length = y.length) (hc : c.CutFrom x) :
    ∃ y', y.assign c = .ok y' ∧
      ∀ i, y'.data[i]? = if c.Covers i then x.data[i]? else y.data[i]? := by
  obtain ⟨hplace, hvalue⟩ := hc
  obtain ⟨y', hy'⟩ := assign_isOk_iff.mpr (h ▸ hplace)
  refine ⟨y', hy', fun i => (getElem?_assign hy' i).trans ?_⟩
  by_cases hcovers : c.Covers i
  · exact (if_pos hcovers).trans ((hvalue i hcovers).trans (if_pos hcovers).symm)
  · exact (if_neg hcovers).trans (if_neg hcovers).symm

/-- Chunks cut from `x` are all written, and exactly the positions that they cover agree with `x`
then. The order and the number of times do not matter: they do not occur on the right. -/
theorem assignAll_cut {order : List Chunk} (h : x.length = y.length)
    (horder : ∀ c ∈ order, c.CutFrom x) :
    ∃ w, y.assignAll order = .ok w ∧ w.outline = y.outline ∧
      ∀ i, w.data[i]? = if ∃ c ∈ order, c.Covers i then x.data[i]? else y.data[i]? := by
  induction order generalizing y with
  | nil => exact ⟨y, rfl, rfl, fun i => by simp⟩
  | cons c order ih =>
      obtain ⟨y', hy', hfirst⟩ := assign_cut h (horder c (by simp))
      have houtline := outline_assign hy'
      have hlength : x.length = y'.length := h.trans (length_assign hy').symm
      obtain ⟨w, hw, houtline', hrest⟩ := ih hlength fun d hd => horder d (by simp [hd])
      refine ⟨w, ?_, houtline'.trans houtline, fun i => ?_⟩
      · rw [assignAll_cons, hy']
        exact hw
      · -- A position that a later chunk covers gets the value of `x` from there, any other from `c`.
        rw [hrest, hfirst]
        by_cases hlater : ∃ d ∈ order, d.Covers i
        · rw [if_pos hlater, if_pos (by simp [hlater])]
        · simp only [List.exists_mem_cons_iff, hlater, or_false, if_false]

/-- A buffer travels in chunks: their number and their ranges are those of a division from left to
right, and a buffer of zeros takes them in any order and any number of times. When none of them is
missing, it holds the values of the buffer. -/
theorem chunks_reassemble (v : Variable) (tag : Tag) (role : Role) {size : Nat}
    (hsize : 1 ≤ size) :
    ∃ cs, v.chunks tag size = .ok cs ∧
      cs.length = max 1 (v.length ⌈/⌉ size) ∧
      (v.length = 0 → ∃ c, cs = [c] ∧ c.isFraming) ∧
      (0 < v.length → Partition v.length size cs) ∧
      ∀ order : List Chunk, order ⊆ cs →
        ∃ w, (zeros role v.shape).assignAll order = .ok w ∧ w.outline = (role, v.shape) ∧
          (cs ⊆ order → w.data = v.data) := by
  refine ⟨v.pieces tag size, chunks_eq v tag hsize, ?_, pieces_of_length_zero tag size,
    pieces_partition tag hsize, fun order horder => ?_⟩
  · rw [pieces, List.length_map, List.length_range, needed_eq]
  · have hlength : v.length = (zeros role v.shape).length := by
      rw [length, length, v.length_eq, (zeros role v.shape).length_eq]
      rfl
    obtain ⟨w, hw, houtline, hdata⟩ := assignAll_cut hlength fun c hc =>
      cutFrom_of_mem_pieces hsize (horder hc)
    refine ⟨w, hw, houtline, fun hall => List.ext_getElem? fun i => ?_⟩
    rw [hdata]
    by_cases hi : i < v.length
    · obtain ⟨c, hc, hcovers⟩ := exists_piece_covers tag hsize hi
      rw [if_pos ⟨c, hall hc, hcovers⟩]
    · -- Behind the end there is nothing in either buffer.
      have hend : v.data[i]? = none := List.getElem?_eq_none (Nat.le_of_not_lt hi)
      have hend' : (zeros role v.shape).data[i]? = none :=
        List.getElem?_eq_none (Nat.le_of_not_lt fun hi' => hi (hlength.symm ▸ hi'))
      rw [hend, hend', ite_self]

/-- The last chunk of three values comes first, and comes again after the other one. -/
theorem chunks_reassemble_of_three :
    let v : Variable := ⟨.output, [3], [⟨1⟩, ⟨2⟩, ⟨3⟩], rfl⟩
    let first : Chunk := ⟨"y", none, 0, 1, .output, [⟨1⟩, ⟨2⟩]⟩
    let last : Chunk := ⟨"y", none, 2, 2, .output, [⟨3⟩]⟩
    1 ≤ 2 ∧ v.chunks (.ofVariable "y" .output) 2 = .ok [first, last] ∧
      ∃ w, (zeros .output [3]).assignAll [last, first, last] = .ok w ∧ w.data = v.data := by
  intro v first last
  have hchunks : v.chunks (.ofVariable "y" .output) 2 = .ok [first, last] := by
    have hpieces : v.pieces (.ofVariable "y" .output) 2 = [first, last] := by decide +kernel
    rw [chunks_eq v _ (by decide), hpieces]
  obtain ⟨cs, hcs, -, -, -, hall⟩ :=
    chunks_reassemble v (.ofVariable "y" .output) .output (show 1 ≤ 2 by decide)
  obtain rfl : [first, last] = cs := Except.ok.inj (hchunks.symm.trans hcs)
  obtain ⟨w, hw, -, hdata⟩ := hall [last, first, last] (by simp)
  exact ⟨by decide, hchunks, w, hw, hdata (by simp)⟩

end Variable

end RemoteDiscipline
