import RemoteDiscipline.Proofs.Formats
import RemoteDiscipline.Proofs.Reassembly
/-!
Chunks and segments of a buffer.

A buffer can be read and written by segments and by chunks, and each of the two has checks of its
own. A chunk with ends that are not negative is written exactly where its values can be written as a
segment (`Variable.assign_iff_setSegment`), and the chunks of a buffer are those that its segments
make (`Variable.createChunk_piece`). Only the chunk that stands for a buffer without values is not a
segment.
-/

namespace RemoteDiscipline

open Chunk

namespace Variable

variable {v w x y : Variable} {c : Chunk} {tag : Tag} {start stop : Nat}
  {values : List Binary64}

theorem ext_outline (houtline : x.outline = y.outline) (hdata : x.data = y.data) : x = y := by
  obtain ⟨hrole, hshape⟩ := Prod.mk.inj houtline
  exact ext_data hrole hshape hdata

/-! ### Writing in place -/

/-- An operation on a variable in place. One that fails leaves a variable behind as well. -/
abbrev InPlace := EStateM Error Variable

def put : Nat → List Binary64 → InPlace Unit
  | _, [] => pure ()
  | start, value :: values => do
    modify fun v => v.set start value
    put (start + 1) values

def putChunk (c : Chunk) : InPlace Unit := do
  let v ← get
  if v.isEmpty && c.isFraming then return ()
  else
    match c.targetRange v.length with
    | .error e => throw e
    | .ok (start, _) => put start c.data

theorem overlay_set {data : List Binary64} {value : Binary64} (h : start < data.length) :
    overlay (data.set start value) (start + 1) values = overlay data start (value :: values) := by
  have htake : (data.set start value).take (start + 1) = data.take start ++ [value] := by
    rw [List.take_add_one, List.take_set_of_le (Nat.le_refl _), List.getElem?_set_self h]
    rfl
  have hdrop : (data.set start value).drop (start + 1 + values.length) =
      data.drop (start + (value :: values).length) := by
    rw [List.drop_set_of_lt (by omega), List.length_cons]
    congr 1
    omega
  rw [overlay, overlay, htake, hdrop, List.append_assoc (data.take start), List.singleton_append]

/-- Values that are put one after the other lie over the buffer in the end. -/
theorem put_eq (h : start + values.length ≤ v.data.length) :
    (put start values).run v =
      .ok () (v.withData (overlay v.data start values) (length_overlay h)) := by
  induction values generalizing start v with
  | nil =>
      show EStateM.Result.ok () v = _
      congr 1
      exact ext_outline rfl (by simp [withData, overlay])
  | cons value values ih =>
      rw [List.length_cons] at h
      have hrest : start + 1 + values.length ≤ (v.set start value).data.length := by
        rw [set, withData, List.length_set]
        omega
      show (put (start + 1) values).run (v.set start value) = _
      rw [ih hrest]
      congr 1
      exact ext_outline rfl (overlay_set (by omega))

/-! ### Chunks that are written -/

theorem assign_of_framing (hlength : v.length = 0) (hframing : c.isFraming) :
    v.assign c = .ok v := by
  rw [assign, if_pos (by simp [isEmpty_iff, hlength, hframing])]

theorem setSegment_eq_ok : v.setSegment start stop values = .ok w ↔
    start ≤ stop ∧ stop < v.length ∧ values.length = stop - start + 1 ∧
      w.outline = v.outline ∧ w.data = overlay v.data start values := by
  unfold setSegment
  split
  · rename_i hcheck
    constructor
    · intro h
      cases h
    · rintro ⟨hle, hlt, -⟩
      rw [checkRange_eq_ok.mpr ⟨hle, hlt⟩] at hcheck
      cases hcheck
  · rename_i hcheck
    obtain ⟨hle, hlt⟩ := checkRange_eq_ok.mp hcheck
    split
    · rename_i hlength
      constructor
      · intro h
        cases h
        exact ⟨hle, hlt, hlength, rfl, rfl⟩
      · rintro ⟨-, -, -, houtline, hdata⟩
        congr 1
        exact ext_outline houtline.symm hdata.symm
    · rename_i hlength
      constructor
      · intro h
        cases h
      · rintro ⟨-, -, hlength', -⟩
        exact absurd hlength' hlength

/-- What is written in place is what `assign` gives, and when `assign` fails nothing has been
written. -/
theorem putChunk_eq (v : Variable) (c : Chunk) :
    (putChunk c).run v =
      match v.assign c with
      | .ok w => .ok () w
      | .error e => .error e v := by
  cases h : v.assign c with
  | error e =>
      obtain ⟨hframing, hrange⟩ := assign_eq_error v h
      show (if v.isEmpty && c.isFraming then pure () else _ : InPlace Unit).run v = _
      rw [if_neg (by simpa [isEmpty_iff] using hframing), hrange]
      rfl
  | ok w =>
      show (if v.isEmpty && c.isFraming then pure () else _ : InPlace Unit).run v = _
      rcases assign_cases h with ⟨hframing, rfl⟩ | ⟨a, b, hrange, houtline, hdata⟩
      · rw [if_pos (by simpa [isEmpty_iff] using hframing)]
        rfl
      · obtain ⟨-, -, hlt, hle, hlength⟩ := targetRange_eq_ok.mp hrange
        rw [if_neg (by simp [isEmpty_iff]; omega), hrange]
        show (put a c.data).run v = _
        rw [length] at hle
        rw [put_eq (by omega)]
        congr 1
        exact ext_outline houtline.symm hdata.symm

/-- A chunk has a place in a buffer just if its values fit as a segment, and then both give the
same. -/
theorem assign_iff_setSegment (hstart : 0 ≤ c.start) (hstop : 0 ≤ c.stop)
    (hframing : ¬ (v.length = 0 ∧ c.isFraming)) :
    v.assign c = .ok w ↔ v.setSegment c.start.toNat c.stop.toNat c.data = .ok w := by
  rw [setSegment_eq_ok]
  constructor
  · intro h
    rcases assign_cases h with ⟨hframing', -⟩ | ⟨a, b, hrange, houtline, hdata⟩
    · exact absurd hframing' hframing
    · obtain ⟨ha, hb, hlt, hle, hlength⟩ := targetRange_eq_ok.mp hrange
      have htoNat : c.start.toNat = a := by omega
      exact ⟨by omega, by omega, by omega, houtline, by rw [htoNat, hdata]⟩
  · rintro ⟨hle, hlt, hlength, houtline, hdata⟩
    have hrange : c.targetRange v.length = .ok (c.start.toNat, c.stop.toNat + 1) :=
      targetRange_eq_ok.mpr ⟨by omega, by omega, by omega, by omega, by omega⟩
    obtain ⟨_, hwritten⟩ := assign_of_targetRange (by rw [isEmpty_iff]; omega) hrange
    rw [hwritten]
    congr 1
    exact ext_outline houtline.symm hdata.symm

/-! ### Agreement -/

theorem isInteger_of_createChunk (hv : v.length < 0x8000_0000_0000_0000)
    (h : v.createChunk tag start stop = .ok c) :
    Wire.Format.IsInteger c.start ∧ Wire.Format.IsInteger c.stop := by
  obtain ⟨hends, rfl⟩ := createChunk_eq_ok.mp h
  have hstart : start ≤ v.length := by omega
  have hstop : stop ≤ v.length := by omega
  constructor
  · show Wire.Format.IsInteger (start : Nat)
    constructor <;> omega
  · show Wire.Format.IsInteger (stop : Nat)
    constructor <;> omega

/-- What becomes of a chunk and of its values as a segment. -/
structure WrittenAlike (v : Variable) (c : Chunk) : Prop where
  isOk : (∃ w, v.assign c = .ok w) ↔ v.length = 0 ∧ c.isFraming ∨
    0 ≤ c.start ∧ 0 ≤ c.stop ∧ ∃ w, v.setSegment c.start.toNat c.stop.toNat c.data = .ok w
  framing : v.length = 0 → c.isFraming → v.assign c = .ok v
  segment : ∀ w, 0 ≤ c.start → 0 ≤ c.stop →
    v.setSegment c.start.toNat c.stop.toNat c.data = .ok w → v.assign c = .ok w
  /-- A chunk that is refused leaves role, shape and values as they were. -/
  refused : ∀ e, v.assign c = .error e → (putChunk c).run v = .error e v
  accepted : ∀ w, v.assign c = .ok w → (putChunk c).run v = .ok () w

theorem writtenAlike (v : Variable) (c : Chunk) : v.WrittenAlike c := by
  have hsegment (w : Variable) (hstart : 0 ≤ c.start) (hstop : 0 ≤ c.stop)
      (h : v.setSegment c.start.toNat c.stop.toNat c.data = .ok w) : v.assign c = .ok w := by
    have hlt := (setSegment_eq_ok.mp h).2.1
    exact (assign_iff_setSegment hstart hstop (by omega)).mpr h
  refine ⟨⟨?_, ?_⟩, assign_of_framing, hsegment, fun e h => ?_, fun w h => ?_⟩
  · rintro ⟨w, h⟩
    rcases assign_cases h with ⟨hframing, -⟩ | ⟨a, b, hrange, -⟩
    · exact .inl hframing
    · obtain ⟨ha, hb, hlt, hle, -⟩ := targetRange_eq_ok.mp hrange
      have hstart : 0 ≤ c.start := by omega
      have hstop : 0 ≤ c.stop := by omega
      exact .inr ⟨hstart, hstop, w, (assign_iff_setSegment hstart hstop (by omega)).mp h⟩
  · rintro (⟨hlength, hframing⟩ | ⟨hstart, hstop, w, h⟩)
    · exact ⟨v, assign_of_framing hlength hframing⟩
    · exact ⟨w, hsegment w hstart hstop h⟩
  · rw [putChunk_eq, h]
  · rw [putChunk_eq, h]

/-- Chunks and segments of a buffer agree. A chunk is accepted just if it stands for a buffer
without values or its values fit as a segment, with the same result; the chunks of a buffer are cut
out of it at their ranges; and what is cut out goes back into any buffer of the same length, where
it brings just its own positions to what they were. -/
theorem chunks_agree_with_segments (v : Variable) (hv : v.length < 0x8000_0000_0000_0000) :
    (∀ c : Chunk, v.WrittenAlike c) ∧
    (∀ (tag : Tag) (size : Nat), 1 ≤ size → ∃ rs cs, Chunk.ranges v.length size = .ok rs ∧
      v.chunks tag size = .ok cs ∧
      rs.mapM (fun r => v.createChunk tag (inclusive r).1 (inclusive r).2) = .ok cs) ∧
    ∀ (tag : Tag) (start stop : Nat) (c : Chunk), v.createChunk tag start stop = .ok c →
      (Wire.Format.IsInteger c.start ∧ Wire.Format.IsInteger c.stop) ∧
      ∀ y : Variable, y.length = v.length → ∃ w, y.assign c = .ok w ∧ w.outline = y.outline ∧
        (∀ i, w.data[i]? = if start ≤ i ∧ i ≤ stop then v.data[i]? else y.data[i]?) ∧
        (v.length = 0 → w = y) := by
  refine ⟨v.writtenAlike, fun tag size hsize => ?_, fun tag start stop c h =>
    ⟨isInteger_of_createChunk hv h, fun y hy => ?_⟩⟩
  · refine ⟨(List.range (needed v.length size)).map fun i =>
        (position v.length size i, position v.length size (i + 1)),
      v.pieces tag size, ?_, chunks_eq v tag hsize, ?_⟩
    · rw [Chunk.ranges, count_eq hsize]
      rfl
    · rw [List.mapM_map]
      exact mapM_of_pure fun i hi => createChunk_piece tag hsize (List.mem_range.mp hi)
  · obtain ⟨hcut, hcovers⟩ := createChunk_cutFrom h
    obtain ⟨w, hw, hdata⟩ := assign_cut hy.symm hcut
    have houtline := outline_assign hw
    refine ⟨w, hw, houtline, fun i => ?_, fun hzero => ?_⟩
    · rw [hdata]
      simp only [hcovers]
    · have hlength : w.length = 0 := (length_assign hw).trans (hy.trans hzero)
      have hw' : w.data = [] := List.length_eq_zero_iff.mp hlength
      have hy' : y.data = [] := List.length_eq_zero_iff.mp (hy.trans hzero)
      exact ext_outline houtline (hw'.trans hy'.symm)

/-- The last two of three values go into a buffer of another shape, and the same values are refused
at a range that starts before it. -/
theorem chunks_agree_with_segments_of_three :
    let v : Variable := ⟨.output, [3], [⟨1⟩, ⟨2⟩, ⟨3⟩], rfl⟩
    let y : Variable := ⟨.residual, [1, 3], [⟨7⟩, ⟨8⟩, ⟨9⟩], rfl⟩
    let tag : Tag := .ofVariable "y" .output
    let behind : Chunk := ⟨"y", none, 1, 2, .output, [⟨2⟩, ⟨3⟩]⟩
    let before : Chunk := ⟨"y", none, -1, 0, .output, [⟨2⟩, ⟨3⟩]⟩
    v.length < 0x8000_0000_0000_0000 ∧ 1 ≤ 2 ∧
      (∃ cs, v.chunks tag 2 = .ok cs ∧
        [(0, 2), (2, 3)].mapM (fun r => v.createChunk tag (inclusive r).1 (inclusive r).2) =
          .ok cs) ∧
      v.createChunk tag 1 2 = .ok behind ∧ y.length = v.length ∧
      (∃ w, y.assign behind = .ok w ∧ w.shape = [1, 3] ∧
        ∀ i, w.data[i]? = if 1 ≤ i ∧ i ≤ 2 then v.data[i]? else y.data[i]?) ∧
      ∃ e, (putChunk before).run v = .error e v := by
  intro v y tag behind before
  have hv : v.length < 0x8000_0000_0000_0000 := by decide
  have hsize : 1 ≤ 2 := by decide
  have hranges : Chunk.ranges 3 2 = .ok [(0, 2), (2, 3)] := by rfl
  have hbehind : v.createChunk tag 1 2 = .ok behind :=
    createChunk_eq_ok.mpr ⟨.inr (by decide), by decide⟩
  obtain ⟨hwritten, hpieces, hcut⟩ := chunks_agree_with_segments v hv
  obtain ⟨rs, cs, hrs, hcs, hcreate⟩ := hpieces tag 2 hsize
  obtain rfl : rs = [(0, 2), (2, 3)] := Except.ok.inj (hrs.symm.trans hranges)
  obtain ⟨w, hw, houtline, hdata, -⟩ := (hcut _ _ _ _ hbehind).2 y rfl
  have hrefused : ∃ e, (putChunk before).run v = .error e v := by
    cases hbefore : v.assign before with
    | error e => exact ⟨e, (hwritten before).refused e hbefore⟩
    | ok w =>
        rcases (hwritten before).isOk.mp ⟨w, hbefore⟩ with ⟨hzero, -⟩ | ⟨hstart, -⟩
        · exact absurd hzero (by decide)
        · exact absurd hstart (by decide)
  exact ⟨hv, hsize, ⟨cs, hcs, hcreate⟩, hbehind, rfl,
    ⟨w, hw, congrArg Prod.snd houtline, hdata⟩, hrefused⟩

end Variable

end RemoteDiscipline
