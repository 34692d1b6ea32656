import RemoteDiscipline.Proofs.Metadata
import RemoteDiscipline.Proofs.Words
/-!
How many values a Jacobian block holds.

A block holds one value for every pair of an output element and an input element, unless one of the
two shapes has no dimensions (`Metadata.length_block_iff`). Such a shape holds nothing, but behind or
in front of it the dimensions of an array are still there, so the block is as long as the array. Zero
dimensions do no harm, and neither do scalars. As long as no product is too large for a word of 64
bits, all of this is calculated exactly (`Overflow.product_eq`).
-/

namespace RemoteDiscipline

namespace Shape

/-! ### Counting -/

theorem foldl_mul (s : Shape) (n : Nat) : s.foldl (· * ·) n = n * s.foldl (· * ·) 1 := by
  induction s generalizing n with
  | nil => simp
  | cons k s ih => rw [List.foldl_cons, List.foldl_cons, ih, ih (1 * k), Nat.one_mul, Nat.mul_assoc]

theorem count_eq {s : Shape} (h : s ≠ []) : s.count = s.foldl (· * ·) 1 := by
  cases s with
  | nil => exact absurd rfl h
  | cons n s => rfl

@[simp] theorem count_nil : count [] = 0 := rfl

@[simp] theorem count_scalar : scalar.count = 1 := rfl

@[simp] theorem isScalar_iff {s : Shape} : s.isScalar = true ↔ s = scalar := by simp [isScalar]

theorem count_append {f x : Shape} (hf : f ≠ []) (hx : x ≠ []) :
    (f ++ x).count = f.count * x.count := by
  rw [count_eq (by simp [hf]), count_eq hf, count_eq hx, List.foldl_append, foldl_mul]

/-- Whether the values of an array can be counted with words of 64 bits, one dimension after the
other. -/
structure FitsWords (s : Shape) : Prop where
  extents : ∀ k ∈ s, k < 0x1_0000_0000_0000_0000
  products : ∀ n ≤ s.length, (s.take n).foldl (· * ·) 1 < 0x1_0000_0000_0000_0000

/-! ### Blocks -/

/-- Whether the values of an array stay in a block although there is nothing on its other side. -/
def Outlasts (array other : Shape) : Prop := other = [] ∧ array ≠ scalar ∧ array.count ≠ 0

theorem jacobian_of_scalar_left (x : Shape) : jacobian scalar x = x := by simp [jacobian]

theorem jacobian_of_scalar_right (f : Shape) : jacobian f scalar = f := by
  by_cases hf : f = scalar
  · rw [hf, jacobian_of_scalar_left]
  · simp [jacobian, hf]

theorem jacobian_of_arrays {f x : Shape} (hf : f ≠ scalar) (hx : x ≠ scalar) :
    jacobian f x = f ++ x := by
  simp [jacobian, hf, hx]

theorem count_jacobian_of_nil_left {x : Shape} :
    (jacobian [] x).count = if x = scalar then 0 else x.count := by
  split
  · rename_i hx
    rw [hx, jacobian_of_scalar_right, count_nil]
  · rename_i hx
    rw [jacobian_of_arrays (by decide) hx, List.nil_append]

theorem count_jacobian_of_nil_right {f : Shape} :
    (jacobian f []).count = if f = scalar then 0 else f.count := by
  split
  · rename_i hf
    rw [hf, jacobian_of_scalar_left, count_nil]
  · rename_i hf
    rw [jacobian_of_arrays hf (by decide), List.append_nil]

theorem count_jacobian {f x : Shape} (hf : f ≠ []) (hx : x ≠ []) :
    (jacobian f x).count = f.count * x.count := by
  by_cases hfs : f = scalar
  · rw [hfs, jacobian_of_scalar_left, count_scalar, Nat.one_mul]
  · by_cases hxs : x = scalar
    · rw [hxs, jacobian_of_scalar_right, count_scalar, Nat.mul_one]
    · rw [jacobian_of_arrays hfs hxs, count_append hf hx]

/-- A block holds one value for every pair exactly when neither side outlasts the other. -/
theorem count_jacobian_iff (f x : Shape) :
    (jacobian f x).count = f.count * x.count ↔ ¬ Outlasts x f ∧ ¬ Outlasts f x := by
  by_cases hf : f = []
  · subst hf
    rw [count_jacobian_of_nil_left, count_nil, Nat.zero_mul]
    have hnot : ¬ Outlasts [] x := fun h => h.2.2 rfl
    by_cases hx : x = scalar <;> simp [Outlasts, hx]
  · by_cases hx : x = []
    · subst hx
      rw [count_jacobian_of_nil_right, count_nil, Nat.mul_zero]
      by_cases hfs : f = scalar <;> simp [Outlasts, hfs]
    · exact iff_of_true (count_jacobian hf hx) ⟨fun h => hf h.1, fun h => hx h.1⟩

end Shape

namespace Overflow

variable (o : Overflow)

def product : Shape → Calculation UInt64
  | [] => pure 0
  | extents => (extents.map UInt64.ofNat).foldlM o.mul 1

theorem foldlM_mul {s : Shape} {n : Nat} (hs : ∀ k ∈ s, k < 0x1_0000_0000_0000_0000)
    (h : ∀ i ≤ s.length, (s.take i).foldl (· * ·) n < 0x1_0000_0000_0000_0000) :
    (s.map UInt64.ofNat).foldlM o.mul (.ofNat n) = pure (.ofNat (s.foldl (· * ·) n)) := by
  induction s generalizing n with
  | nil => rfl
  | cons k s ih =>
      have hn : n < 0x1_0000_0000_0000_0000 := h 0 (Nat.zero_le _)
      have hnk : n * k < 0x1_0000_0000_0000_0000 := h 1 (Nat.succ_le_succ (Nat.zero_le _))
      rw [List.map_cons, List.foldlM_cons,
        mul_eq o (toNat_ofNat hn) (toNat_ofNat (hs k List.mem_cons_self)) hnk, pure_bind]
      exact ih (fun k' hk' => hs k' (List.mem_cons_of_mem _ hk'))
        fun i hi => h (i + 1) (Nat.succ_le_succ hi)

/-- A product that fits at every dimension is exact. -/
theorem product_eq {s : Shape} (h : s.FitsWords) :
    o.product s = pure (.ofNat s.count) ∧ (UInt64.ofNat s.count).toNat = s.count := by
  cases s with
  | nil => exact ⟨rfl, rfl⟩
  | cons k s =>
      have hcount := h.products (k :: s).length (Nat.le_refl _)
      rw [List.take_length] at hcount
      exact ⟨foldlM_mul o h.extents h.products, toNat_ofNat hcount⟩

end Overflow

namespace Metadata

theorem addBlock_of_lookup {m : Metadata} {output input : String} {f x : VariableInfo}
    (hf : m.lookup output = some f) (hfr : f.role = .output) (hx : m.lookup input = some x)
    (hxr : x.role = .input ∨ m.kind = .implicit ∧ x.role = .output) :
    m.addBlock output input = (.ok (),
      { m with blockList := m.blockList ++ [⟨output, input, .jacobian f.shape x.shape⟩] }) := by
  have hout : m.lookupRole output [.output] = some f := lookupRole_eq_some.mpr ⟨hf, by simp [hfr]⟩
  have hin : m.lookupRole input
      (if m.kind.allowsOutputAsInput then [.input, .output] else [.input]) = some x := by
    refine lookupRole_eq_some.mpr ⟨hx, ?_⟩
    rcases hxr with hxr | ⟨hk, hxr⟩
    · split <;> simp [hxr]
    · simp [hk, hxr, Kind.allowsOutputAsInput]
  rw [addBlock, blockShape, hout]
  dsimp only
  rw [hin]

theorem find?_blockBuffers_append (m : Metadata) (b : BlockInfo) :
    ({ m with blockList := m.blockList ++ [b] } : Metadata).blockBuffers.find? b.key =
      some b.zeros := by
  simp [blockBuffers, Table.ofList]

/-- The buffer of a declared block holds one value for every pair of elements, unless one of its
variables has no dimensions while the other is an array that holds something. Where no product is too
large, these are the numbers that are calculated with words. -/
theorem length_block_iff {m : Metadata} {output input : String} {f x : VariableInfo}
    (hf : m.lookup output = some f) (hfr : f.role = .output) (hx : m.lookup input = some x)
    (hxr : x.role = .input ∨ m.kind = .implicit ∧ x.role = .output)
    (hfw : f.shape.FitsWords) (hxw : x.shape.FitsWords)
    (hw : (Shape.jacobian f.shape x.shape).FitsWords) :
    ∃ m' buffer, m.addBlock output input = (.ok (), m') ∧
      m'.blockBuffers.find? ⟨output, input⟩ = some buffer ∧
      (∀ o : Overflow, ∃ a b c : UInt64, o.product f.shape = pure a ∧ a.toNat = f.shape.count ∧
        o.product x.shape = pure b ∧ b.toNat = x.shape.count ∧
        o.product (Shape.jacobian f.shape x.shape) = pure c ∧ c.toNat = buffer.length) ∧
      (x.shape.Outlasts f.shape → buffer.length = x.shape.count) ∧
      (f.shape.Outlasts x.shape → buffer.length = f.shape.count) ∧
      (buffer.length = f.shape.count * x.shape.count ↔
        ¬ x.shape.Outlasts f.shape ∧ ¬ f.shape.Outlasts x.shape) := by
  let b : BlockInfo := ⟨output, input, .jacobian f.shape x.shape⟩
  have hlength : b.zeros.length = (Shape.jacobian f.shape x.shape).count := b.zeros.length_eq
  refine ⟨_, b.zeros, addBlock_of_lookup hf hfr hx hxr, find?_blockBuffers_append m b, ?_, ?_, ?_, ?_⟩
  · intro o
    obtain ⟨hfo, hfc⟩ := o.product_eq hfw
    obtain ⟨hxo, hxc⟩ := o.product_eq hxw
    obtain ⟨hbo, hbc⟩ := o.product_eq hw
    exact ⟨_, _, _, hfo, hfc, hxo, hxc, hbo, hbc.trans hlength.symm⟩
  · rintro ⟨hnil, hscalar, -⟩
    rw [hlength, hnil, Shape.count_jacobian_of_nil_left, if_neg hscalar]
  · rintro ⟨hnil, hscalar, -⟩
    rw [hlength, hnil, Shape.count_jacobian_of_nil_right, if_neg hscalar]
  · rw [hlength]
    exact Shape.count_jacobian_iff f.shape x.shape

theorem length_block_of_pair :
    let m : Metadata :=
      ⟨.explicit, [⟨"f", .output, [2], "m"⟩, ⟨"x", .input, [3], "s"⟩], [],
        .ofList [("f", 0), ("x", 1)], ∅⟩
    ∃ m' buffer, m.addBlock "f" "x" = (.ok (), m') ∧
      m'.blockBuffers.find? ⟨"f", "x"⟩ = some buffer ∧
      Overflow.stops.product [2, 3] = pure 6 ∧ buffer.length = 6 := by
  intro m
  have hf : m.lookup "f" = some ⟨"f", .output, [2], "m"⟩ := by decide +kernel
  have hx : m.lookup "x" = some ⟨"x", .input, [3], "s"⟩ := by decide +kernel
  obtain ⟨m', buffer, hm', hbuffer, -, -, -, hlength⟩ :=
    length_block_iff hf rfl hx (.inl rfl) ⟨by decide, by decide⟩ ⟨by decide, by decide⟩
      ⟨by decide, by decide⟩
  refine ⟨m', buffer, hm', hbuffer, rfl, hlength.mpr ⟨?_, ?_⟩⟩
  · exact fun h => absurd h.1 (by decide)
  · exact fun h => absurd h.1 (by decide)

/-- An output without dimensions, which holds nothing, next to an array: the block is declared, the
store is valid, and its buffer holds the values of the array. -/
theorem length_block_of_nothing :
    ∃ m₁ m₂ m₃ buffer,
      (fresh .explicit).addVariable .output "f" [] "" = (.ok (), m₁) ∧
      m₁.addVariable .input "x" [3] "" = (.ok (), m₂) ∧
      m₂.addBlock "f" "x" = (.ok (), m₃) ∧ m₃.validate = .ok () ∧
      m₃.blockBuffers.find? ⟨"f", "x"⟩ = some buffer ∧
      buffer.length = 3 ∧ buffer.length ≠ Shape.count [] * Shape.count [3] := by
  let b : BlockInfo := ⟨"f", "x", [3]⟩
  refine ⟨_, _, _, b.zeros, rfl, rfl, rfl, ?_, ?_, rfl, by decide⟩
  · rfl
  · decide +kernel

end Metadata

end RemoteDiscipline
