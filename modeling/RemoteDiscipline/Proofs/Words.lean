import RemoteDiscipline.Proofs.Chunks
/-!
Slicing with words of 64 bits.

The positions of a buffer are exact numbers here, while a machine calculates them with words, where
a result that does not fit stops the calculation or loses its highest bits. The same steps with
words lead to the same ranges as long as the buffer has at most `2 ^ 63` values
(`Overflow.ranges_eq`), since a chunk that is not the first one starts inside the buffer and is not
longer than the part before it. The range of a received chunk is exact for every buffer
(`Overflow.targetRange_eq`), because the checks that come first leave only a difference and two
successors that fit.
-/

namespace RemoteDiscipline

/-- What a calculation with words does when a result does not fit. -/
inductive Overflow
  /-- It is stopped. -/
  | stops
  /-- It goes on with the lowest 64 bits. -/
  | wraps
  deriving DecidableEq

/-- A calculation with words. It may end in an error, and it gives nothing when it is stopped. -/
abbrev Calculation := ExceptT Error Option

structure WordChunk where
  name : String
  inputName : Option String
  start : Int64
  stop : Int64
  role : Role
  data : List Binary64

def WordChunk.toChunk (c : WordChunk) : Chunk where
  name := c.name
  inputName := c.inputName
  start := c.start.toInt
  stop := c.stop.toInt
  role := c.role
  data := c.data

namespace Overflow

/-! ### Calculations -/

/-- The result of an operation. It is the exact one if this fits. -/
def result (o : Overflow) (fits : Prop) [Decidable fits] (a : UInt64) : Calculation UInt64 :=
  if fits ∨ o = .wraps then pure a else none

def add (o : Overflow) (a b : UInt64) : Calculation UInt64 :=
  o.result (a.toNat + b.toNat < 0x1_0000_0000_0000_0000) (a + b)

def sub (o : Overflow) (a b : UInt64) : Calculation UInt64 := o.result (b ≤ a) (a - b)

def mul (o : Overflow) (a b : UInt64) : Calculation UInt64 :=
  o.result (a.toNat * b.toNat < 0x1_0000_0000_0000_0000) (a * b)

def divideUp (o : Overflow) (a b : UInt64) : Calculation UInt64 :=
  if 0 < a % b then o.add (a / b) 1 else pure (a / b)

def lower (a b : UInt64) : UInt64 := if a ≤ b then a else b

def upper (a b : UInt64) : UInt64 := if a ≤ b then b else a

def count (o : Overflow) (length size : UInt64) : Calculation UInt64 :=
  if size = 0 then throw (.bounds "chunk size must be > 0")
  else do
    let n ← o.divideUp length size
    return upper n 1

def range (o : Overflow) (length size i : UInt64) : Calculation (UInt64 × UInt64) := do
  let start ← o.mul i size
  let next ← o.add i 1
  let stop ← o.mul next size
  return (lower start length, lower stop length)

def ranges (o : Overflow) (length size : UInt64) : Calculation (List (UInt64 × UInt64)) := do
  let n ← o.count length size
  (List.range n.toNat).mapM fun i => o.range length size (.ofNat i)

def unsigned (i : Int64) (e : Error) : Calculation UInt64 :=
  if i < 0 then throw e else pure i.toUInt64

def targetRange (o : Overflow) (c : WordChunk) (length : UInt64) : Calculation (UInt64 × UInt64) :=
  if c.start < 0 then throw (.bounds
    s!"start index cannot be negative ({c.start.toInt}) for variable '{c.name}'")
  else if c.stop < 0 then throw (.bounds
    s!"end index cannot be negative ({c.stop.toInt}) for variable '{c.name}'")
  else do
    let start ← unsigned c.start (.bounds s!"start index {c.start.toInt} overflows")
    let stop ← unsigned c.stop (.bounds s!"end index {c.stop.toInt} overflows")
    if start > stop then throw (.bounds
      s!"start index {start.toNat} greater than end index {stop.toNat} for variable '{c.name}'")
    else if stop ≥ length then throw (.bounds
      s!"end index {stop.toNat} out of range for variable '{c.name}' of length {length.toNat}")
    else do
      let distance ← o.sub stop start
      let expected ← o.add distance 1
      if c.data.length ≠ expected.toNat then throw (.bounds
        (s!"chunk for variable '{c.name}' carries {c.data.length} values " ++
          s!"but range [{start.toNat}, {stop.toNat}] needs {expected.toNat}"))
      else do
        let behind ← o.add stop 1
        return (start, behind)

/-- Whether a calculation is not stopped and ends as it does with exact numbers: with the word for
the exact result, or with the same error. -/
def Exact {α β : Type} (value : α → β) (calculation : Calculation α) (exact : Except Error β) :
    Prop :=
  ∃ r, calculation.run = some r ∧ r.map value = exact

def bounds (r : UInt64 × UInt64) : Nat × Nat := (r.1.toNat, r.2.toNat)

theorem Exact.fail {α β : Type} (value : α → β) (e : Error) : Exact value (throw e) (.error e) :=
  ⟨.error e, rfl, rfl⟩

theorem Exact.ite {α β : Type} {value : α → β} {p q : Prop} [Decidable p] [Decidable q]
    {x y : Calculation α} {x' y' : Except Error β} (hiff : p ↔ q) (hthen : q → Exact value x x')
    (helse : ¬ q → Exact value y y') : Exact value (if p then x else y) (if q then x' else y') := by
  by_cases hq : q
  · rw [if_pos (hiff.mpr hq), if_pos hq]
    exact hthen hq
  · rw [if_neg (mt hiff.mp hq), if_neg hq]
    exact helse hq

/-! ### Results that fit -/

variable (o : Overflow) {a b : UInt64} {m n : Nat}

theorem result_of_fits {fits : Prop} [Decidable fits] (h : fits) : o.result fits a = pure a :=
  if_pos (.inl h)

theorem toNat_ofNat (h : n < 0x1_0000_0000_0000_0000) : (UInt64.ofNat n).toNat = n :=
  UInt64.toNat_ofNat_of_lt' h

theorem add_eq (ha : a.toNat = m) (hb : b.toNat = n) (h : m + n < 0x1_0000_0000_0000_0000) :
    o.add a b = pure (.ofNat (m + n)) := by
  subst ha hb
  rw [add, result_of_fits o h, UInt64.ofNat_add, UInt64.ofNat_toNat, UInt64.ofNat_toNat]

theorem sub_eq (ha : a.toNat = m) (hb : b.toNat = n) (h : n ≤ m) :
    o.sub a b = pure (.ofNat (m - n)) := by
  subst ha hb
  have hle : b ≤ a := UInt64.le_iff_toNat_le.mpr h
  rw [sub, result_of_fits o hle, ← UInt64.toNat_sub_of_le a b hle, UInt64.ofNat_toNat]

theorem mul_eq (ha : a.toNat = m) (hb : b.toNat = n) (h : m * n < 0x1_0000_0000_0000_0000) :
    o.mul a b = pure (.ofNat (m * n)) := by
  subst ha hb
  rw [mul, result_of_fits o h, UInt64.ofNat_mul, UInt64.ofNat_toNat, UInt64.ofNat_toNat]

theorem lower_eq (ha : a.toNat = m) (hb : b.toNat = n) : lower a b = .ofNat (min m n) := by
  subst ha hb
  rw [lower]
  split
  · rename_i hle
    rw [Nat.min_eq_left (UInt64.le_iff_toNat_le.mp hle), UInt64.ofNat_toNat]
  · rename_i hlt
    have hle := Nat.le_of_not_le (mt UInt64.le_iff_toNat_le.mpr hlt)
    rw [Nat.min_eq_right hle, UInt64.ofNat_toNat]

theorem upper_eq (ha : a.toNat = m) (hb : b.toNat = n) : upper a b = .ofNat (max m n) := by
  subst ha hb
  rw [upper]
  split
  · rename_i hle
    rw [Nat.max_eq_right (UInt64.le_iff_toNat_le.mp hle), UInt64.ofNat_toNat]
  · rename_i hlt
    have hle := Nat.le_of_not_le (mt UInt64.le_iff_toNat_le.mpr hlt)
    rw [Nat.max_eq_left hle, UInt64.ofNat_toNat]

/-! ### The ranges of the chunks -/

section Quotients

variable {length size : Nat}

theorem add_pred_div (length : Nat) (hsize : 1 ≤ size) :
    (length + size - 1) / size = length / size + if 0 < length % size then 1 else 0 := by
  have hlength := Nat.div_add_mod length size
  have hrest := Nat.mod_lt length hsize
  split
  · have hsum : length + size - 1 = size * (length / size + 1) + (length % size - 1) := by
      rw [Nat.mul_succ]
      omega
    have hless : (length % size - 1) / size = 0 := Nat.div_eq_of_lt (by omega)
    rw [hsum, Nat.mul_add_div hsize, hless, Nat.add_zero]
  · have hsum : length + size - 1 = size * (length / size) + (size - 1) := by omega
    have hless : (size - 1) / size = 0 := Nat.div_eq_of_lt (by omega)
    rw [hsum, Nat.mul_add_div hsize, hless]

theorem add_pred_div_le (length : Nat) (hsize : 1 ≤ size) :
    (length + size - 1) / size ≤ length := by
  have hlength := Nat.div_add_mod length size
  have hle : length / size ≤ size * (length / size) := Nat.le_mul_of_pos_left _ hsize
  rw [add_pred_div length hsize]
  split <;> omega

/-- The products that belong to a chunk of a buffer with at most `2 ^ 63` values fit. -/
theorem succ_mul_lt {i : Nat} (hlength : length ≤ 0x8000_0000_0000_0000) (hsize : 1 ≤ size)
    (hfits : size < 0x1_0000_0000_0000_0000) (hi : i < Chunk.needed length size) :
    (i + 1) * size < 0x1_0000_0000_0000_0000 := by
  rcases Nat.eq_zero_or_pos i with rfl | hpos
  · rwa [Nat.zero_add, Nat.one_mul]
  · have hnonempty : 0 < length := by
      have hle := add_pred_div_le length hsize
      rw [Chunk.needed] at hi
      omega
    -- The chunk starts inside the buffer, and it is not longer than what comes before it.
    have hstart := Chunk.mul_lt_of_lt_needed hsize hi hnonempty
    have hbefore : size ≤ i * size := Nat.le_mul_of_pos_left size hpos
    rw [Nat.succ_mul]
    omega

end Quotients

variable {length size : UInt64}

theorem divideUp_eq (hsize : 1 ≤ size.toNat) :
    o.divideUp length size = pure (.ofNat ((length.toNat + size.toNat - 1) / size.toNat)) := by
  have hiff : 0 < length % size ↔ 0 < length.toNat % size.toNat := by
    rw [UInt64.lt_iff_toNat_lt, UInt64.toNat_mod]
    rfl
  have hle := add_pred_div_le length.toNat hsize
  rw [add_pred_div _ hsize] at hle ⊢
  rw [divideUp]
  by_cases hrest : 0 < length.toNat % size.toNat
  · rw [if_pos hrest] at hle ⊢
    rw [if_pos (hiff.mpr hrest)]
    exact add_eq o (UInt64.toNat_div _ _) rfl (Nat.lt_of_le_of_lt hle length.toNat_lt)
  · rw [if_neg (mt hiff.mp hrest), if_neg hrest, Nat.add_zero, ← UInt64.toNat_div,
      UInt64.ofNat_toNat]

theorem needed_lt (hsize : 1 ≤ size.toNat) :
    Chunk.needed length.toNat size.toNat < 0x1_0000_0000_0000_0000 := by
  have hlength := length.toNat_lt
  have hle := add_pred_div_le length.toNat hsize
  rw [Chunk.needed]
  omega

theorem count_eq (hsize : 1 ≤ size.toNat) :
    o.count length size = pure (.ofNat (Chunk.needed length.toNat size.toNat)) := by
  have hzero : size ≠ 0 := by
    rintro rfl
    exact absurd hsize (by decide)
  have hfits := Nat.lt_of_le_of_lt (add_pred_div_le _ hsize) length.toNat_lt
  rw [count, if_neg hzero, divideUp_eq o hsize, pure_bind, upper_eq (toNat_ofNat hfits) rfl,
    Nat.max_comm]
  rfl

theorem range_eq {i : Nat} (hlength : length.toNat ≤ 0x8000_0000_0000_0000)
    (hsize : 1 ≤ size.toNat) (hi : i < Chunk.needed length.toNat size.toNat) :
    o.range length size (.ofNat i) =
      pure (.ofNat (Chunk.position length.toNat size.toNat i),
        .ofNat (Chunk.position length.toNat size.toNat (i + 1))) := by
  have hhigh := succ_mul_lt hlength hsize size.toNat_lt hi
  have hlow : i * size.toNat < 0x1_0000_0000_0000_0000 :=
    Nat.lt_of_le_of_lt (Nat.mul_le_mul_right _ (Nat.le_succ i)) hhigh
  have hnext : i + 1 < 0x1_0000_0000_0000_0000 :=
    Nat.lt_of_le_of_lt (Nat.le_mul_of_pos_right _ hsize) hhigh
  have hindex := toNat_ofNat (Nat.lt_of_succ_lt hnext)
  rw [range, mul_eq o hindex rfl hlow, pure_bind, add_eq o hindex UInt64.toNat_one hnext, pure_bind,
    mul_eq o (toNat_ofNat hnext) rfl hhigh, pure_bind, lower_eq (toNat_ofNat hlow) rfl,
    lower_eq (toNat_ofNat hhigh) rfl]
  rfl

/-- Words lead to the ranges that exact numbers lead to. -/
theorem ranges_eq (hlength : length.toNat ≤ 0x8000_0000_0000_0000) (hsize : 1 ≤ size.toNat) :
    Exact (List.map bounds) (o.ranges length size) (Chunk.ranges length.toNat size.toNat) := by
  have hposition (i : Nat) :
      (UInt64.ofNat (Chunk.position length.toNat size.toNat i)).toNat =
        Chunk.position length.toNat size.toNat i :=
    toNat_ofNat (Nat.lt_of_le_of_lt (Chunk.position_le _ _ i) length.toNat_lt)
  refine ⟨.ok ((List.range (Chunk.needed length.toNat size.toNat)).map fun i =>
    (.ofNat (Chunk.position length.toNat size.toNat i),
      .ofNat (Chunk.position length.toNat size.toNat (i + 1)))), ?_, ?_⟩
  · rw [ranges, count_eq o hsize, pure_bind, toNat_ofNat (needed_lt hsize)]
    rw [mapM_of_pure fun i hi => range_eq o hlength hsize (List.mem_range.mp hi)]
    rfl
  · rw [Chunk.ranges, Chunk.count_eq hsize]
    show Except.ok (((List.range _).map _).map bounds) = Except.ok _
    rw [List.map_map]
    simp only [Function.comp_def, bounds, hposition]
    rfl

/-! ### The range of a received chunk -/

theorem unsigned_eq {i : Int64} (e : Error) (h : ¬ i < 0) :
    unsigned i e = pure i.toUInt64 ∧ i.toUInt64.toNat = i.toInt.toNat := by
  refine ⟨if_neg h, ?_⟩
  rw [Int64.toNat_toUInt64_of_le (Int64.not_lt.mp h)]
  rfl

theorem targetRange_eq (c : WordChunk) (length : UInt64) :
    Exact bounds (o.targetRange c length) (c.toChunk.targetRange length.toNat) := by
  have hnegative (i : Int64) : i < 0 ↔ i.toInt < 0 := Int64.lt_iff_toInt_lt
  refine .ite (hnegative _) (fun _ => .fail _ _) fun hstart => ?_
  refine .ite (hnegative _) (fun _ => .fail _ _) fun hstop => ?_
  obtain ⟨hfirst, ha⟩ := unsigned_eq (.bounds s!"start index {c.start.toInt} overflows")
    (mt (hnegative _).mp hstart)
  obtain ⟨hlast, hb⟩ := unsigned_eq (.bounds s!"end index {c.stop.toInt} overflows")
    (mt (hnegative _).mp hstop)
  rw [hfirst, pure_bind, hlast, pure_bind, ha, hb]
  have hlength := length.toNat_lt
  refine .ite (UInt64.lt_iff_toNat_lt.trans (by rw [ha, hb]; rfl)) (fun _ => .fail _ _)
    fun hle => ?_
  refine .ite (UInt64.le_iff_toNat_le.trans (by rw [hb]; rfl)) (fun _ => .fail _ _)
    fun hlt => ?_
  change ¬ c.start.toInt.toNat > c.stop.toInt.toNat at hle
  change ¬ c.stop.toInt.toNat ≥ length.toNat at hlt
  have hdistance : c.stop.toInt.toNat - c.start.toInt.toNat + 1 < 0x1_0000_0000_0000_0000 := by
    omega
  have hbehind : c.stop.toInt.toNat + 1 < 0x1_0000_0000_0000_0000 := by omega
  rw [sub_eq o hb ha (Nat.not_lt.mp hle), pure_bind,
    add_eq o (toNat_ofNat (Nat.lt_of_succ_lt hdistance)) UInt64.toNat_one hdistance, pure_bind,
    toNat_ofNat hdistance]
  refine .ite Iff.rfl (fun _ => .fail _ _) fun _ => ?_
  rw [add_eq o hb UInt64.toNat_one hbehind, pure_bind]
  refine ⟨.ok (c.start.toUInt64, .ofNat (c.stop.toInt.toNat + 1)), rfl, ?_⟩
  show Except.ok (c.start.toUInt64.toNat, (UInt64.ofNat (c.stop.toInt.toNat + 1)).toNat) = _
  rw [ha, toNat_ofNat hbehind]
  rfl

/-- Slicing with words is exact, whatever happens when a result does not fit. Of a buffer with at
most `2 ^ 63` values every product fits that the ranges of its chunks are calculated from. The range
of a received chunk is calculated exactly for every buffer, and where there is one it holds
something and lies in the buffer, with as many positions as there are values in the chunk. -/
theorem slicing_exact (o : Overflow) :
    (∀ length size : UInt64, length.toNat ≤ 0x8000_0000_0000_0000 → 1 ≤ size.toNat →
      (∃ n, Chunk.count length.toNat size.toNat = .ok n ∧ ∀ i < n,
        i * size.toNat ≤ 0xffff_ffff_ffff_ffff ∧ (i + 1) * size.toNat ≤ 0xffff_ffff_ffff_ffff) ∧
      Exact (List.map bounds) (o.ranges length size) (Chunk.ranges length.toNat size.toNat)) ∧
    ∀ (c : WordChunk) (length : UInt64),
      Exact bounds (o.targetRange c length) (c.toChunk.targetRange length.toNat) ∧
      ∀ a b, (o.targetRange c length).run = some (.ok (a, b)) →
        a.toNat < b.toNat ∧ b.toNat ≤ length.toNat ∧ c.data.length = b.toNat - a.toNat := by
  refine ⟨fun length size hlength hsize => ⟨?_, ranges_eq o hlength hsize⟩, fun c length =>
    ⟨targetRange_eq o c length, fun a b hab => ?_⟩⟩
  · refine ⟨_, Chunk.count_eq hsize, fun i hi => ?_⟩
    have hhigh := succ_mul_lt hlength hsize size.toNat_lt hi
    have hlow : i * size.toNat ≤ (i + 1) * size.toNat := Nat.mul_le_mul_right _ (Nat.le_succ i)
    omega
  · obtain ⟨r, hr, hexact⟩ := targetRange_eq o c length
    rw [hab] at hr
    cases hr
    obtain ⟨-, -, hlt, hle, hdata⟩ := Chunk.targetRange_eq_ok.mp hexact.symm
    exact ⟨hlt, hle, hdata⟩

/-- Two chunks of the longest buffer, the first of them as long as it can be, and a chunk that is
written to its end. The second product is the largest word but one. -/
theorem slicing_exact_at_limit :
    let c : WordChunk :=
      ⟨"y", none, 0x7fff_ffff_ffff_fffe, 0x7fff_ffff_ffff_ffff, .output, [⟨1⟩, ⟨2⟩]⟩
    (0x8000_0000_0000_0000 : UInt64).toNat ≤ 0x8000_0000_0000_0000 ∧
      1 ≤ (0x7fff_ffff_ffff_ffff : UInt64).toNat ∧
      (1 + 1) * 0x7fff_ffff_ffff_ffff ≤ 0xffff_ffff_ffff_ffff ∧
      Exact (List.map bounds) (stops.ranges 0x8000_0000_0000_0000 0x7fff_ffff_ffff_ffff)
        (.ok [(0, 0x7fff_ffff_ffff_ffff), (0x7fff_ffff_ffff_ffff, 0x8000_0000_0000_0000)]) ∧
      ∃ r, (stops.targetRange c 0x8000_0000_0000_0000).run = some (.ok r) ∧
        bounds r = (0x7fff_ffff_ffff_fffe, 0x8000_0000_0000_0000) ∧
        c.data.length = r.2.toNat - r.1.toNat := by
  intro c
  have hlength : (0x8000_0000_0000_0000 : UInt64).toNat ≤ 0x8000_0000_0000_0000 := by decide
  have hsize : 1 ≤ (0x7fff_ffff_ffff_ffff : UInt64).toNat := by decide
  have hcount : Chunk.count (0x8000_0000_0000_0000 : UInt64).toNat
      (0x7fff_ffff_ffff_ffff : UInt64).toNat = .ok 2 := by rfl
  have htarget : c.toChunk.targetRange (0x8000_0000_0000_0000 : UInt64).toNat =
      .ok (0x7fff_ffff_ffff_fffe, 0x8000_0000_0000_0000) :=
    Chunk.targetRange_eq_ok.mpr ⟨by decide, by decide, by decide, by decide, by decide⟩
  obtain ⟨hbuffers, hchunks⟩ := slicing_exact .stops
  obtain ⟨⟨n, hn, hproducts⟩, hranges⟩ := hbuffers _ _ hlength hsize
  obtain rfl : n = 2 := Except.ok.inj (hn.symm.trans hcount)
  obtain ⟨⟨result, hrun, hexact⟩, hinside⟩ := hchunks c 0x8000_0000_0000_0000
  cases result with
  | error e => cases hexact.trans htarget
  | ok r =>
      have hbounds := Except.ok.inj (hexact.trans htarget)
      obtain ⟨-, -, hdata⟩ := hinside _ _ hrun
      exact ⟨hlength, hsize, (hproducts 1 (by decide)).2, hranges, r, hrun, hbounds, hdata⟩

/-- With one value more a product may be too large. -/
example : (stops.ranges 0x8000_0000_0000_0001 0x8000_0000_0000_0000).run = none := by rfl

end Overflow

end RemoteDiscipline
