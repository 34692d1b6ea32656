import Mathlib.Algebra.Group.Nat.Defs
import RemoteDiscipline.Proofs.Tables
import RemoteDiscipline.Wire.Format
/-!
Which values a format gives back as they were written.

Each law says on which values a format is faithful, and the laws compose like the formats themselves,
so a record is faithful where its parts are. The bounds are those of the machine numbers that the
formats stand for.
-/

namespace RemoteDiscipline.Wire.Format

variable {α β : Type}

/-! ### Numbers -/

theorem readLittleEndian_littleEndian (k : Nat) {n : Nat} (hn : n < 256 ^ k) (rest : List UInt8) :
    readLittleEndian k (littleEndian k n ++ rest) = some (n, rest) := by
  induction k generalizing n with
  | zero =>
      have hzero : n = 0 := by
        rw [Nat.pow_zero] at hn
        omega
      rw [hzero]
      rfl
  | succ k ih =>
      have hdiv : n / 256 < 256 ^ k := by
        rw [Nat.pow_succ] at hn
        exact Nat.div_lt_of_lt_mul (by omega)
      have hbyte : n.toUInt8.toNat = n % 256 := UInt8.toNat_ofNat'
      simp only [littleEndian, List.cons_append, readLittleEndian, ih hdiv, hbyte,
        Option.some.injEq, Prod.mk.injEq, and_true]
      omega

def IsWidth (width : Nat) : Prop := width = 2 ∨ width = 4 ∨ width = 8

theorem readNatural_two {width : Nat} (h : 2 ≤ width) (bs : List UInt8) :
    readNatural width (251 :: bs) = readLittleEndian 2 bs := by
  simp [readNatural, h]

theorem readNatural_four {width : Nat} (h : 4 ≤ width) (bs : List UInt8) :
    readNatural width (252 :: bs) = readLittleEndian 4 bs := by
  simp [readNatural, h]

theorem readNatural_eight {width : Nat} (h : 8 ≤ width) (bs : List UInt8) :
    readNatural width (253 :: bs) = readLittleEndian 8 bs := by
  simp [readNatural, h]

theorem faithful_natural {width : Nat} (hw : IsWidth width) :
    (natural width).Faithful (· < 256 ^ width) := by
  intro n rest hn
  have hfour : 4 ≤ width ∨ n < 256 ^ 2 := by
    rcases hw with rfl | rfl | rfl
    · exact .inr hn
    · exact .inl (by omega)
    · exact .inl (by omega)
  have height : 8 ≤ width ∨ n < 256 ^ 4 := by
    rcases hw with rfl | rfl | rfl
    · exact .inr (by omega)
    · exact .inr hn
    · exact .inl (by omega)
  have htwo : 2 ≤ width := by
    rcases hw with rfl | rfl | rfl <;> omega
  have hlarge : n < 256 ^ 8 := by
    rcases hw with rfl | rfl | rfl <;> omega
  show readNatural width (writeNatural n ++ rest) = some (n, rest)
  rw [writeNatural]
  split
  · rename_i h
    have hbyte : n.toUInt8.toNat = n := by
      rw [show n.toUInt8.toNat = n % 256 from UInt8.toNat_ofNat']
      omega
    simp only [List.cons_append, List.nil_append, readNatural, hbyte, h, if_true]
  · split
    · rename_i h
      simp only [List.cons_append, readNatural_two htwo]
      exact readLittleEndian_littleEndian 2 h rest
    · split
      · rename_i hge h
        simp only [List.cons_append, readNatural_four (hfour.resolve_right hge)]
        exact readLittleEndian_littleEndian 4 h rest
      · rename_i hge
        simp only [List.cons_append, readNatural_eight (height.resolve_right hge)]
        exact readLittleEndian_littleEndian 8 hlarge rest

theorem length_natural_le (width n : Nat) : ((natural width).write n).length ≤ 9 := by
  show (writeNatural n).length ≤ 9
  unfold writeNatural
  repeat' split
  all_goals simp [littleEndian]

theorem faithful_size : size.Faithful (· < 0x1_0000_0000_0000_0000) :=
  faithful_natural (.inr (.inr rfl))

theorem faithful_caseNumber : caseNumber.Faithful (· < 0x1_0000_0000) :=
  faithful_natural (.inr (.inl rfl))

def IsInteger (i : Int) : Prop := -0x8000_0000_0000_0000 ≤ i ∧ i < 0x8000_0000_0000_0000

theorem faithful_integer : integer.Faithful IsInteger := by
  intro i rest hi
  obtain ⟨hlow, hhigh⟩ := hi
  have hsize : (if 0 ≤ i then (2 * i).toNat else (-2 * i - 1).toNat) <
      0x1_0000_0000_0000_0000 := by
    split <;> omega
  simp only [integer, faithful_size _ rest hsize, Option.some.injEq, Prod.mk.injEq, and_true]
  split <;> split <;> omega

theorem faithful_binary64 : binary64.Faithful fun _ => True := by
  intro x rest _
  have hbits : x.bits.toNat < 256 ^ 8 := x.bits.toNat_lt
  simp only [binary64, readLittleEndian_littleEndian 8 hbits]
  rw [show x.bits.toNat.toUInt64 = x.bits from UInt64.ofNat_toNat]

theorem faithful_bool : bool.Faithful fun _ => True := by
  intro b rest _
  cases b <;> rfl

/-! ### Texts -/

/-- The bytes of a text are the bytes of that text alone. -/
theorem fromUTF8?_toUTF8 (s : String) : String.fromUTF8? ⟨s.toUTF8.data.toList.toArray⟩ = some s := by
  have hvalid : (⟨s.toUTF8.data.toList.toArray⟩ : ByteArray).IsValidUTF8 := s.isValidUTF8
  rw [String.fromUTF8?, dif_pos hvalid]
  rfl

theorem faithful_string : string.Faithful fun s => s.utf8ByteSize < 0x1_0000_0000_0000_0000 := by
  intro s rest hs
  have hlength : s.toUTF8.data.toList.length = s.toUTF8.size := rfl
  have hsize : s.toUTF8.size < 0x1_0000_0000_0000_0000 := hs
  have henough : ¬ (s.toUTF8.data.toList ++ rest).length < s.toUTF8.size := by
    rw [List.length_append]
    omega
  have htake : (s.toUTF8.data.toList ++ rest).take s.toUTF8.size = s.toUTF8.data.toList := by
    rw [← hlength, List.take_left]
  have hdrop : (s.toUTF8.data.toList ++ rest).drop s.toUTF8.size = rest := by
    rw [← hlength, List.drop_left]
  simp only [string, List.append_assoc, faithful_size _ _ hsize, henough, if_false, htake, hdrop,
    fromUTF8?_toUTF8]

theorem utf8ByteSize_le_length (s : String) : s.utf8ByteSize ≤ (string.write s).length := by
  have hlength : s.toUTF8.data.toList.length = s.utf8ByteSize := rfl
  rw [string, List.length_append]
  omega

section Combinations

variable {f : Format α} {g : Format β} {fits : α → Prop} {fits' : β → Prop}

theorem Faithful.weaken (hf : f.Faithful fits) {p : α → Prop} (h : ∀ a, p a → fits a) :
    f.Faithful p := fun a rest ha => hf a rest (h a ha)

theorem Faithful.pair (hf : f.Faithful fits) (hg : g.Faithful fits') :
    (pair f g).Faithful fun p => fits p.1 ∧ fits' p.2 := by
  rintro ⟨a, b⟩ rest ⟨ha, hb⟩
  simp only [Format.pair, List.append_assoc, hf a _ ha, hg b _ hb]

/-- Values of another type are read as they were written if they can be told from their parts. -/
theorem Faithful.convert (hf : f.Faithful fits) {build : α → β} {parts : β → α} {p : β → Prop}
    (hp : ∀ b, p b → fits (parts b) ∧ build (parts b) = b) :
    (f.convert build parts).Faithful p := by
  intro b rest hb
  obtain ⟨hfits, hbuild⟩ := hp b hb
  simp only [Format.convert, hf _ _ hfits, hbuild]

theorem readMany_flatMap (hf : f.Faithful fits) (l done : List α) (hl : ∀ a ∈ l, fits a)
    (rest : List UInt8) :
    readMany f l.length done (l.flatMap f.write ++ rest) = some (done.reverse ++ l, rest) := by
  induction l generalizing done with
  | nil => simp [readMany]
  | cons a l ih =>
      have ha : fits a := hl a (by simp)
      have htail : ∀ b ∈ l, fits b := fun b hb => hl b (by simp [hb])
      simp only [List.length_cons, List.flatMap_cons, List.append_assoc, readMany, hf a _ ha,
        ih (a :: done) htail, List.reverse_cons, List.cons_append, List.nil_append]

/-- A list takes at least as many bytes as it has members, when each of them takes some. -/
theorem length_le_length_list (hf : ∀ a, f.write a ≠ []) (l : List α) :
    l.length ≤ ((list f).write l).length := by
  have hmembers : l.length ≤ (l.flatMap f.write).length := by
    induction l with
    | nil => exact Nat.zero_le _
    | cons a l ih =>
        have hfirst := List.length_pos_iff.mpr (hf a)
        rw [List.flatMap_cons, List.length_append, List.length_cons]
        omega
  show l.length ≤ (_ ++ l.flatMap f.write).length
  rw [List.length_append]
  omega

theorem Faithful.list (hf : f.Faithful fits) :
    (list f).Faithful fun l => l.length < 0x1_0000_0000_0000_0000 ∧ ∀ a ∈ l, fits a := by
  rintro l rest ⟨hlength, hl⟩
  simp only [Format.list, List.append_assoc, faithful_size _ _ hlength]
  exact readMany_flatMap hf l [] hl rest

theorem Faithful.option (hf : f.Faithful fits) :
    (option f).Faithful fun o => ∀ a, o = some a → fits a := by
  rintro (_ | a) rest ha
  · rfl
  · simp only [Format.option, List.cons_append, hf a rest (ha a rfl)]

/-- A table is given back, because its entries stand in the order of their keys. -/
theorem Faithful.table {κ : Type} [Key κ] {f : Format κ} {fits : κ → Prop} (hf : f.Faithful fits)
    (hg : g.Faithful fits') :
    (table f g).Faithful fun t => t.entries.length < 0x1_0000_0000_0000_0000 ∧
      ∀ e ∈ t.entries, fits e.1 ∧ fits' e.2 := by
  refine (hf.pair hg).list.convert ?_
  rintro t ht
  exact ⟨ht, Table.ofList_entries t⟩

theorem faithful_cases [DecidableEq α] {all : List α} (hall : all.length < 0x1_0000_0000) :
    (cases all).Faithful (· ∈ all) := by
  intro a rest ha
  have hlt : all.idxOf a < all.length := List.idxOf_lt_length_iff.mpr ha
  have hget : all[all.idxOf a]? = some a := by
    rw [List.getElem?_eq_getElem hlt, List.getElem_idxOf hlt]
  have hnumber : all.idxOf a < 0x1_0000_0000 := Nat.lt_trans hlt hall
  simp only [cases, faithful_caseNumber _ _ hnumber, hget]

end Combinations

end RemoteDiscipline.Wire.Format
