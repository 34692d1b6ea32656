import RemoteDiscipline.Proofs.Frames
/-!
What is counted in few bytes can be counted.

Texts and lists stand behind their number of bytes or members, so these numbers are never larger than
the bytes that are written, and of a frame that is not too large only the numbers themselves have to
be checked (`Frame.InRange.travels`).
-/

namespace RemoteDiscipline

open Wire

/-! ### Numbers -/

def OptionValue.InRange : OptionValue → Prop
  | .int i => Format.IsInteger i
  | .bool _ | .double _ | .string _ => True

def Message.InRange : Message → Prop
  | .streamOptions n => FitsSize n
  | .options o => ∀ e ∈ o.entries, e.2.InRange
  | .variableInfo v => ∀ n ∈ v.shape, FitsSize n
  | .blockInfo b => ∀ n ∈ b.shape, FitsSize n
  | .chunk c => Format.IsInteger c.start ∧ Format.IsInteger c.stop
  | .empty | .properties _ | .optionList _ => True

/-- Whether every number in a frame is one of those that its machine type has: 16 bits for a version,
64 bits for everything else, and a sign for the values of options and the ends of chunks. -/
def Frame.InRange : Frame → Prop
  | .opening version _ timeout => version < 0x1_0000 ∧ FitsSize timeout
  | .message m => m.InRange
  | .halfClose | .cancel | .close _ => True

namespace Wire

namespace Format

variable {α β : Type}

/-- A value with the right numbers fits, when all that is written of it can be counted. -/
def Counted (f : Format α) (inRange fits : α → Prop) : Prop :=
  ∀ ⦃a⦄, inRange a → FitsSize (f.write a).length → fits a

section Combinations

variable {f : Format α} {g : Format β} {inRange fits : α → Prop} {inRange' fits' : β → Prop}

theorem counted_any : f.Counted (fun _ => True) fun _ => True := fun _ _ _ => trivial

theorem counted_self (fits : α → Prop) : f.Counted fits fits := fun _ h _ => h

theorem FitsSize.of_append {bs bs' : List UInt8} (h : FitsSize (bs ++ bs').length) :
    FitsSize bs'.length := by
  rw [List.length_append] at h
  exact Nat.lt_of_le_of_lt (Nat.le_add_left _ _) h

theorem counted_string : string.Counted (fun _ => True) FitsText :=
  fun s _ hs => Nat.lt_of_le_of_lt (utf8ByteSize_le_length s) hs

theorem Counted.pair (hf : f.Counted inRange fits) (hg : g.Counted inRange' fits') :
    (pair f g).Counted (fun p => inRange p.1 ∧ inRange' p.2) fun p => fits p.1 ∧ fits' p.2 := by
  rintro ⟨a, b⟩ ⟨ha, hb⟩ hlength
  have hparts : FitsSize ((f.write a).length + (g.write b).length) := by
    rwa [← List.length_append]
  exact ⟨hf ha (Nat.lt_of_le_of_lt (Nat.le_add_right _ _) hparts),
    hg hb (Nat.lt_of_le_of_lt (Nat.le_add_left _ _) hparts)⟩

theorem Counted.convert (hf : f.Counted inRange fits) {build : α → β} {parts : β → α}
    (hin : ∀ b, inRange' b → inRange (parts b)) (hout : ∀ b, fits (parts b) → fits' b) :
    (f.convert build parts).Counted inRange' fits' :=
  fun b hb hlength => hout b (hf (hin b hb) hlength)

theorem Counted.list (hf : f.Counted inRange fits) (hne : ∀ a, f.write a ≠ []) :
    (list f).Counted (fun l => ∀ a ∈ l, inRange a) (FitsList fits) := by
  intro l hl hlength
  refine ⟨Nat.lt_of_le_of_lt (length_le_length_list hne l) hlength, fun a ha => ?_⟩
  have hmember : (f.write a).length ≤ ((Format.list f).write l).length := by
    have := (List.sublist_flatten_of_mem (List.mem_map_of_mem (f := f.write) ha)).length_le
    simp only [Format.list, List.flatMap, List.length_append]
    omega
  exact hf (hl a ha) (Nat.lt_of_le_of_lt hmember hlength)

theorem Counted.option (hf : f.Counted inRange fits) :
    (option f).Counted (fun o => ∀ a, o = some a → inRange a) fun o => ∀ a, o = some a → fits a := by
  rintro o ho hlength a rfl
  exact hf (ho a rfl) (Nat.lt_trans (Nat.lt_succ_self _) hlength)

theorem write_natural_ne_nil (width n : Nat) : (natural width).write n ≠ [] := by
  show writeNatural n ≠ []
  unfold writeNatural
  repeat' split
  all_goals exact List.cons_ne_nil _ _

theorem write_pair_ne_nil (h : ∀ a, f.write a ≠ []) (p : α × β) : (pair f g).write p ≠ [] :=
  List.append_ne_nil_of_left_ne_nil (h p.1) _

theorem write_string_ne_nil (s : String) : string.write s ≠ [] :=
  List.append_ne_nil_of_left_ne_nil (write_natural_ne_nil 8 _) _

end Combinations

end Format

/-! ### Payloads -/

open Format

theorem counted_shape : shape.Counted (fun s => ∀ n ∈ s, FitsSize n) (FitsList FitsSize) :=
  (counted_self FitsSize).list (write_natural_ne_nil 8)

theorem counted_status : status.Counted (fun _ => True) Status.Fits :=
  (counted_any.pair counted_string).convert
    (fun _ _ => ⟨trivial, trivial⟩) fun _ h => h.2

theorem counted_properties : properties.Counted (fun _ => True) Properties.Fits :=
  (counted_string.pair (counted_string.pair counted_any)).convert
    (fun _ _ => ⟨trivial, trivial, trivial⟩) fun _ h => ⟨h.1, h.2.1⟩

theorem counted_variableInfo :
    variableInfo.Counted (fun v => ∀ n ∈ v.shape, FitsSize n) VariableInfo.Fits :=
  (counted_string.pair (counted_any.pair
    (counted_shape.pair counted_string))).convert
      (fun _ hv => ⟨trivial, trivial, hv, trivial⟩) fun _ h => ⟨h.1, h.2.2.1, h.2.2.2⟩

theorem counted_blockInfo : blockInfo.Counted (fun b => ∀ n ∈ b.shape, FitsSize n) BlockInfo.Fits :=
  (counted_string.pair (counted_string.pair counted_shape)).convert
    (fun _ hb => ⟨trivial, trivial, hb⟩) fun _ h => h

theorem counted_optionInfo : optionInfo.Counted (fun _ => True) OptionInfo.Fits :=
  (counted_string.pair counted_any).convert
    (fun _ _ => ⟨trivial, trivial⟩) fun _ h => h.1

theorem counted_optionValue : optionValue.Counted OptionValue.InRange OptionValue.Fits := by
  intro v hv hlength
  cases v with
  | bool b => exact trivial
  | int i => exact hv
  | double x => exact trivial
  | string s => exact counted_string trivial (FitsSize.of_append hlength)

theorem counted_options : options.Counted (fun o => ∀ e ∈ o.entries, e.2.InRange)
    fun o => FitsList (fun e => FitsText e.1 ∧ e.2.Fits) o.entries :=
  ((counted_string.pair counted_optionValue).list (write_pair_ne_nil write_string_ne_nil)).convert
    (fun _ ho e he => ⟨trivial, ho e he⟩) fun _ h => h

theorem counted_chunk :
    chunk.Counted (fun c => IsInteger c.start ∧ IsInteger c.stop) Chunk.Fits :=
  (counted_string.pair (counted_string.option.pair ((counted_self IsInteger).pair
    ((counted_self IsInteger).pair (counted_any.pair
      (counted_any.list fun _ => List.cons_ne_nil _ _)))))).convert
        (fun _ hc => ⟨trivial, fun _ _ => trivial, hc.1, hc.2, trivial, fun _ _ => trivial⟩)
        fun _ h => ⟨h.1, h.2.1, h.2.2.1, h.2.2.2.1, h.2.2.2.2.2.1⟩

theorem counted_message : message.Counted Message.InRange Message.Fits := by
  intro m hm hlength
  cases m with
  | empty => exact trivial
  | properties p => exact counted_properties trivial (FitsSize.of_append hlength)
  | streamOptions n => exact hm
  | options o => exact counted_options hm (FitsSize.of_append hlength)
  | variableInfo v => exact counted_variableInfo hm (FitsSize.of_append hlength)
  | blockInfo b => exact counted_blockInfo hm (FitsSize.of_append hlength)
  | optionList l =>
      have hne (o : OptionInfo) : optionInfo.write o ≠ [] := write_pair_ne_nil write_string_ne_nil _
      exact (counted_optionInfo.list hne) (fun _ _ => trivial) (FitsSize.of_append hlength)
  | chunk c => exact counted_chunk hm (FitsSize.of_append hlength)

theorem counted_frame : frame.Counted Frame.InRange Frame.Fits := by
  intro f hf hlength
  cases f with
  | opening version m timeout => exact hf
  | message m => exact counted_message hf (FitsSize.of_append hlength)
  | halfClose | cancel => exact trivial
  | close s => exact counted_status trivial (FitsSize.of_append hlength)

end Wire

/-- A frame that is not too large can be written, if the numbers in it can. -/
theorem Frame.InRange.travels {limit : Nat} {f : Frame} (hf : f.InRange) (h : f.IsAllowed limit) :
    f.Travels limit :=
  ⟨h, counted_frame hf (Nat.lt_trans h.announced (by decide))⟩

end RemoteDiscipline
