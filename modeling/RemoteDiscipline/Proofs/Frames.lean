import RemoteDiscipline.Proofs.Formats
import RemoteDiscipline.Proofs.Reading
/-!
Frames arrive as they were sent.

A frame whose numbers, texts and lists can be written at all is read back from its bytes, whatever
follows them (`Frame.read_encode`). When the bytes come in parts, the reader waits until all of the
frame is there (`Frame.read_arriving`), so it does not matter where a stream was cut.
-/

namespace RemoteDiscipline

/-! ### What can be written -/

namespace Wire

/-- Whether the bytes of a text can be counted with 64 bits. -/
def FitsText (s : String) : Prop := s.utf8ByteSize < 0x1_0000_0000_0000_0000

def FitsSize (n : Nat) : Prop := n < 0x1_0000_0000_0000_0000

def FitsList {α : Type} (fits : α → Prop) (l : List α) : Prop := FitsSize l.length ∧ ∀ a ∈ l, fits a

end Wire

open Wire

def Status.Fits (s : Status) : Prop := FitsText s.message

def Properties.Fits (p : Properties) : Prop := FitsText p.name ∧ FitsText p.version

def VariableInfo.Fits (v : VariableInfo) : Prop :=
  FitsText v.name ∧ FitsList FitsSize v.shape ∧ FitsText v.units

def BlockInfo.Fits (b : BlockInfo) : Prop :=
  FitsText b.name ∧ FitsText b.inputName ∧ FitsList FitsSize b.shape

def OptionInfo.Fits (o : OptionInfo) : Prop := FitsText o.name

def OptionValue.Fits : OptionValue → Prop
  | .int i => Format.IsInteger i
  | .string s => FitsText s
  | .bool _ | .double _ => True

def Chunk.Fits (c : Chunk) : Prop :=
  FitsText c.name ∧ (∀ s, c.inputName = some s → FitsText s) ∧ Format.IsInteger c.start ∧
    Format.IsInteger c.stop ∧ FitsSize c.data.length

def Message.Fits : Message → Prop
  | .empty => True
  | .properties p => p.Fits
  | .streamOptions n => FitsSize n
  | .options o => FitsList (fun e => FitsText e.1 ∧ e.2.Fits) o.entries
  | .variableInfo v => v.Fits
  | .blockInfo b => b.Fits
  | .optionList l => FitsList OptionInfo.Fits l
  | .chunk c => c.Fits

def Frame.Fits : Frame → Prop
  | .opening version _ timeout => version < 0x1_0000 ∧ FitsSize timeout
  | .message m => m.Fits
  | .halfClose | .cancel => True
  | .close s => s.Fits

/-! ### Payloads -/

namespace Wire

open Format

theorem faithful_role : role.Faithful fun _ => True :=
  (faithful_cases (by decide)).weaken fun r _ => r.mem_all

theorem faithful_statusCode : statusCode.Faithful fun _ => True :=
  (faithful_cases (by decide)).weaken fun c _ => c.mem_all

theorem faithful_optionType : optionType.Faithful fun _ => True :=
  (faithful_cases (by decide)).weaken fun t _ => t.mem_all

theorem faithful_method : method.Faithful fun _ => True :=
  (faithful_cases (by decide)).weaken fun m _ => m.mem_all

theorem faithful_shape : shape.Faithful (FitsList FitsSize) := faithful_size.list

theorem faithful_status : status.Faithful Status.Fits :=
  (faithful_statusCode.pair faithful_string).convert fun _ hs => ⟨⟨trivial, hs⟩, rfl⟩

theorem faithful_properties : properties.Faithful Properties.Fits :=
  (faithful_string.pair (faithful_string.pair (faithful_bool.pair
    (faithful_bool.pair faithful_bool)))).convert fun _ hp =>
      ⟨⟨hp.1, hp.2, trivial, trivial, trivial⟩, rfl⟩

theorem faithful_variableInfo : variableInfo.Faithful VariableInfo.Fits :=
  (faithful_string.pair (faithful_role.pair (faithful_shape.pair faithful_string))).convert
    fun _ hv => ⟨⟨hv.1, trivial, hv.2.1, hv.2.2⟩, rfl⟩

theorem faithful_blockInfo : blockInfo.Faithful BlockInfo.Fits :=
  (faithful_string.pair (faithful_string.pair faithful_shape)).convert fun _ hb => ⟨hb, rfl⟩

theorem faithful_optionInfo : optionInfo.Faithful OptionInfo.Fits :=
  (faithful_string.pair faithful_optionType).convert fun _ ho => ⟨⟨ho, trivial⟩, rfl⟩

theorem read_caseNumber {i : Nat} (hi : i < 0x1_0000_0000) (rest : List UInt8) :
    caseNumber.read (caseNumber.write i ++ rest) = some (i, rest) := faithful_caseNumber i rest hi

theorem faithful_optionValue : optionValue.Faithful OptionValue.Fits := by
  intro v rest hv
  cases v with
  | bool b =>
      simp only [optionValue, List.append_assoc, read_caseNumber, Nat.reduceLT,
        faithful_bool b rest trivial, Option.map_some]
  | int i =>
      simp only [optionValue, List.append_assoc, read_caseNumber, Nat.reduceLT,
        faithful_integer i rest hv, Option.map_some]
  | double x =>
      simp only [optionValue, List.append_assoc, read_caseNumber, Nat.reduceLT,
        faithful_binary64 x rest trivial, Option.map_some]
  | string s =>
      simp only [optionValue, List.append_assoc, read_caseNumber, Nat.reduceLT,
        faithful_string s rest hv, Option.map_some]

theorem faithful_options :
    options.Faithful fun o => FitsList (fun e => FitsText e.1 ∧ e.2.Fits) o.entries :=
  faithful_string.table faithful_optionValue

theorem faithful_chunk : chunk.Faithful Chunk.Fits :=
  (faithful_string.pair (faithful_string.option.pair (faithful_integer.pair (faithful_integer.pair
    (faithful_role.pair faithful_binary64.list))))).convert fun _ hc =>
      ⟨⟨hc.1, hc.2.1, hc.2.2.1, hc.2.2.2.1, trivial, hc.2.2.2.2, fun _ _ => trivial⟩, rfl⟩

theorem faithful_message : message.Faithful Message.Fits := by
  intro m rest hm
  cases m with
  | empty => simp only [message, read_caseNumber, Nat.reduceLT]
  | properties p =>
      simp only [message, List.append_assoc, read_caseNumber, Nat.reduceLT,
        faithful_properties p rest hm, Option.map_some]
  | streamOptions n =>
      simp only [message, List.append_assoc, read_caseNumber, Nat.reduceLT,
        faithful_size n rest hm, Option.map_some]
  | options o =>
      simp only [message, List.append_assoc, read_caseNumber, Nat.reduceLT,
        faithful_options o rest hm, Option.map_some]
  | variableInfo v =>
      simp only [message, List.append_assoc, read_caseNumber, Nat.reduceLT,
        faithful_variableInfo v rest hm, Option.map_some]
  | blockInfo b =>
      simp only [message, List.append_assoc, read_caseNumber, Nat.reduceLT,
        faithful_blockInfo b rest hm, Option.map_some]
  | optionList l =>
      simp only [message, List.append_assoc, read_caseNumber, Nat.reduceLT,
        faithful_optionInfo.list l rest hm, Option.map_some]
  | chunk c =>
      simp only [message, List.append_assoc, read_caseNumber, Nat.reduceLT,
        faithful_chunk c rest hm, Option.map_some]

theorem faithful_frame : frame.Faithful Frame.Fits := by
  intro f rest hf
  cases f with
  | opening version m timeout =>
      have hparts : (pair (natural 2) (pair method size)).read
          (((natural 2).write version ++ (method.write m ++ size.write timeout)) ++ rest) =
          some ((version, m, timeout), rest) :=
        (faithful_natural (.inl rfl)).pair (faithful_method.pair faithful_size)
          (version, m, timeout) rest ⟨hf.1, trivial, hf.2⟩
      show frame.read ((caseNumber.write 0 ++ _) ++ rest) = _
      rw [List.append_assoc]
      simp only [frame, read_caseNumber, Nat.reduceLT, hparts, Option.map_some]
  | message m =>
      simp only [frame, List.append_assoc, read_caseNumber, Nat.reduceLT,
        faithful_message m rest hf, Option.map_some]
  | halfClose | cancel => simp only [frame, read_caseNumber, Nat.reduceLT]
  | close s =>
      simp only [frame, List.append_assoc, read_caseNumber, Nat.reduceLT,
        faithful_status s rest hf, Option.map_some]

theorem announcedLength_mod (n : Nat) :
    announcedLength (n / 0x100_0000).toUInt8 (n / 0x1_0000).toUInt8 (n / 0x100).toUInt8
      n.toUInt8 = n % 0x1_0000_0000 := by
  have hbyte (k : Nat) : k.toUInt8.toNat = k % 256 := UInt8.toNat_ofNat'
  simp only [announcedLength, hbyte]
  omega

theorem announcedLength_lengthBytes {n : Nat} (hn : n < 0x1_0000_0000) :
    announcedLength (n / 0x100_0000).toUInt8 (n / 0x1_0000).toUInt8 (n / 0x100).toUInt8
      n.toUInt8 = n :=
  (announcedLength_mod n).trans (Nat.mod_eq_of_lt hn)

end Wire

/-! ### Frames on a stream -/

namespace Frame

structure IsAllowed (limit : Nat) (f : Frame) : Prop where
  /-- The length of the payload has to be announced with four bytes. -/
  announced : (Wire.frame.write f).length < 0x1_0000_0000
  allowed : (Wire.frame.write f).length ≤ limit

/-- Whether a frame can be written, and is not too large. -/
structure Travels (limit : Nat) (f : Frame) : Prop extends IsAllowed limit f where
  fits : f.Fits

variable {limit : Nat} {f : Frame}

theorem IsAllowed.isAnnounceable (h : f.IsAllowed limit) : f.isAnnounceable = true :=
  decide_eq_true h.announced

/-- A frame is read from its bytes, and what follows is left alone. -/
theorem read_encode (h : f.Travels limit) (ended : Bool) (rest : List UInt8) :
    read limit ended (f.encode ++ rest) = .frame f rest := by
  have hread : Wire.frame.read (Wire.frame.write f) = some (f, []) := by
    have := Wire.faithful_frame f [] h.fits
    rwa [List.append_nil] at this
  show read limit ended (_ :: _ :: _ :: _ :: (Wire.frame.write f ++ rest)) = _
  rw [read_announced (Wire.announcedLength_lengthBytes h.announced).symm h.allowed, hread]

/-- While a frame is arriving, its reader either waits for the rest of it or has it. -/
theorem read_arriving (h : f.Travels limit) {input more rest : List UInt8}
    (heq : input ++ more = f.encode ++ rest) :
    (read limit false input = .waiting ∧ more ≠ []) ∨
      ∃ rest', read limit false input = .frame f rest' ∧ rest' ++ more = rest := by
  by_cases hlong : f.encode.length ≤ input.length
  · obtain ⟨rest', hrest, hmore⟩ : ∃ rest', input = f.encode ++ rest' ∧ rest = rest' ++ more := by
      rw [List.append_eq_append_iff] at heq
      obtain ⟨l, hl, hl'⟩ | ⟨l, hl, hl'⟩ := heq
      · have hnil : l = [] := by
          rw [hl, List.length_append] at hlong
          exact List.eq_nil_of_length_eq_zero (by omega)
        rw [hnil, List.append_nil] at hl
        rw [hnil, List.nil_append] at hl'
        exact ⟨[], by rw [hl, List.append_nil], by rw [hl', List.nil_append]⟩
      · exact ⟨l, hl, hl'⟩
    right
    refine ⟨rest', ?_, hmore.symm⟩
    rw [hrest, read_encode h]
  · left
    have hmore : more ≠ [] := by
      rintro rfl
      rw [List.append_nil] at heq
      rw [heq, List.length_append] at hlong
      omega
    refine ⟨?_, hmore⟩
    have hlength : f.encode.length = 4 + (Wire.frame.write f).length := by
      simp [encode, Wire.lengthBytes]
      omega
    match input, heq, hlong with
    | [], _, _ => rfl
    | [_], _, _ => rfl
    | [_, _], _, _ => rfl
    | [_, _, _], _, _ => rfl
    | a :: b :: c :: d :: tail, heq, hlong =>
        -- The announced length is there, and the payload is not.
        injection heq with ha heq
        injection heq with hb heq
        injection heq with hc heq
        injection heq with hd heq
        have hannounced : Wire.announcedLength a b c d = (Wire.frame.write f).length := by
          rw [ha, hb, hc, hd]
          exact Wire.announcedLength_lengthBytes h.announced
        have hlimit : Wire.announcedLength a b c d ≤ limit := hannounced ▸ h.allowed
        have hshort : tail.length < Wire.announcedLength a b c d := by
          simp only [List.length_cons] at hlong
          omega
        rw [read_incomplete hlimit hshort]
        rfl

def encodeAll (fs : List Frame) : List UInt8 := fs.flatMap encode

@[simp] theorem encodeAll_nil : encodeAll [] = [] := rfl

@[simp] theorem encodeAll_cons (f : Frame) (fs : List Frame) :
    encodeAll (f :: fs) = f.encode ++ encodeAll fs := rfl

@[simp] theorem encodeAll_append (fs gs : List Frame) :
    encodeAll (fs ++ gs) = encodeAll fs ++ encodeAll gs := by
  simp [encodeAll]

end Frame

end RemoteDiscipline
