import RemoteDiscipline.Proofs.Frames
/-!
Nothing is read from the mere beginning of what was written.

A format that has read a value has read it for good, whatever bytes follow (`Format.Stable`). So a
value that was written cannot be read from a strict beginning of its bytes, not even as another
value (`Format.Faithful.eq_of_read`). A reader that gets a frame out of a stream has therefore got
the frame that was written there, also where the announced length is not that of the payload because
it does not go into four bytes (`Frame.eq_of_read`).
-/

namespace RemoteDiscipline

namespace Wire

namespace Format

variable {α β : Type}

/-- What has been read stays what it is when more bytes follow. -/
def Stable (f : Format α) : Prop :=
  ∀ ⦃bs : List UInt8⦄ ⦃a : α⦄ ⦃rest : List UInt8⦄, f.read bs = some (a, rest) →
    ∀ more, f.read (bs ++ more) = some (a, rest ++ more)

/-- From a beginning of what was written only the value itself can be read, and only when all of it
is there. -/
theorem Faithful.eq_of_read {f : Format α} {fits : α → Prop} (hf : f.Faithful fits)
    (hstable : f.Stable) {a b : α} (ha : fits a) {bs more rest : List UInt8}
    (hread : f.read bs = some (b, rest)) (hbs : bs ++ more = f.write a) :
    b = a ∧ rest = [] ∧ more = [] := by
  have hall := hf a [] ha
  rw [List.append_nil, ← hbs, hstable hread more] at hall
  simpa using hall

/-! ### Numbers and texts -/

theorem readLittleEndian_append {k n : Nat} {bs rest : List UInt8}
    (h : readLittleEndian k bs = some (n, rest)) (more : List UInt8) :
    readLittleEndian k (bs ++ more) = some (n, rest ++ more) := by
  induction k generalizing bs n with
  | zero =>
      simp only [readLittleEndian, Option.some.injEq, Prod.mk.injEq] at h ⊢
      simp [h]
  | succ k ih =>
      cases bs with
      | nil => simp [readLittleEndian] at h
      | cons b bs =>
          simp only [readLittleEndian] at h
          split at h
          · rename_i n' rest' hread
            cases h
            simp [readLittleEndian, ih hread]
          · cases h

theorem stable_natural (width : Nat) : (natural width).Stable := by
  rintro (_ | ⟨b, bs⟩) n rest h more
  · simp [natural, readNatural] at h
  · simp only [natural, readNatural, List.cons_append] at h ⊢
    grind [readLittleEndian_append]

theorem stable_integer : integer.Stable := by
  intro bs i rest h more
  simp only [integer] at h ⊢
  split at h
  · rename_i n rest' hread
    cases h
    simp [(stable_natural 8) hread more, size]
  · cases h

theorem stable_binary64 : binary64.Stable := by
  intro bs x rest h more
  simp only [binary64] at h ⊢
  split at h
  · rename_i n rest' hread
    cases h
    simp [readLittleEndian_append hread more]
  · cases h

theorem stable_bool : bool.Stable := by
  intro bs b rest h more
  simp only [bool] at h
  split at h
  · cases h
    rfl
  · cases h
    rfl
  · cases h

theorem stable_string : string.Stable := by
  intro bs s rest h more
  simp only [string] at h ⊢
  split at h
  · rename_i n rest' hread
    rw [show size.read (bs ++ more) = _ from stable_natural 8 hread more]
    split at h
    · cases h
    · rename_i henough
      have hle : n ≤ rest'.length := by omega
      simp only [List.length_append, List.take_append_of_le_length hle,
        List.drop_append_of_le_length hle]
      rw [if_neg (by omega)]
      split at h
      · cases h
        rfl
      · cases h
  · cases h

/-! ### Combinations -/

section Combinations

variable {f : Format α} {g : Format β}

theorem Stable.pair (hf : f.Stable) (hg : g.Stable) : (pair f g).Stable := by
  intro bs p rest h more
  simp only [Format.pair] at h ⊢
  split at h
  · rename_i a bs₁ ha
    split at h
    · rename_i b bs₂ hb
      cases h
      simp [hf ha more, hg hb more]
    · cases h
  · cases h

theorem Stable.convert (hf : f.Stable) (build : α → β) (parts : β → α) :
    (f.convert build parts).Stable := by
  intro bs b rest h more
  simp only [Format.convert] at h ⊢
  split at h
  · rename_i a bs₁ ha
    cases h
    simp [hf ha more]
  · cases h

theorem readMany_append (hf : f.Stable) {n : Nat} {done l : List α} {bs rest : List UInt8}
    (h : readMany f n done bs = some (l, rest)) (more : List UInt8) :
    readMany f n done (bs ++ more) = some (l, rest ++ more) := by
  induction n generalizing done bs with
  | zero =>
      simp only [readMany, Option.some.injEq, Prod.mk.injEq] at h ⊢
      simp [h]
  | succ n ih =>
      simp only [readMany] at h ⊢
      split at h
      · rename_i a bs₁ ha
        simp [hf ha more, ih h]
      · cases h

theorem Stable.list (hf : f.Stable) : (list f).Stable := by
  intro bs l rest h more
  simp only [Format.list] at h ⊢
  split at h
  · rename_i n bs₁ hn
    simp [show size.read (bs ++ more) = _ from stable_natural 8 hn more, readMany_append hf h]
  · cases h

theorem Stable.option (hf : f.Stable) : (option f).Stable := by
  intro bs o rest h more
  simp only [Format.option] at h
  split at h
  · cases h
    rfl
  · rename_i bs₁
    split at h
    · rename_i a bs₂ ha
      cases h
      simp [Format.option, hf ha more]
    · cases h
  · cases h

theorem Stable.table {κ : Type} [Key κ] {f : Format κ} (hf : f.Stable) (hg : g.Stable) :
    (table f g).Stable := (hf.pair hg).list.convert _ _

theorem stable_cases [DecidableEq α] (all : List α) : (cases all).Stable := by
  intro bs a rest h more
  simp only [cases] at h ⊢
  split at h
  · rename_i i bs₁ hi
    rw [show caseNumber.read (bs ++ more) = _ from stable_natural 4 hi more]
    split at h
    · rename_i a' ha
      cases h
      simp [ha]
    · cases h
  · cases h

end Combinations

end Format

/-! ### Payloads -/

open Format

theorem stable_status : status.Stable := ((stable_cases _).pair stable_string).convert _ _

theorem stable_properties : properties.Stable :=
  (stable_string.pair (stable_string.pair (stable_bool.pair
    (stable_bool.pair stable_bool)))).convert _ _

theorem stable_variableInfo : variableInfo.Stable :=
  (stable_string.pair ((stable_cases _).pair ((stable_natural 8).list.pair
    stable_string))).convert _ _

theorem stable_blockInfo : blockInfo.Stable :=
  (stable_string.pair (stable_string.pair (stable_natural 8).list)).convert _ _

theorem stable_optionInfo : optionInfo.Stable := (stable_string.pair (stable_cases _)).convert _ _

theorem stable_chunk : chunk.Stable :=
  (stable_string.pair (stable_string.option.pair (stable_integer.pair (stable_integer.pair
    ((stable_cases _).pair stable_binary64.list))))).convert _ _

theorem stable_caseNumber : caseNumber.Stable := stable_natural 4

theorem stable_optionValue : optionValue.Stable := by
  intro bs v rest h more
  simp only [optionValue] at h ⊢
  split at h
  case h_5 => cases h
  all_goals
    rename_i hi
    obtain ⟨⟨x, rest'⟩, hx, he⟩ := Option.map_eq_some_iff.mp h
    cases he
    rw [stable_caseNumber hi more]
  · simp [stable_bool hx more]
  · simp [stable_integer hx more]
  · simp [stable_binary64 hx more]
  · simp [stable_string hx more]

theorem stable_message : message.Stable := by
  intro bs m rest h more
  simp only [message] at h ⊢
  split at h
  case h_9 => cases h
  case h_1 hi =>
    cases h
    simp [stable_caseNumber hi more]
  all_goals
    rename_i hi
    obtain ⟨⟨x, rest'⟩, hx, he⟩ := Option.map_eq_some_iff.mp h
    cases he
    rw [stable_caseNumber hi more]
  · simp [stable_properties hx more]
  · simp [stable_natural 8 hx more, size]
  · simp [(stable_string.table stable_optionValue) hx more, options]
  · simp [stable_variableInfo hx more]
  · simp [stable_blockInfo hx more]
  · simp [stable_optionInfo.list hx more]
  · simp [stable_chunk hx more]

theorem stable_frame : frame.Stable := by
  intro bs f rest h more
  simp only [frame] at h ⊢
  split at h
  case h_6 => cases h
  case h_3 hi | h_4 hi =>
    cases h
    simp [stable_caseNumber hi more]
  all_goals
    rename_i hi
    obtain ⟨⟨x, rest'⟩, hx, he⟩ := Option.map_eq_some_iff.mp h
    cases he
    rw [stable_caseNumber hi more]
  · simp [((stable_natural 2).pair ((stable_cases _).pair (stable_natural 8))) hx more, method, size]
  · simp [stable_message hx more]
  · simp [stable_status hx more]

end Wire

/-! ### Frames on a stream -/

namespace Frame

variable {limit : Nat} {ended : Bool} {input more rest tail : List UInt8} {f g : Frame}

theorem exists_payload (h : read limit ended input = .frame g rest)
    (heq : input ++ more = f.encode ++ tail) :
    ∃ payload left behind, payload ++ left = Wire.frame.write f ∧
      Wire.frame.read payload = some (g, behind) ∧ (left = [] → rest ++ more = tail) := by
  obtain ⟨a, b, c, d, payload, behind, rfl, hlength, -, hread⟩ := exists_of_read_frame h
  injection heq with ha heq
  injection heq with hb heq
  injection heq with hc heq
  injection heq with hd heq
  change payload ++ rest ++ more = Wire.frame.write f ++ tail at heq
  rw [ha, hb, hc, hd, Wire.announcedLength_mod] at hlength
  rw [List.append_assoc] at heq
  have hle : payload.length ≤ (Wire.frame.write f).length := hlength ▸ Nat.mod_le _ _
  obtain ⟨left, hleft⟩ : payload <+: Wire.frame.write f :=
    List.prefix_of_prefix_length_le ⟨_, heq⟩ ⟨_, rfl⟩ hle
  refine ⟨payload, left, behind, hleft, hread, ?_⟩
  rintro rfl
  rw [List.append_nil] at hleft
  rw [← hleft] at heq
  exact List.append_cancel_left heq

theorem eq_of_read (hf : f.Fits) (h : read limit ended input = .frame g rest)
    (heq : input ++ more = f.encode ++ tail) : g = f ∧ rest ++ more = tail := by
  obtain ⟨payload, left, behind, hpayload, hread, hrest⟩ := exists_payload h heq
  obtain ⟨rfl, -, hleft⟩ := Wire.faithful_frame.eq_of_read Wire.stable_frame hf hread hpayload
  exact ⟨rfl, hrest hleft⟩

/-- A closing frame is read as one with the same code, however long its text is. -/
theorem close_of_read {status : Status} (h : read limit ended input = .frame g rest)
    (heq : input ++ more = (close status).encode ++ tail) :
    ∃ text, g = .close ⟨status.code, text⟩ := by
  obtain ⟨payload, left, behind, hpayload, hread, -⟩ := exists_payload h heq
  have hall := Wire.stable_frame hread left
  rw [hpayload] at hall
  have hcode :=
    Wire.faithful_statusCode status.code (Wire.Format.string.write status.message) trivial
  have hwrite : Wire.frame.write (close status) = Wire.Format.caseNumber.write 4 ++
      (Wire.statusCode.write status.code ++ Wire.Format.string.write status.message) := rfl
  rw [hwrite] at hall
  simp only [Wire.frame, Wire.read_caseNumber, Nat.reduceLT, Wire.status, Wire.Format.convert,
    Wire.Format.pair, hcode] at hall
  cases hmessage : Wire.Format.string.read (Wire.Format.string.write status.message) with
  | none => simp [hmessage] at hall
  | some r =>
      simp only [hmessage, Option.map_some, Option.some.injEq, Prod.mk.injEq] at hall
      exact ⟨r.1, hall.1.symm⟩

variable {bytes : List UInt8} {fs : List Frame}

theorem Starts.eq_of_nil (h : Starts limit bytes [] rest) : rest = bytes := by
  generalize hnone : ([] : List Frame) = none at h
  cases h with
  | nil => rfl
  | snoc => simp at hnone

theorem Starts.of_cons (h : Starts limit bytes (f :: fs) rest) :
    ∃ rest', read limit false bytes = .frame f rest' ∧ Starts limit rest' fs rest := by
  generalize hall : f :: fs = all at h
  induction h generalizing fs with
  | nil => cases hall
  | @snoc before g rest₁ rest₂ hbefore hread ih =>
      cases before with
      | nil =>
          cases hall
          rw [hbefore.eq_of_nil] at hread
          exact ⟨rest₂, hread, .nil⟩
      | cons f' before =>
          cases hall
          obtain ⟨rest', hfirst, hrest⟩ := ih rfl
          exact ⟨rest', hfirst, hrest.snoc hread⟩

/-- A reader that gets some messages and then a closing frame has got all messages that were
written, and the code with which they were closed. -/
theorem Starts.eq_of_close {ms told : List Message} {status : Status}
    (htold : ∀ m ∈ told, m.Fits) (htail : tail = [] ∨ ∃ st, tail = (close st).encode)
    (h : Starts limit bytes (ms.map .message ++ [.close status]) rest)
    (heq : bytes ++ more = encodeAll (told.map .message) ++ tail) :
    ms = told ∧ tail ≠ [] ∧ ∀ st, tail = (close st).encode → st.code = status.code := by
  induction told generalizing ms bytes with
  | nil =>
      have hclosing {st : Status} (hst : tail = (close st).encode) {f : Frame} {rest' : List UInt8}
          (hread : read limit false bytes = .frame f rest') :
          ∃ text, f = .close ⟨st.code, text⟩ :=
        close_of_read hread (show bytes ++ more = (close st).encode ++ [] by simpa [hst] using heq)
      obtain rfl | ⟨st, hst⟩ := htail
      · obtain rfl : bytes = [] := (List.append_eq_nil_iff.mp heq).1
        cases ms <;> obtain ⟨rest', hread, -⟩ := h.of_cons <;> cases hread
      · cases ms with
        | nil =>
            obtain ⟨rest', hread, -⟩ := h.of_cons
            refine ⟨rfl, hst ▸ nofun, fun st' hst' => ?_⟩
            obtain ⟨text, htext⟩ := hclosing hst' hread
            cases htext
            rfl
        | cons m ms =>
            obtain ⟨rest', hread, -⟩ := h.of_cons
            obtain ⟨text, htext⟩ := hclosing hst hread
            cases htext
  | cons m told ih =>
      have hm : (message m).Fits := htold m (by simp)
      rw [List.map_cons, encodeAll_cons, List.append_assoc] at heq
      cases ms with
      | nil =>
          obtain ⟨rest', hread, -⟩ := h.of_cons
          cases (eq_of_read hm hread heq).1
      | cons m' ms =>
          obtain ⟨rest', hread, hrest⟩ := h.of_cons
          obtain ⟨hsame, heq'⟩ := eq_of_read hm hread heq
          cases hsame
          obtain ⟨rfl, hstatus⟩ := ih (fun x hx => htold x (by simp [hx])) hrest heq'
          exact ⟨rfl, hstatus⟩

end Frame

end RemoteDiscipline
