import RemoteDiscipline.Arguments
import RemoteDiscipline.Proofs.Metadata
import RemoteDiscipline.Proofs.Tables
/-!
Which chunks a computation takes in, and what becomes of its buffers.

The buffers keep the outlines that the declarations gave them (`Arguments.Shaped`). Therefore a chunk
is taken in only if the declarations admit it (`Metadata.Admits`), whatever has been written before,
and the messages of a request can be judged by the declarations alone.
-/

namespace RemoteDiscipline

/-! ### Results -/

section Results

variable {ε α β : Type} {x : Except ε α}

theorem exists_of_map_eq_ok {f : α → β} {b : β} (h : x.map f = .ok b) :
    ∃ a, x = .ok a ∧ f a = b := by
  cases x with
  | error e => cases h
  | ok a =>
      cases h
      exact ⟨a, rfl, rfl⟩

theorem exists_of_isOk (h : x.isOk) : ∃ a, x = .ok a := by
  cases x with
  | error e => cases h
  | ok a => exact ⟨a, rfl⟩

theorem eq_error_of_map {f : α → β} {e : ε} (h : x.map f = .error e) : x = .error e := by
  cases x with
  | error e' =>
      cases h
      rfl
  | ok a => cases h

theorem exists_of_bind_eq_ok {f : α → Except ε β} {b : β} (h : x.bind f = .ok b) :
    ∃ a, x = .ok a ∧ f a = .ok b := by
  cases x with
  | error e => cases h
  | ok a => exact ⟨a, rfl, h⟩

end Results

/-! ### Outlines -/

def Variable.outline (v : Variable) : Role × Shape := (v.role, v.shape)

def VariableInfo.outline (v : VariableInfo) : Role × Shape := (v.role, v.shape)

theorem Variable.length_of_outline {x : Variable} {v : VariableInfo} (h : x.outline = v.outline) :
    x.length = v.shape.count := by
  have hshape : x.shape = v.shape := congrArg Prod.snd h
  rw [length, x.length_eq, hshape]

/-- Whether a chunk has a place in a buffer of `length` values. -/
def Chunk.HasPlace (c : Chunk) (length : Nat) : Prop :=
  (length = 0 ∧ c.isFraming) ∨ ∃ range, c.targetRange length = .ok range

namespace Variable

variable {v v' : Variable} {c : Chunk}

theorem isEmpty_iff : v.isEmpty ↔ v.length = 0 := by
  rw [isEmpty, List.isEmpty_iff, length, List.length_eq_zero_iff]

theorem outline_withData (data : List Binary64) (h : data.length = v.data.length) :
    (v.withData data h).outline = v.outline := rfl

theorem assign_isOk_iff : (∃ v', v.assign c = .ok v') ↔ c.HasPlace v.length := by
  unfold assign Chunk.HasPlace
  split
  · rename_i h
    rw [Bool.and_eq_true, isEmpty_iff] at h
    exact ⟨fun _ => .inl h, fun _ => ⟨v, rfl⟩⟩
  · rename_i h
    rw [Bool.and_eq_true, isEmpty_iff] at h
    split
    · rename_i e he
      constructor
      · rintro ⟨v', hv'⟩
        cases hv'
      · rintro (hf | ⟨range, hr⟩)
        · exact absurd hf h
        · rw [he] at hr
          cases hr
    · rename_i a b hr
      exact ⟨fun _ => .inr ⟨_, hr⟩, fun _ => ⟨_, rfl⟩⟩

theorem assign_cases (h : v.assign c = .ok v') :
    (v.length = 0 ∧ c.isFraming) ∧ v' = v ∨
      ∃ a b, c.targetRange v.length = .ok (a, b) ∧ v'.outline = v.outline ∧
        v'.data = overlay v.data a c.data := by
  unfold assign at h
  split at h
  · rename_i hframing
    rw [Bool.and_eq_true, isEmpty_iff] at hframing
    cases h
    exact .inl ⟨hframing, rfl⟩
  · split at h
    · cases h
    · rename_i a b hrange
      cases h
      exact .inr ⟨a, b, hrange, outline_withData _ _, rfl⟩

theorem outline_assign (h : v.assign c = .ok v') : v'.outline = v.outline := by
  rcases assign_cases h with ⟨-, rfl⟩ | ⟨-, -, -, houtline, -⟩
  · rfl
  · exact houtline

end Variable

/-! ### Chunks that the declarations admit -/

/-- Whether the declarations admit a chunk in the request of a computation: it names a declared
variable and has its role, the computation takes that role, and the range lies in the variable. -/
def Metadata.Admits (m : Metadata) (k : Computation) (c : Chunk) : Prop :=
  ∃ v, m.lookup c.name = some v ∧ c.role = v.role ∧
    (v.role = .input ∨ v.role = .output ∧ k.takesOutputs) ∧ c.HasPlace v.shape.count

namespace Arguments

variable {m : Metadata} {k : Computation}

/-- The buffers have the outlines of the declarations, and there are no others. -/
structure Shaped (m : Metadata) (k : Computation) (a : Arguments) : Prop where
  inputs : ∀ name, (a.inputs.find? name).map Variable.outline =
    (m.inputs.find? fun v => v.name = name).map VariableInfo.outline
  outputs : ∀ name, (a.outputs.find? name).map Variable.outline =
    if k.takesOutputs then (m.outputs.find? fun v => v.name = name).map VariableInfo.outline
    else none

theorem nodup_filter_names {l : List VariableInfo} (h : (l.map (·.name)).Nodup)
    (p : VariableInfo → Bool) : ((l.filter p).map (·.name)).Nodup :=
  h.sublist (List.filter_sublist.map _)

theorem outline_find?_zeros {l : List VariableInfo} (h : (l.map (·.name)).Nodup) (name : String) :
    ((Table.ofList (l.map fun v => (v.name, v.zeros))).find? name).map Variable.outline =
      (l.find? fun v => v.name = name).map VariableInfo.outline := by
  rw [Table.find?_ofList_map h VariableInfo.zeros, Option.map_map]
  rfl

theorem shaped_zeros (h : (m.variableList.map (·.name)).Nodup) (k : Computation) :
    (zeros m k).Shaped m k where
  inputs := outline_find?_zeros (nodup_filter_names h _)
  outputs name := by
    unfold zeros
    split
    · exact outline_find?_zeros (nodup_filter_names h _) name
    · rfl

theorem write_eq_ok {values values' : Variables} {c : Chunk} (h : write values c = .ok values') :
    ∃ v v', values.find? c.name = some v ∧ v.assign c = .ok v' ∧
      values' = values.insert c.name v' := by
  unfold write at h
  split at h
  · cases h
  · rename_i v hv
    obtain ⟨v', ha, rfl⟩ := exists_of_map_eq_ok h
    exact ⟨v, v', hv, ha, rfl⟩

theorem outline_write {values values' : Variables} {c : Chunk} (h : write values c = .ok values')
    (name : String) :
    (values'.find? name).map Variable.outline = (values.find? name).map Variable.outline := by
  obtain ⟨v, v', hv, ha, rfl⟩ := write_eq_ok h
  rw [Table.find?_insert]
  by_cases hname : name = c.name
  · rw [if_pos hname, hname, hv, Option.map_some, Option.map_some, Variable.outline_assign ha]
  · rw [if_neg hname]

theorem hasPlace_of_write {values values' : Variables} {c : Chunk} {v : VariableInfo}
    (h : write values c = .ok values')
    (hv : (values.find? c.name).map Variable.outline = some v.outline) : c.HasPlace v.shape.count := by
  obtain ⟨x, x', hx, ha, -⟩ := write_eq_ok h
  rw [hx, Option.map_some, Option.some_inj] at hv
  rw [← Variable.length_of_outline hv]
  exact Variable.assign_isOk_iff.mp ⟨x', ha⟩

/-- The first declaration of a name is the first among those of its role. -/
theorem find?_filter_of_lookup (h : m.Indexed) {name : String} {v : VariableInfo}
    (hv : m.lookup name = some v) {role : Role} (hrole : v.role = role) :
    (m.variableList.filter fun v => v.role = role).find? (fun v => v.name = name) = some v := by
  rw [h.lookup_eq, List.find?_eq_some_iff_append] at hv
  obtain ⟨hname, before, after, hlist, hbefore⟩ := hv
  rw [List.find?_filter, List.find?_eq_some_iff_append]
  -- Nothing before it has the name, whatever the role.
  refine ⟨by simp [hrole, of_decide_eq_true hname], before, after, hlist, ?_⟩
  intro w hw
  have hne := hbefore w hw
  simp only [Bool.not_eq_true', decide_eq_false_iff_not] at hne
  simp [hne]

theorem accept_eq_ok (h : m.Indexed) {a a' : Arguments} (ha : a.Shaped m k) {c : Chunk}
    (hc : a.accept m k c = .ok a') : m.Admits k c ∧ a'.Shaped m k := by
  unfold accept at hc
  split at hc
  · cases hc
  · rename_i v hv
    split at hc
    · cases hc
    · rename_i hrole
      have hrole : c.role = v.role := Classical.not_not.mp hrole
      split at hc
      · rename_i hin
        obtain ⟨inputs, hw, rfl⟩ := exists_of_map_eq_ok hc
        have hdecl := ha.inputs c.name
        rw [Metadata.inputs, find?_filter_of_lookup h hv hin, Option.map_some] at hdecl
        refine ⟨⟨v, hv, hrole, .inl hin, hasPlace_of_write hw hdecl⟩, ?_, ha.outputs⟩
        intro name
        rw [outline_write hw, ha.inputs]
      · split at hc
        · rename_i hout
          obtain ⟨hout, htakes⟩ := hout
          obtain ⟨outputs, hw, rfl⟩ := exists_of_map_eq_ok hc
          have hdecl := ha.outputs c.name
          rw [if_pos htakes, Metadata.outputs, find?_filter_of_lookup h hv hout,
            Option.map_some] at hdecl
          refine ⟨⟨v, hv, hrole, .inr ⟨hout, htakes⟩, hasPlace_of_write hw hdecl⟩, ha.inputs, ?_⟩
          intro name
          rw [outline_write hw, ha.outputs]
        · cases hc

/-! ### Whole requests -/

/-- `a` when some more messages have been received. -/
def receiveAll (m : Metadata) (k : Computation) (a : Arguments) (messages : List Message) :
    Except Error Arguments :=
  messages.foldlM (fun a x => a.receive m k x) a

theorem receiveAll_append (a : Arguments) (messages more : List Message) :
    a.receiveAll m k (messages ++ more) =
      (a.receiveAll m k messages).bind fun b => b.receiveAll m k more := by
  rw [receiveAll, List.foldlM_append]
  rfl

theorem receiveAll_cons (a : Arguments) (x : Message) (messages : List Message) :
    a.receiveAll m k (x :: messages) =
      (a.receive m k x).bind fun b => b.receiveAll m k messages := by
  rw [receiveAll, List.foldlM_cons]
  rfl

theorem receiveAll_concat {a b : Arguments} {messages : List Message}
    (h : a.receiveAll m k messages = .ok b) (x : Message) :
    a.receiveAll m k (messages ++ [x]) = b.receive m k x := by
  rw [receiveAll_append, h]
  show b.receiveAll m k [x] = _
  rw [receiveAll_cons]
  cases b.receive m k x with
  | error e => rfl
  | ok b' => rfl

theorem receiveAll_eq_ok (h : m.Indexed) {messages : List Message} {a b : Arguments}
    (ha : a.Shaped m k) (hb : a.receiveAll m k messages = .ok b) :
    (∀ x ∈ messages, ∃ c, x = .chunk c ∧ m.Admits k c) ∧ b.Shaped m k := by
  induction messages generalizing a with
  | nil =>
      cases hb
      exact ⟨by simp, ha⟩
  | cons x messages ih =>
      rw [receiveAll_cons] at hb
      obtain ⟨a', hx, hlater⟩ := exists_of_bind_eq_ok hb
      cases x with
      | chunk c =>
          obtain ⟨hc, ha'⟩ := accept_eq_ok h ha hx
          obtain ⟨hrest, hshaped⟩ := ih ha' hlater
          refine ⟨?_, hshaped⟩
          intro y hy
          rcases List.mem_cons.mp hy with rfl | hy
          · exact ⟨c, rfl, hc⟩
          · exact hrest y hy
      | _ => cases hx

end Arguments

end RemoteDiscipline
