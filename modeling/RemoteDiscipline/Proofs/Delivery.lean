import RemoteDiscipline.Proofs.Arguments
import RemoteDiscipline.Proofs.Chunks
/-!
What a computation starts from when a client has sent some values.

The pieces of a value are written one after another over the zeros that were declared for it, so in the
end the buffer holds the value, and a buffer for which nothing was sent still holds zeros
(`Arguments.receiveAll_given`). It does not matter how the client cuts its values.
-/

namespace RemoteDiscipline

/-- The buffer `y` with the values of `x`, if there are some and they are as many. -/
def Variable.refill (y : Variable) : Option Variable → Variable
  | none => y
  | some x => if h : x.data.length = y.data.length then y.withData x.data h else y

theorem Variable.refill_some {x y : Variable} (h : x.data.length = y.data.length) :
    y.refill (some x) = y.withData x.data h := by
  rw [refill, dif_pos h]

namespace Arguments

def part (a : Arguments) : Role → Variables
  | .output => a.outputs
  | _ => a.inputs

def withPart (a : Arguments) : Role → Variables → Arguments
  | .output, t => { a with outputs := t }
  | _, t => { a with inputs := t }

@[simp] theorem part_withPart (a : Arguments) (role : Role) (t : Variables) :
    (a.withPart role t).part role = t := by cases role <;> rfl

@[simp] theorem withPart_part (a : Arguments) (role : Role) : a.withPart role (a.part role) = a := by
  cases role <;> rfl

@[simp] theorem withPart_withPart (a : Arguments) (role : Role) (t t' : Variables) :
    (a.withPart role t).withPart role t' = a.withPart role t' := by cases role <;> rfl

def Takes (k : Computation) (role : Role) : Prop := role = .input ∨ role = .output ∧ k.takesOutputs

variable {m : Metadata} {k : Computation}

theorem accept_eq {v : VariableInfo} {c : Chunk} (hv : m.lookup c.name = some v)
    (hrole : c.role = v.role) (htakes : Takes k v.role) (a : Arguments) :
    a.accept m k c = (write (a.part v.role) c).map (a.withPart v.role) := by
  rw [accept, hv]
  dsimp only
  rw [if_neg (by simp [hrole])]
  rcases htakes with hin | ⟨hout, htakes⟩
  · rw [if_pos hin, hin]
    rfl
  · rw [if_neg (by simp [hout]), if_pos ⟨hout, htakes⟩, hout]
    rfl

theorem write_eq {values : Variables} {c : Chunk} {v v' : Variable}
    (hv : values.find? c.name = some v) (ha : v.assign c = .ok v') :
    write values c = .ok (values.insert c.name v') := by
  rw [write, hv]
  dsimp only
  rw [ha]
  rfl

/-- When all pieces of a value have been received, the buffer of its name holds the value. -/
theorem receiveAll_pieces {v : VariableInfo} (hv : m.lookup v.name = some v)
    (htakes : Takes k v.role) {a : Arguments} {x y : Variable}
    (hy : (a.part v.role).find? v.name = some y) (h : x.data.length = y.data.length) {size : Nat}
    (hsize : 1 ≤ size) :
    a.receiveAll m k ((x.pieces (.ofVariable v.name v.role) size).map .chunk) =
      .ok (a.withPart v.role ((a.part v.role).insert v.name (y.withData x.data h))) := by
  have hstep : ∀ i < Chunk.needed x.length size,
      (a.withPart v.role ((a.part v.role).insert v.name
        (y.blend x h (Chunk.position x.length size i)))).receive m k
          (.chunk (x.piece (.ofVariable v.name v.role) size i)) =
        .ok (a.withPart v.role ((a.part v.role).insert v.name
          (y.blend x h (Chunk.position x.length size (i + 1))))) := by
    intro i hi
    have hpiece := Variable.assign_piece (.ofVariable v.name v.role) h hsize hi
    show accept m k _ (x.piece (.ofVariable v.name v.role) size i) = _
    rw [accept_eq hv rfl htakes, part_withPart,
      write_eq (Table.find?_insert_self _ v.name _) hpiece]
    show Except.ok _ = _
    rw [withPart_withPart]
    congr 2
    exact Table.insert_insert _ _ _ _
  have hall := foldlM_range_map hstep
  rw [Chunk.position_zero, Variable.blend_zero, Table.insert_find? hy, withPart_part,
    Chunk.position_needed hsize, Variable.blend_length] at hall
  rw [receiveAll, Variable.pieces, List.map_map]
  exact hall

def given (role : Role) (values : Variables) (infos : List VariableInfo) : List (Tag × Variable) :=
  infos.filterMap fun v => (values.find? v.name).map fun x => (.ofVariable v.name role, x)

def messages (size : Nat) (l : List (Tag × Variable)) : List Message :=
  l.flatMap fun p => (p.2.pieces p.1 size).map .chunk

theorem messages_append (size : Nat) (l l' : List (Tag × Variable)) :
    messages size (l ++ l') = messages size l ++ messages size l' := List.flatMap_append

/-- When everything that was given for some variables has been received, each of them holds the value
that was given for it, or what it held before. -/
theorem receiveAll_given {role : Role} (htakes : Takes k role) {values : Variables} {size : Nat}
    (hsize : 1 ≤ size) {infos : List VariableInfo} (hdistinct : (infos.map (·.name)).Nodup)
    (hdeclared : ∀ v ∈ infos, m.lookup v.name = some v ∧ v.role = role)
    (hlengths : ∀ v ∈ infos, ∀ x, values.find? v.name = some x → x.length = v.shape.count)
    {a : Arguments}
    (ha : ∀ v ∈ infos, ∃ y, (a.part role).find? v.name = some y ∧ y.length = v.shape.count) :
    ∃ t, a.receiveAll m k (messages size (given role values infos)) = .ok (a.withPart role t) ∧
      ∀ name, t.find? name = if name ∈ infos.map (·.name) then
          ((a.part role).find? name).map fun y => y.refill (values.find? name)
        else (a.part role).find? name := by
  induction infos generalizing a with
  | nil => exact ⟨a.part role, by rw [withPart_part]; rfl, fun name => by simp⟩
  | cons v infos ih =>
      rw [List.map_cons, List.nodup_cons] at hdistinct
      obtain ⟨hfresh, hdistinct⟩ := hdistinct
      obtain ⟨hlookup, hrole⟩ := hdeclared v (by simp)
      have hdeclared' := fun w hw => hdeclared w (List.mem_cons_of_mem v hw)
      have hlengths' := fun w hw => hlengths w (List.mem_cons_of_mem v hw)
      obtain ⟨y, hy, hylength⟩ := ha v (by simp)
      -- By induction on the declarations: the pieces of the first value come before all others.
      cases hx : values.find? v.name with
      | none =>
          obtain ⟨t, ht, hfind⟩ :=
            ih hdistinct hdeclared' hlengths' fun w hw => ha w (List.mem_cons_of_mem v hw)
          refine ⟨t, ?_, ?_⟩
          · rw [given, List.filterMap_cons_none (by rw [hx]; rfl)]
            exact ht
          · intro name
            rw [hfind]
            by_cases hname : name = v.name
            · subst hname
              rw [if_neg hfresh, if_pos (by simp), hx, hy]
              rfl
            · simp [hname]
      | some x =>
          subst hrole
          have hlen : x.data.length = y.data.length := (hlengths v (by simp) x hx).trans hylength.symm
          have hother : ∀ w ∈ infos, w.name ≠ v.name := by
            intro w hw hname
            exact hfresh (hname ▸ List.mem_map_of_mem hw)
          have ha' : ∀ w ∈ infos, ∃ z,
              ((a.withPart v.role ((a.part v.role).insert v.name (y.withData x.data hlen))).part
                v.role).find? w.name = some z ∧ z.length = w.shape.count := by
            intro w hw
            rw [part_withPart, Table.find?_insert_of_ne _ (hother w hw)]
            exact ha w (List.mem_cons_of_mem v hw)
          obtain ⟨t, ht, hfind⟩ := ih hdistinct hdeclared' hlengths' ha'
          rw [withPart_withPart] at ht
          rw [part_withPart] at hfind
          refine ⟨t, ?_, ?_⟩
          · rw [given, List.filterMap_cons_some (by rw [hx]; rfl), messages, List.flatMap_cons,
              receiveAll_append, receiveAll_pieces hlookup htakes hy hlen hsize]
            exact ht
          · intro name
            rw [hfind, Table.find?_insert]
            by_cases hname : name = v.name
            · subst hname
              rw [if_neg hfresh, if_pos rfl, if_pos (by simp), hx, hy, Option.map_some,
                Variable.refill_some hlen]
            · simp [hname]

/-- What a client's values make of the arguments of a computation: for every declared input, and for
every declared output if the computation takes those, the value that was given or zeros; and nothing
else. -/
structure Conveys (m : Metadata) (k : Computation) (a b : Arguments) : Prop where
  inputs : ∀ name, b.inputs.find? name =
    (m.inputs.find? fun v => v.name = name).map fun v => v.zeros.refill (a.inputs.find? name)
  outputs : ∀ name, b.outputs.find? name =
    if k.takesOutputs then
      (m.outputs.find? fun v => v.name = name).map fun v => v.zeros.refill (a.outputs.find? name)
    else none

def outgoing (m : Metadata) (k : Computation) (a : Arguments) : List (Tag × Variable) :=
  given .input a.inputs m.inputs ++
    if k.takesOutputs then given .output a.outputs m.outputs else []

def Sized (m : Metadata) (k : Computation) (a : Arguments) : Prop :=
  (∀ v ∈ m.inputs, ∀ x, a.inputs.find? v.name = some x → x.length = v.shape.count) ∧
    (k.takesOutputs → ∀ v ∈ m.outputs, ∀ x, a.outputs.find? v.name = some x →
      x.length = v.shape.count)

theorem find?_zeros {l : List VariableInfo} (hdistinct : (l.map (·.name)).Nodup) (name : String) :
    (Table.ofList (l.map fun v => (v.name, v.zeros))).find? name =
      (l.find? fun v => v.name = name).map VariableInfo.zeros :=
  Table.find?_ofList_map hdistinct VariableInfo.zeros name

theorem exists_zeros {l : List VariableInfo} (hdistinct : (l.map (·.name)).Nodup) {v : VariableInfo}
    (hv : v ∈ l) :
    ∃ y, (Table.ofList (l.map fun v => (v.name, v.zeros))).find? v.name = some y ∧
      y.length = v.shape.count := by
  refine ⟨v.zeros, ?_, v.zeros.length_eq⟩
  rw [find?_zeros hdistinct, Metadata.find?_key_eq hdistinct hv]
  rfl

theorem find?_refilled {l : List VariableInfo} (hdistinct : (l.map (·.name)).Nodup)
    {values t : Variables}
    (ht : ∀ name, t.find? name = if name ∈ l.map (·.name) then
        ((Table.ofList (l.map fun v => (v.name, v.zeros))).find? name).map fun y =>
          y.refill (values.find? name)
      else (Table.ofList (l.map fun v => (v.name, v.zeros))).find? name) (name : String) :
    t.find? name =
      (l.find? fun v => v.name = name).map fun v => v.zeros.refill (values.find? name) := by
  rw [ht, find?_zeros hdistinct]
  split
  · rw [Option.map_map]
    rfl
  · rename_i hname
    have hnone : l.find? (fun v => decide (v.name = name)) = none := by
      rw [List.find?_eq_none]
      intro v hv hn
      exact hname (List.mem_map.mpr ⟨v, hv, of_decide_eq_true hn⟩)
    rw [hnone]
    rfl

/-- All that a client sends is received, and it makes the arguments that it should. -/
theorem receiveAll_outgoing {kind : Kind} (hm : m.Valid kind) {a : Arguments} (ha : a.Sized m k)
    {size : Nat} (hsize : 1 ≤ size) :
    ∃ b, (zeros m k).receiveAll m k (messages size (outgoing m k a)) = .ok b ∧ Conveys m k a b := by
  have hin : (m.inputs.map (·.name)).Nodup := nodup_filter_names hm.distinct _
  have hout : (m.outputs.map (·.name)).Nodup := nodup_filter_names hm.distinct _
  have hdeclared (role : Role) : ∀ v ∈ m.variableList.filter (fun v => v.role = role),
      m.lookup v.name = some v ∧ v.role = role := by
    intro v hv
    obtain ⟨hmem, hrole⟩ := List.mem_filter.mp hv
    exact ⟨hm.lookup_name v hmem, of_decide_eq_true hrole⟩
  obtain ⟨inputs, hinputs, hfindin⟩ := receiveAll_given (k := k) (.inl rfl) hsize hin
    (hdeclared .input) ha.1 (a := zeros m k) fun v hv => exists_zeros hin hv
  have hfindin' := find?_refilled hin hfindin
  rw [outgoing, messages_append, receiveAll_append, hinputs]
  -- The outputs come behind the inputs, if there are any, and go to other buffers.
  by_cases htakes : k.takesOutputs
  · have hzeros : ((zeros m k).withPart .input inputs).part .output = m.outputBuffers := by
      show (zeros m k).outputs = _
      rw [zeros, if_pos htakes]
    obtain ⟨outputs, houtputs, hfindout⟩ := receiveAll_given (k := k) (.inr ⟨rfl, htakes⟩) hsize
      hout (hdeclared .output) (ha.2 htakes) (a := (zeros m k).withPart .input inputs)
      fun v hv => by
        rw [hzeros]
        exact exists_zeros hout hv
    rw [hzeros] at hfindout
    refine ⟨((zeros m k).withPart .input inputs).withPart .output outputs, ?_, hfindin', ?_⟩
    · rw [if_pos htakes]
      exact houtputs
    · intro name
      rw [if_pos htakes]
      exact find?_refilled hout hfindout name
  · refine ⟨(zeros m k).withPart .input inputs, ?_, hfindin', ?_⟩
    · rw [if_neg htakes]
      rfl
    · intro name
      rw [if_neg htakes]
      show (zeros m k).outputs.find? name = none
      rw [zeros, if_neg htakes]
      rfl

end Arguments

end RemoteDiscipline
