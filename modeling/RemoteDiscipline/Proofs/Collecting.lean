import Mathlib.Logic.Relation
import Mathlib.Data.List.Induction
import RemoteDiscipline.Proofs.Delivery
import RemoteDiscipline.Proofs.Moves
/-!
What a computation collects from the messages of a client.

Every message is judged by the declarations alone, and the first one that they do not accept ends
the call with its own complaint (`Arguments.Offence`). As long as all are accepted, a buffer holds
at each position what the last chunk over that position has put there, or the zero it began with
(`Arguments.Layered`): a step writes one more layer, whatever lies below.
-/

namespace RemoteDiscipline

/-! ### Stores with distinct names -/

namespace Metadata

/-- The stores to which declarations can lead. -/
inductive Built : Metadata → Prop
  | fresh (kind : Kind) : Built (fresh kind)
  | declare {m m' : Metadata} {d : Declaration} : Built m → m.declare d = .ok m' → Built m'
  | clearVariables {m : Metadata} : Built m → Built m.clearVariables
  | clearBlocks {m : Metadata} : Built m → Built m.clearBlocks

variable {m m' : Metadata}

theorem Indexed.declare (h : m.Indexed) {d : Declaration} (hm : m.declare d = .ok m') :
    m'.Indexed := by
  rw [declare_eq_ok_iff] at hm
  cases d with
  | input name shape units | output name shape units => exact (h.addVariable hm).1
  | option name type =>
      simp only [record, addOption] at hm
      split at hm <;> cases hm
      exact h
  | block output input =>
      simp only [record, addBlock] at hm
      split at hm <;> cases hm
      exact h

theorem Built.indexed (h : m.Built) : m.Indexed := by
  induction h with
  | fresh kind => exact (sound_fresh kind).indexed
  | declare _ hd ih => exact ih.declare hd
  | clearVariables _ _ => simp [Metadata.clearVariables, Indexed]
  | clearBlocks _ ih => exact ih

theorem Built.run {α : Type} (program : Declaring α) (h : m.Built) : (program.run m).2.Built := by
  induction program generalizing m with
  | done a => exact h
  | declare d next ih =>
      rw [Declaring.run, record_eq]
      cases hd : m.declare d with
      | ok m' => exact ih _ (h.declare hd)
      | error e => exact ih _ h

theorem Indexed.lookup_eq_some (h : m.Indexed) (hdistinct : (m.variableList.map (·.name)).Nodup)
    {name : String} {v : VariableInfo} :
    m.lookup name = some v ↔ v ∈ m.variableList ∧ v.name = name := by
  constructor
  · exact h.mem_of_lookup
  · rintro ⟨hv, rfl⟩
    rw [h.lookup_eq]
    exact find?_key_eq hdistinct hv

theorem Indexed.lookup_eq_none (h : m.Indexed) {name : String} :
    m.lookup name = none ↔ ∀ v ∈ m.variableList, v.name ≠ name := by
  simp [h.lookup_eq]

end Metadata

/-! ### Layers -/

def Chunk.valueAt (c : Chunk) (i : Nat) : Option Binary64 :=
  if c.start ≤ i ∧ i ≤ c.stop then c.data[i - c.start.toNat]? else none

def Message.valueAt (name : String) (i : Nat) : Message → Option Binary64
  | .chunk c => if c.name = name then c.valueAt i else none
  | _ => none

/-- What the last message that gives a value to a position gives to it, or zero. -/
def lastValue (messages : List Message) (name : String) (i : Nat) : Binary64 :=
  (messages.reverse.findSome? (Message.valueAt name i)).getD .zero

@[simp] theorem lastValue_concat (messages : List Message) (x : Message) (name : String) (i : Nat) :
    lastValue (messages ++ [x]) name i = (x.valueAt name i).getD (lastValue messages name i) := by
  rw [lastValue, List.reverse_concat, List.findSome?_cons]
  cases x.valueAt name i <;> rfl

/-- The values of a buffer of `length` zeros when some messages have been written over it. -/
def layers (messages : List Message) (name : String) (length : Nat) : List Binary64 :=
  (List.range length).map (lastValue messages name)

theorem layers_nil (name : String) (length : Nat) :
    layers [] name length = List.replicate length .zero := by
  simp [layers, lastValue, List.eq_replicate_iff]

theorem layers_of_valueAt {x : Message} {name : String} (h : ∀ i, x.valueAt name i = none)
    (messages : List Message) (length : Nat) :
    layers (messages ++ [x]) name length = layers messages name length := by
  simp [layers, h]

namespace Variable

variable {v v' : Variable} {c : Chunk}

theorem getElem?_overlay {data values : List Binary64} {a : Nat}
    (h : a + values.length ≤ data.length) (i : Nat) :
    (overlay data a values)[i]? =
      if a ≤ i ∧ i < a + values.length then values[i - a]? else data[i]? := by
  have htake : (data.take a).length = a := by
    rw [List.length_take]
    omega
  simp only [overlay, List.append_assoc, List.getElem?_append, htake, List.getElem?_take,
    List.getElem?_drop]
  split_ifs <;> first | rfl | omega | skip
  congr 1
  omega

theorem assign_eq_error (v : Variable) {e : Error} (h : v.assign c = .error e) :
    ¬ (v.length = 0 ∧ c.isFraming) ∧ c.targetRange v.length = .error e := by
  unfold assign at h
  split at h
  · cases h
  · rename_i hframing
    rw [Bool.and_eq_true, isEmpty_iff] at hframing
    split at h <;> cases h
    exact ⟨hframing, ‹_›⟩

theorem length_assign (ha : v.assign c = .ok v') : v'.length = v.length := by
  have hshape : v'.shape = v.shape := congrArg Prod.snd (outline_assign ha)
  rw [length, length, v'.length_eq, v.length_eq, hshape]

theorem getElem?_assign (ha : v.assign c = .ok v') (i : Nat) :
    v'.data[i]? = if c.start ≤ i ∧ i ≤ c.stop then c.valueAt i else v.data[i]? := by
  rcases assign_cases ha with ⟨⟨hzero, hframing⟩, rfl⟩ | ⟨a, b, hrange, -, hwritten⟩
  -- A chunk that stands for an empty buffer has no values, and the buffer has none either.
  · have hdata : v'.data = [] := List.length_eq_zero_iff.mp hzero
    have hnone : c.data = [] := by
      simp only [Chunk.isFraming, Bool.and_eq_true, List.isEmpty_iff] at hframing
      exact hframing.1.1
    simp [Chunk.valueAt, hdata, hnone]
  · obtain ⟨hstart, hstop, hlt, hle, hdata⟩ := Chunk.targetRange_eq_ok.mp hrange
    rw [hwritten, getElem?_overlay (by rw [length] at hle; omega), Chunk.valueAt]
    have hcovered : (c.start ≤ i ∧ i ≤ c.stop) ↔ a ≤ i ∧ i < a + c.data.length := by omega
    have htoNat : c.start.toNat = a := by omega
    simp only [hcovered, htoNat]
    split <;> rfl

theorem data_assign {messages : List Message} (ha : v.assign c = .ok v')
    (hv : v.data = layers messages c.name v.length) :
    v'.data = layers (messages ++ [.chunk c]) c.name v.length := by
  have hlength : v'.data.length = v.length := length_assign ha
  apply List.ext_getElem?
  intro i
  by_cases hi : i < v.length
  · have hi' : i < v'.data.length := hlength ▸ hi
    have hsome : v'.data[i]? = some v'.data[i] := List.getElem?_eq_getElem hi'
    have hvalue := getElem?_assign ha i
    rw [hsome, hv] at hvalue
    by_cases hcovered : c.start ≤ i ∧ i ≤ c.stop
    · rw [if_pos hcovered] at hvalue
      simp [hsome, layers, hi, Message.valueAt, ← hvalue]
    · rw [if_neg hcovered] at hvalue
      simp [hsome, hvalue, layers, hi, Message.valueAt, Chunk.valueAt, hcovered]
  · have hnone : v'.data[i]? = none := List.getElem?_eq_none (by omega)
    simp [hnone, layers, hi]

end Variable

namespace Arguments

variable {m : Metadata} {k : Computation} {messages : List Message}

/-- Buffers of some declared variables, on which some messages have put their layers. -/
def Layered (l : List VariableInfo) (messages : List Message) (values : Variables) : Prop :=
  ∀ name, (values.find? name).map (fun x => (x.outline, x.data)) =
    (l.find? fun v => v.name = name).map fun v =>
      (v.outline, layers messages name v.shape.count)

/-- The arguments of a computation, on which some messages have put their layers: one buffer for
each declared input, and for each declared output if the computation takes those. -/
structure Overlaid (m : Metadata) (k : Computation) (messages : List Message) (a : Arguments) :
    Prop where
  inputs : Layered m.inputs messages a.inputs
  outputs : Layered (if k.takesOutputs then m.outputs else []) messages a.outputs

theorem layered_zeros {l : List VariableInfo} (hdistinct : (l.map (·.name)).Nodup) :
    Layered l [] (Table.ofList (l.map fun v => (v.name, v.zeros))) := by
  intro name
  simp only [find?_zeros hdistinct, Option.map_map, layers_nil]
  rfl

theorem overlaid_zeros (hdistinct : (m.variableList.map (·.name)).Nodup) :
    (zeros m k).Overlaid m k [] where
  inputs := layered_zeros (nodup_filter_names hdistinct _)
  outputs := by
    unfold zeros
    split
    · exact layered_zeros (nodup_filter_names hdistinct _)
    · intro name
      rfl

theorem Layered.write {l : List VariableInfo} {values values' : Variables} {c : Chunk}
    (h : Layered l messages values) (hc : write values c = .ok values') :
    Layered l (messages ++ [.chunk c]) values' := by
  obtain ⟨x, x', hx, ha, rfl⟩ := write_eq_ok hc
  intro name
  rw [Table.find?_insert]
  split
  · rename_i hname
    subst hname
    have hbefore := h c.name
    rw [hx, Option.map_some] at hbefore
    obtain ⟨v, hv, houtline⟩ := Option.map_eq_some_iff.mp hbefore.symm
    obtain ⟨houtline, hdata⟩ := Prod.mk.inj houtline
    have hlength : v.shape.count = x.length := (Variable.length_of_outline houtline.symm).symm
    rw [hlength] at hdata
    rw [hv, Option.map_some, Option.map_some, Variable.outline_assign ha, houtline, hlength,
      Variable.data_assign ha hdata.symm]
  · rename_i hname
    have hnone (i : Nat) : (Message.chunk c).valueAt name i = none := if_neg (Ne.symm hname)
    simp only [layers_of_valueAt hnone]
    exact h name

theorem Layered.other {l : List VariableInfo} {values : Variables} {c : Chunk}
    (h : Layered l messages values) (hc : ∀ v ∈ l, v.name ≠ c.name) :
    Layered l (messages ++ [.chunk c]) values := by
  intro name
  rw [h name]
  apply Option.map_congr
  intro v hv
  have hname : v.name = name := by simpa using List.find?_some hv
  have hne : c.name ≠ name := fun hc' => hc v (List.mem_of_find?_eq_some hv) (hname.trans hc'.symm)
  have hnone (i : Nat) : (Message.chunk c).valueAt name i = none := if_neg hne
  rw [layers_of_valueAt hnone]

theorem Overlaid.accept (hm : m.Indexed) (hdistinct : (m.variableList.map (·.name)).Nodup)
    {a a' : Arguments} {c : Chunk} (h : a.Overlaid m k messages) (hc : a.accept m k c = .ok a') :
    a'.Overlaid m k (messages ++ [.chunk c]) := by
  -- No other variable has the name, so the buffers of the other role stay as they are.
  have hother {v : VariableInfo} (hv : m.lookup c.name = some v) {role : Role} (hrole : v.role ≠ role) :
      ∀ w ∈ m.variableList.filter (fun w => w.role = role), w.name ≠ c.name := by
    intro w hw hname
    obtain ⟨hw, hwrole⟩ := List.mem_filter.mp hw
    have hsame := (hm.lookup_eq_some hdistinct).mpr ⟨hw, hname⟩
    rw [hv, Option.some_inj] at hsame
    exact hrole (hsame ▸ of_decide_eq_true hwrole)
  unfold Arguments.accept at hc
  split at hc
  · cases hc
  · rename_i v hv
    split at hc
    · cases hc
    · split at hc
      · rename_i hin
        obtain ⟨inputs, hw, rfl⟩ := exists_of_map_eq_ok hc
        refine ⟨h.inputs.write hw, h.outputs.other ?_⟩
        split
        · exact hother hv (by simp [hin])
        · simp
      · split at hc
        · rename_i hin hout
          obtain ⟨outputs, hw, rfl⟩ := exists_of_map_eq_ok hc
          exact ⟨h.inputs.other (hother hv hin), h.outputs.write hw⟩
        · cases hc

theorem receiveAll_overlaid (hm : m.Indexed) (hdistinct : (m.variableList.map (·.name)).Nodup)
    {a : Arguments} (ha : (zeros m k).receiveAll m k messages = .ok a) :
    a.Overlaid m k messages := by
  induction messages using List.reverseRecOn generalizing a with
  | nil =>
      cases ha
      exact overlaid_zeros hdistinct
  | append_singleton messages x ih =>
      rw [receiveAll_append] at ha
      obtain ⟨b, hb, hx⟩ := exists_of_bind_eq_ok ha
      rw [receiveAll_cons] at hx
      obtain ⟨a', hx, ha'⟩ := exists_of_bind_eq_ok hx
      cases ha'
      cases x with
      | chunk c => exact (ih hb).accept hm hdistinct hx
      | _ => cases hx

/-! ### Complaints -/

/-- Whether a computation accepts a message: a chunk that names a declared variable and has its
role, which the computation takes, and that either stands for a variable without values or brings a
value for each position of a range within the variable. -/
def Accepts (m : Metadata) (k : Computation) (x : Message) : Prop :=
  ∃ c v, x = .chunk c ∧ v ∈ m.variableList ∧ v.name = c.name ∧ c.role = v.role ∧ Takes k c.role ∧
    (v.shape.count = 0 ∧ c.isFraming ∨
      0 ≤ c.start ∧ c.start ≤ c.stop ∧ c.stop < v.shape.count ∧
        c.data.length = c.stop - c.start + 1)

/-- What is wrong with a message, where the first thing that is wrong counts. -/
inductive Offence (m : Metadata) (k : Computation) : Message → Error → Prop
  | kind {x : Message} : (∀ c, x ≠ .chunk c) →
      Offence m k x (.protocol s!"expected chunk message, got {x.kindName}")
  | unknown {c : Chunk} : (∀ v ∈ m.variableList, v.name ≠ c.name) →
      Offence m k (.chunk c) (.protocol s!"Variable not found: {c.name}")
  | mismatch {c : Chunk} {v : VariableInfo} : v ∈ m.variableList → v.name = c.name →
      c.role ≠ v.role →
      Offence m k (.chunk c) (.protocol
        (s!"Type mismatch for variable '{c.name}': chunk is {c.role.text} " ++
          s!"but it is declared {v.role.text}"))
  | untaken {c : Chunk} {v : VariableInfo} : v ∈ m.variableList → v.name = c.name →
      c.role = v.role → ¬ Takes k c.role →
      Offence m k (.chunk c) (.protocol
        (s!"{k.name} does not accept {c.role.text} variable " ++ s!"'{c.name}'"))
  | misplaced {c : Chunk} {v : VariableInfo} {text : String} : v ∈ m.variableList →
      v.name = c.name → c.role = v.role → Takes k c.role →
      ¬ (v.shape.count = 0 ∧ c.isFraming) → c.targetRange v.shape.count = .error (.bounds text) →
      Offence m k (.chunk c) (.bounds text)

theorem exists_range_iff {c : Chunk} {length : Nat} :
    (∃ range, c.targetRange length = .ok range) ↔
      0 ≤ c.start ∧ c.start ≤ c.stop ∧ c.stop < length ∧ c.data.length = c.stop - c.start + 1 := by
  simp only [Prod.exists, Chunk.targetRange_eq_ok]
  constructor
  · rintro ⟨a, b, ha, hb, hlt, hle, hdata⟩
    omega
  · rintro ⟨hstart, hle, hlt, hdata⟩
    exact ⟨c.start.toNat, c.stop.toNat + 1, by omega, by omega, by omega, by omega, by omega⟩

theorem exists_bounds {c : Chunk} {length : Nat} {e : Error} (h : c.targetRange length = .error e) :
    ∃ text, e = .bounds text := by
  unfold Chunk.targetRange at h
  split at h
  · cases h
    exact ⟨_, rfl⟩
  · split at h
    · cases h
      exact ⟨_, rfl⟩
    · dsimp only at h
      split_ifs at h <;> cases h <;> exact ⟨_, rfl⟩

theorem accepts_iff (hm : m.Indexed) (hdistinct : (m.variableList.map (·.name)).Nodup)
    {x : Message} : Accepts m k x ↔ ∃ c, x = .chunk c ∧ m.Admits k c := by
  simp only [Accepts, Metadata.Admits, hm.lookup_eq_some hdistinct, Chunk.HasPlace,
    exists_range_iff]
  constructor
  · rintro ⟨c, v, rfl, hv, hname, hrole, htakes, hplace⟩
    exact ⟨c, rfl, v, ⟨hv, hname⟩, hrole, hrole ▸ htakes, hplace⟩
  · rintro ⟨c, rfl, v, ⟨hv, hname⟩, hrole, htakes, hplace⟩
    exact ⟨c, v, rfl, hv, hname, hrole, hrole ▸ htakes, hplace⟩

theorem Offence.not_accepts (hdistinct : (m.variableList.map (·.name)).Nodup) {x : Message}
    {e : Error} (h : Offence m k x e) : ¬ Accepts m k x := by
  rintro ⟨c, v, rfl, hv, hname, hrole, htakes, hplace⟩
  have hsame {w : VariableInfo} (hw : w ∈ m.variableList) (hwname : w.name = c.name) : w = v := by
    have hfound := Metadata.find?_key_eq hdistinct hw
    rw [hwname, ← hname, Metadata.find?_key_eq hdistinct hv] at hfound
    exact (Option.some.inj hfound).symm
  cases h with
  | kind hkind => exact hkind c rfl
  | unknown hunknown => exact hunknown v hv hname
  | mismatch hw hwname hne =>
      obtain rfl := hsame hw hwname
      exact hne hrole
  | untaken hw hwname hwrole hnot => exact hnot htakes
  | misplaced hw hwname hwrole _ hframing hrange =>
      obtain rfl := hsame hw hwname
      rcases hplace with hplace | hplace
      · exact hframing hplace
      · obtain ⟨range, hok⟩ := exists_range_iff.mpr hplace
        rw [hrange] at hok
        cases hok

theorem Shaped.exists_buffer (hm : m.Indexed) {a : Arguments} (ha : a.Shaped m k) {name : String}
    {v : VariableInfo} (hv : m.lookup name = some v) (htakes : Takes k v.role) :
    ∃ x, (a.part v.role).find? name = some x ∧ x.outline = v.outline := by
  rcases htakes with hrole | ⟨hrole, htakes⟩
  · have hinput := ha.inputs name
    rw [Metadata.inputs, find?_filter_of_lookup hm hv hrole] at hinput
    rw [hrole]
    exact Option.map_eq_some_iff.mp hinput
  · have houtput := ha.outputs name
    rw [if_pos htakes, Metadata.outputs, find?_filter_of_lookup hm hv hrole] at houtput
    rw [hrole]
    exact Option.map_eq_some_iff.mp houtput

/-- A message that is refused is refused for the first thing that is wrong with it. -/
theorem Shaped.offence (hm : m.Indexed) {a : Arguments} (ha : a.Shaped m k) {x : Message} {e : Error}
    (hx : a.receive m k x = .error e) : Offence m k x e := by
  cases x with
  | chunk c =>
      replace hx : a.accept m k c = .error e := hx
      cases hv : m.lookup c.name with
      | none =>
          rw [Arguments.accept, hv] at hx
          cases hx
          exact .unknown (hm.lookup_eq_none.mp hv)
      | some v =>
          obtain ⟨hmem, hname⟩ := hm.mem_of_lookup hv
          by_cases hrole : c.role = v.role
          · by_cases htakes : Takes k v.role
            · obtain ⟨x, hfound, houtline⟩ := ha.exists_buffer hm hv htakes
              rw [accept_eq hv hrole htakes] at hx
              have hwrite := eq_error_of_map hx
              rw [Arguments.write, hfound] at hwrite
              obtain ⟨hframing, hrange⟩ := x.assign_eq_error (eq_error_of_map hwrite)
              rw [Variable.length_of_outline houtline] at hframing hrange
              obtain ⟨text, rfl⟩ := exists_bounds hrange
              exact .misplaced hmem hname hrole (hrole ▸ htakes) hframing hrange
            · have hin : v.role ≠ .input := fun hin => htakes (.inl hin)
              have hout : ¬ (v.role = .output ∧ k.takesOutputs) := fun hout => htakes (.inr hout)
              rw [Arguments.accept, hv] at hx
              simp only [ne_eq, hrole, not_true_eq_false, if_false, hin, hout] at hx
              cases hx
              rw [← hrole]
              exact .untaken hmem hname hrole (hrole ▸ htakes)
          · rw [Arguments.accept, hv] at hx
            simp only [ne_eq, hrole, not_false_eq_true, if_true] at hx
            cases hx
            exact .mismatch hmem hname hrole
  | _ =>
      cases hx
      exact .kind (by simp)

/-- Of messages that are not all received there is a first one that is not. -/
theorem receiveAll_eq_error {a : Arguments} {e : Error} (h : a.receiveAll m k messages = .error e) :
    ∃ before x after b, messages = before ++ x :: after ∧ a.receiveAll m k before = .ok b ∧
      b.receive m k x = .error e := by
  induction messages generalizing a with
  | nil => cases h
  | cons x messages ih =>
      rw [receiveAll_cons] at h
      cases hx : a.receive m k x with
      | error e' =>
          rw [hx] at h
          cases h
          exact ⟨[], x, messages, a, rfl, rfl, hx⟩
      | ok a' =>
          rw [hx] at h
          obtain ⟨before, y, after, b, rfl, hb, hy⟩ := ih h
          exact ⟨x :: before, y, after, b, rfl, by rw [receiveAll_cons, hx]; exact hb, hy⟩

end Arguments

/-! ### The service -/

namespace Host

open Arguments

variable {σ : Type}

def Task.collected (k : Computation) (ticket : Option Nat) (s : Snapshot) :
    Except Error Arguments → Task
  | .ok a => .evaluating k ticket s a
  | .error e => .failing ticket e

def Steps (h : Host σ) (c c' : Served Task) : Prop := c.advance service h = some (h, c')

/-- A computation takes its messages one after another, up to the end or to the first that is
refused. -/
theorem steps_receiveAll (h : Host σ) {k : Computation} {ticket : Option Nat} {s : Snapshot}
    {messages : List Message} {a : Arguments} {call : Call}
    (hinbox : call.inbox = ⟨messages.map .ok, false⟩) :
    ∃ call', Relation.ReflTransGen h.Steps ⟨call, .running (.draining k ticket s a)⟩
      ⟨call', .running (.collected k ticket s (a.receiveAll s.metadata k messages))⟩ := by
  induction messages generalizing a call with
  | nil =>
      obtain ⟨method, inbox, outbox, cancelled⟩ := call
      cases hinbox
      have hstep : h.Steps ⟨⟨method, ⟨[], false⟩, outbox, cancelled⟩, .running (.draining k ticket s a)⟩
          ⟨⟨method, ⟨[], false⟩, outbox, cancelled⟩,
            .running (.ofArgument k ticket s a (.ok none))⟩ :=
        advance_of_move (.drain rfl)
      exact ⟨_, .single hstep⟩
  | cons x messages ih =>
      obtain ⟨method, inbox, outbox, cancelled⟩ := call
      cases hinbox
      have hstep : h.Steps ⟨⟨method, ⟨.ok x :: messages.map .ok, false⟩, outbox, cancelled⟩,
            .running (.draining k ticket s a)⟩
          ⟨⟨method, ⟨messages.map .ok, false⟩, outbox, cancelled⟩,
            .running (.ofArgument k ticket s a (.ok (some x)))⟩ :=
        advance_of_move (.drain rfl)
      rw [receiveAll_cons]
      cases hx : a.receive s.metadata k x with
      | error e =>
          rw [Task.ofArgument, hx] at hstep
          exact ⟨_, .single hstep⟩
      | ok a' =>
          rw [Task.ofArgument, hx] at hstep
          have hinbox : (⟨method, ⟨messages.map .ok, false⟩, outbox, cancelled⟩ : Call).inbox =
            ⟨messages.map .ok, false⟩ := rfl
          obtain ⟨call', hrest⟩ := ih (a := a') hinbox
          exact ⟨call', .head hstep hrest⟩

/-- What a computation collects, when the declared names are distinct. It takes just the messages
that are accepted; then it has one buffer for each declared variable that it takes, of the declared
shape, which holds at each position the value that the last chunk over it has given, or zero.
Otherwise it ends with what is wrong with the first message that is not accepted. -/
theorem collects_exact {m : Metadata} (hm : m.Built)
    (hdistinct : (m.variableList.map (·.name)).Nodup) (k : Computation) (messages : List Message) :
    let r := (zeros m k).receiveAll m k messages
    ((∃ a, r = .ok a) ↔ ∀ x ∈ messages, Accepts m k x) ∧
    (∀ a, r = .ok a → a.Overlaid m k messages) ∧
    (∀ e, r = .error e → ∃ before x after, messages = before ++ x :: after ∧
      (∀ y ∈ before, Accepts m k y) ∧ Offence m k x e) ∧
    ∀ (h : Host σ) (ticket : Option Nat) (s : Snapshot) (call : Call), s.metadata = m →
      call.inbox = ⟨messages.map .ok, false⟩ →
      ∃ call', Relation.ReflTransGen h.Steps ⟨call, .running (.draining k ticket s (.zeros m k))⟩
        ⟨call', .running (.collected k ticket s r)⟩ := by
  intro r
  have hindexed := hm.indexed
  have hshaped := shaped_zeros hdistinct k
  have haccepted {xs : List Message} {b : Arguments} (hb : (zeros m k).receiveAll m k xs = .ok b) :
      (∀ x ∈ xs, Accepts m k x) ∧ b.Shaped m k := by
    obtain ⟨hall, hshaped⟩ := receiveAll_eq_ok hindexed hshaped hb
    exact ⟨fun x hx => (accepts_iff hindexed hdistinct).mpr (hall x hx), hshaped⟩
  have herror : ∀ e, r = .error e → ∃ before x after, messages = before ++ x :: after ∧
      (∀ y ∈ before, Accepts m k y) ∧ Offence m k x e := by
    intro e he
    obtain ⟨before, x, after, b, hmessages, hb, hx⟩ := receiveAll_eq_error he
    obtain ⟨hall, hshaped⟩ := haccepted hb
    exact ⟨before, x, after, hmessages, hall, hshaped.offence hindexed hx⟩
  refine ⟨⟨?_, ?_⟩, fun a ha => receiveAll_overlaid hindexed hdistinct ha, herror, ?_⟩
  · rintro ⟨a, ha⟩
    exact (haccepted ha).1
  · intro hall
    cases hr : r with
    | ok a => exact ⟨a, rfl⟩
    | error e =>
        obtain ⟨before, x, after, rfl, -, hx⟩ := herror e hr
        exact absurd (hall x (by simp)) (hx.not_accepts hdistinct)
  · rintro h ticket s call rfl hinbox
    exact steps_receiveAll h hinbox

/-- A chunk over a part of what an earlier one has brought; nothing comes for the output. -/
theorem collects_overlapping :
    let m := ((Declaring.declare (.input "x" [3] "") fun _ => .declare (.output "y" [1] "")
      fun _ => .done ()).run (Metadata.fresh .implicit)).2
    let messages : List Message := [.chunk ⟨"x", none, 0, 2, .input, [⟨1⟩, ⟨2⟩, ⟨3⟩]⟩,
      .chunk ⟨"x", none, 1, 1, .input, [⟨9⟩]⟩]
    m.Built ∧ (m.variableList.map (·.name)).Nodup ∧
      ∃ a, (zeros m .residuals).receiveAll m .residuals messages = .ok a ∧
        (a.inputs.find? "x").map (·.data) = some [⟨1⟩, ⟨9⟩, ⟨3⟩] ∧
        (a.outputs.find? "y").map (·.data) = some [.zero] := by
  intro m messages
  have hm : m.Built := .run _ (.fresh .implicit)
  have hdistinct : (m.variableList.map (·.name)).Nodup := show ["x", "y"].Nodup by decide
  obtain ⟨-, hoverlaid, herror, -⟩ :=
    collects_exact (σ := Unit) hm hdistinct .residuals messages
  obtain ⟨a, ha⟩ : ∃ a, (zeros m .residuals).receiveAll m .residuals messages = .ok a :=
    exists_of_isOk (by decide +kernel)
  obtain ⟨hinputs, houtputs⟩ := hoverlaid a ha
  have hx := hinputs "x"
  have hy := houtputs "y"
  change _ = some ((_, _), [(⟨1⟩ : Binary64), ⟨9⟩, ⟨3⟩]) at hx
  change _ = some ((_, _), [Binary64.zero]) at hy
  refine ⟨hm, hdistinct, a, ha, ?_, ?_⟩
  · simpa using congrArg (Option.map Prod.snd) hx
  · simpa using congrArg (Option.map Prod.snd) hy

end Host

end RemoteDiscipline
