import Mathlib.Data.Option.Basic
import RemoteDiscipline.Proofs.Tilings
/-!
Which streams of chunks make complete results, whoever sends them.

Every chunk goes to the slot of its own result, so the results can be judged one at a time, however
their chunks are mixed: a stream is taken if each chunk belongs to some result and comes next among
the chunks of that result (`Slot.Hold.foldlM_isOk_iff`). This leads to an exact account of what a
client puts together (`Assembly.assemble_isOk_iff_complete`).
-/

namespace RemoteDiscipline

open Chunk

/-! ### Tables of slots -/

namespace Slot

theorem values_eq_ok_iff {κ : Type} [Key κ] {name : κ → String} {slots : Table κ Slot}
    {got : Table κ Variable} :
    values name slots = .ok got ↔
      (∀ k s, slots.find? k = some s → s.arrived = s.value.length) ∧ got = slots.map (·.value) := by
  classical
  have hcheck (l : List (κ × Slot)) :
      checkAll name l = .ok () ↔ ∀ e ∈ l, e.2.arrived = e.2.value.length := by
    induction l with
    | nil => simp [checkAll]
    | cons e l ih =>
        by_cases he : e.2.arrived = e.2.value.length <;>
          simp [checkAll, checkComplete, he, ih]
  constructor
  · intro h
    obtain ⟨_, hall, rfl⟩ := exists_of_map_eq_ok h
    refine ⟨fun k s hs => ?_, rfl⟩
    rw [Table.find?, Table.lookup_eq_find?, Option.map_eq_some_iff] at hs
    obtain ⟨e, he, rfl⟩ := hs
    exact (hcheck _).mp hall e (List.mem_of_find?_eq_some he)
  · rintro ⟨hall, rfl⟩
    rw [values, (hcheck _).mpr fun e he => hall e.1 e.2 (Table.find?_of_mem he)]
    rfl

section Streams

variable {κ : Type} [DecidableEq κ] {c : Chunk} {target : Chunk → Option κ}

def chunksOf (target : Chunk → Option κ) (k : κ) (cs : List Chunk) : List Chunk :=
  cs.filter fun c => target c = some k

@[simp] theorem chunksOf_nil (k : κ) : chunksOf target k [] = [] := rfl

theorem chunksOf_concat (k : κ) (cs : List Chunk) (c : Chunk) :
    chunksOf target k (cs ++ [c]) =
      chunksOf target k cs ++ if target c = some k then [c] else [] := by
  by_cases hk : target c = some k <;> simp [chunksOf, hk]

variable [Key κ] {step : Table κ Slot → Chunk → Except Error (Table κ Slot)}

/-- `step` hands every chunk to the slot of its result, and refuses a chunk of no result. -/
structure Routes (target : Chunk → Option κ)
    (step : Table κ Slot → Chunk → Except Error (Table κ Slot)) : Prop where
  refused : ∀ slots c, target c = none → ∃ e, step slots c = .error e
  routed : ∀ slots c k, target c = some k →
    ∃ label unknown, step slots c = acceptAt k label unknown c slots

/-- The slots for some buffers when some chunks have arrived. -/
structure Hold (target : Chunk → Option κ) (buffers : Table κ Variable) (cs : List Chunk)
    (slots : Table κ Slot) : Prop where
  keys : ∀ k, (slots.find? k).isSome = (buffers.find? k).isSome
  holds : ∀ {k v s}, buffers.find? k = some v → slots.find? k = some s →
    s.Holds v (payload (chunksOf target k cs))

variable {buffers : Table κ Variable} {cs : List Chunk} {slots slots' start : Table κ Slot}

theorem hold_empty (buffers : Table κ Variable) :
    Hold target buffers [] (buffers.map empty) where
  keys k := by simp [Table.find?_map]
  holds {k v s} hv hs := by
    obtain rfl : empty v = s := by simpa [Table.find?_map, hv] using hs
    exact holds_empty v

theorem Hold.exists_slot (h : Hold target buffers cs slots) {k : κ} {v : Variable}
    (hv : buffers.find? k = some v) :
    ∃ s, slots.find? k = some s ∧ s.Holds v (payload (chunksOf target k cs)) := by
  obtain ⟨s, hs⟩ := Option.isSome_iff_exists.mp ((h.keys k).trans (by simp [hv]))
  exact ⟨s, hs, h.holds hv hs⟩

theorem Hold.exists_buffer (h : Hold target buffers cs slots) {k : κ} {s : Slot}
    (hs : slots.find? k = some s) :
    ∃ v, buffers.find? k = some v ∧ s.Holds v (payload (chunksOf target k cs)) := by
  obtain ⟨v, hv⟩ := Option.isSome_iff_exists.mp ((h.keys k).symm.trans (by simp [hs]))
  exact ⟨v, hv, h.holds hv hs⟩

theorem Hold.find?_eq_none (h : Hold target buffers cs slots) {k : κ}
    (hs : slots.find? k = none) : buffers.find? k = none := by
  have hk := h.keys k
  rw [hs] at hk
  simpa using hk.symm

/-- A chunk is taken if it comes next for its own result, whatever has arrived for the others. -/
theorem Hold.step_isOk_iff (h : Hold target buffers cs slots) (hr : Routes target step) :
    (∃ slots', step slots c = .ok slots') ↔ ∃ k v, target c = some k ∧ buffers.find? k = some v ∧
      c.Continues v.length (payload (chunksOf target k cs)).length := by
  cases hc : target c with
  | none =>
      obtain ⟨e, he⟩ := hr.refused slots c hc
      simp [he]
  | some k =>
      obtain ⟨label, unknown, hroute⟩ := hr.routed slots c k hc
      rw [hroute, acceptAt]
      cases hs : slots.find? k with
      | none =>
          simp [h.find?_eq_none hs]
      | some s =>
          obtain ⟨v, hv, hholds⟩ := h.exists_buffer hs
          have haccept := hholds.accept_isOk_iff label c
          simp only [Option.some.injEq, ↓existsAndEq, true_and, hv, ← haccept]
          cases s.accept label c <;> simp [Except.map]

theorem Hold.next (h : Hold target buffers cs slots) (hr : Routes target step)
    (hslots : step slots c = .ok slots') : Hold target buffers (cs ++ [c]) slots' := by
  obtain ⟨k, v, hc, hv, -⟩ := (h.step_isOk_iff hr).mp ⟨slots', hslots⟩
  obtain ⟨s, hs, hholds⟩ := h.exists_slot hv
  obtain ⟨label, unknown, hroute⟩ := hr.routed slots c k hc
  rw [hroute, acceptAt, hs] at hslots
  obtain ⟨s', hs', rfl⟩ := exists_of_map_eq_ok hslots
  refine ⟨fun k' => ?_, fun {k' v' t} hv' ht => ?_⟩
  · rw [Table.find?_insert]
    split
    · rename_i hk
      simp [hk, hv]
    · exact h.keys k'
  · rw [Table.find?_insert] at ht
    rw [chunksOf_concat, hc]
    split at ht
    · rename_i hk
      subst hk
      cases hv.symm.trans hv'
      cases ht
      simpa using hholds.accept hs'
    · rename_i hk
      simpa [Ne.symm hk] using h.holds hv' ht

omit [DecidableEq κ] in
theorem foldlM_concat (c : Chunk) :
    (cs ++ [c]).foldlM step start = (cs.foldlM step start).bind fun slots => step slots c := by
  rw [List.foldlM_append]
  simp only [List.foldlM_cons, List.foldlM_nil, bind_pure]
  rfl

theorem Hold.foldlM (h : Hold target buffers [] start) (hr : Routes target step)
    (hslots : cs.foldlM step start = .ok slots) : Hold target buffers cs slots := by
  induction cs using List.reverseRecOn generalizing slots with
  | nil =>
      cases hslots
      exact h
  | append_singleton cs c ih =>
      rw [foldlM_concat] at hslots
      obtain ⟨before, hbefore, hstep⟩ := exists_of_bind_eq_ok hslots
      exact (ih hbefore).next hr hstep

/-- A stream is taken if every chunk belongs to some result and the chunks of each come one behind
the other. -/
theorem Hold.foldlM_isOk_iff (h : Hold target buffers [] start) (hr : Routes target step) :
    (∃ slots, cs.foldlM step start = .ok slots) ↔
      (∀ c ∈ cs, ∃ k v, target c = some k ∧ buffers.find? k = some v) ∧
        ∀ k v, buffers.find? k = some v → Unbroken v.length (chunksOf target k cs) := by
  induction cs using List.reverseRecOn with
  | nil => simp [pure, Except.pure]
  | append_singleton cs c ih =>
      rw [foldlM_concat]
      constructor
      · rintro ⟨slots', hslots'⟩
        obtain ⟨slots, hslots, hstep⟩ := exists_of_bind_eq_ok hslots'
        obtain ⟨hbelong, hunbroken⟩ := ih.mp ⟨slots, hslots⟩
        obtain ⟨k, v, hc, hv, hnext⟩ := ((h.foldlM hr hslots).step_isOk_iff hr).mp ⟨slots', hstep⟩
        refine ⟨?_, ?_⟩
        · intro d hd
          rcases List.mem_append.mp hd with hd | hd
          · exact hbelong d hd
          · obtain rfl := List.mem_singleton.mp hd
            exact ⟨k, v, hc, hv⟩
        · intro k' v' hv'
          rw [chunksOf_concat]
          split
          · rename_i hk
            obtain rfl : k = k' := Option.some.inj (hc.symm.trans hk)
            obtain rfl : v = v' := Option.some.inj (hv.symm.trans hv')
            exact unbroken_concat.mpr ⟨hunbroken k v hv, hnext⟩
          · simpa using hunbroken k' v' hv'
      · rintro ⟨hbelong, hunbroken⟩
        obtain ⟨k, v, hc, hv⟩ := hbelong c (by simp)
        obtain ⟨slots, hslots⟩ := ih.mpr ⟨fun d hd => hbelong d (by simp [hd]), fun k' v' hv' => by
          have hall := hunbroken k' v' hv'
          rw [chunksOf_concat] at hall
          split at hall
          · exact (unbroken_concat.mp hall).1
          · simpa using hall⟩
        have hnext := hunbroken k v hv
        rw [chunksOf_concat, if_pos hc, unbroken_concat] at hnext
        obtain ⟨slots', hstep⟩ :=
          ((h.foldlM hr hslots).step_isOk_iff hr).mpr ⟨k, v, hc, hv, hnext.2⟩
        exact ⟨slots', by rw [hslots]; exact hstep⟩

theorem Hold.values_isOk_iff (h : Hold target buffers [] start) (hr : Routes target step)
    (name : κ → String) :
    (∃ got, (cs.foldlM step start).bind (values name) = .ok got) ↔
      (∀ c ∈ cs, ∃ k v, target c = some k ∧ buffers.find? k = some v) ∧
        ∀ k v, buffers.find? k = some v → Complete v.length (chunksOf target k cs) := by
  have hfull {slots : Table κ Slot} (hslots : Hold target buffers cs slots) :
      (∀ k s, slots.find? k = some s → s.arrived = s.value.length) ↔
        ∀ k v, buffers.find? k = some v → (payload (chunksOf target k cs)).length = v.length := by
    constructor
    · intro hall k v hv
      obtain ⟨s, hs, hholds⟩ := hslots.exists_slot hv
      rw [← hholds.arrived, hall k s hs, hholds.length_eq]
    · intro hall k s hs
      obtain ⟨v, hv, hholds⟩ := hslots.exists_buffer hs
      rw [hholds.arrived, hall k v hv, hholds.length_eq]
  constructor
  · rintro ⟨got, hgot⟩
    obtain ⟨slots, hslots, hvalues⟩ := exists_of_bind_eq_ok hgot
    obtain ⟨hbelong, hunbroken⟩ := (h.foldlM_isOk_iff hr).mp ⟨slots, hslots⟩
    have hall := (hfull (h.foldlM hr hslots)).mp (values_eq_ok_iff.mp hvalues).1
    exact ⟨hbelong, fun k v hv => complete_iff.mpr ⟨hunbroken k v hv, hall k v hv⟩⟩
  · rintro ⟨hbelong, hcomplete⟩
    obtain ⟨slots, hslots⟩ := (h.foldlM_isOk_iff hr).mpr
      ⟨hbelong, fun k v hv => (complete_iff.mp (hcomplete k v hv)).1⟩
    have hall := (hfull (h.foldlM hr hslots)).mpr fun k v hv =>
      (complete_iff.mp (hcomplete k v hv)).2
    exact ⟨_, by rw [hslots]; exact values_eq_ok_iff.mpr ⟨hall, rfl⟩⟩

theorem Hold.values (h : Hold target buffers [] start) (hr : Routes target step)
    {name : κ → String} {got : Table κ Variable}
    (hgot : (cs.foldlM step start).bind (values name) = .ok got) (k : κ) :
    (got.find? k).map (fun x => (x.outline, x.data)) =
      (buffers.find? k).map fun v => (v.outline, payload (chunksOf target k cs)) := by
  obtain ⟨slots, hslots, hvalues⟩ := exists_of_bind_eq_ok hgot
  obtain ⟨hall, rfl⟩ := values_eq_ok_iff.mp hvalues
  have hhold := h.foldlM hr hslots
  rw [Table.find?_map]
  cases hs : slots.find? k with
  | none => simp [hhold.find?_eq_none hs]
  | some s =>
      obtain ⟨v, hv, hholds⟩ := hhold.exists_buffer hs
      have hlength : (payload (chunksOf target k cs)).length = v.data.length := by
        rw [← hholds.arrived, hall k s hs]
        exact hholds.length_eq
      simp [hv, hholds.outline, hholds.data, hlength]

/-! #### Expected results -/

variable {expected : Table κ Shape}

theorem values_isOk_iff_complete (role : Role) (hr : Routes target step) (name : κ → String) :
    (∃ got, (cs.foldlM step ((expected.map (Variable.zeros role)).map empty)).bind
        (values name) = .ok got) ↔
      (∀ c ∈ cs, ∃ k shape, target c = some k ∧ expected.find? k = some shape) ∧
        ∀ k shape, expected.find? k = some shape →
          Complete shape.count (chunksOf target k cs) := by
  have hlength (shape : Shape) : (Variable.zeros role shape).length = shape.count :=
    (Variable.zeros role shape).length_eq
  have hzeros {k : κ} {v : Variable} : (expected.map (Variable.zeros role)).find? k = some v ↔
      ∃ shape, expected.find? k = some shape ∧ Variable.zeros role shape = v := by
    rw [Table.find?_map, Option.map_eq_some_iff]
  rw [(hold_empty (expected.map (Variable.zeros role))).values_isOk_iff hr name]
  simp only [hzeros]
  constructor
  · rintro ⟨hbelong, hcomplete⟩
    refine ⟨fun c hc => ?_, fun k shape hk => hlength shape ▸ hcomplete k _ ⟨shape, hk, rfl⟩⟩
    obtain ⟨k, v, hc, shape, hk, -⟩ := hbelong c hc
    exact ⟨k, shape, hc, hk⟩
  · rintro ⟨hbelong, hcomplete⟩
    refine ⟨fun c hc => ?_, ?_⟩
    · obtain ⟨k, shape, hc, hk⟩ := hbelong c hc
      exact ⟨k, _, hc, shape, hk, rfl⟩
    · rintro k v ⟨shape, hk, rfl⟩
      exact (hlength shape).symm ▸ hcomplete k shape hk

theorem find?_values (role : Role) (hr : Routes target step) {name : κ → String}
    {got : Table κ Variable}
    (hgot : (cs.foldlM step ((expected.map (Variable.zeros role)).map empty)).bind
      (values name) = .ok got) (k : κ) :
    (got.find? k).map (fun x => (x.outline, x.data)) =
      (expected.find? k).map fun shape => ((role, shape), payload (chunksOf target k cs)) := by
  rw [(hold_empty (expected.map (Variable.zeros role))).values hr hgot k, Table.find?_map,
    Option.map_map]
  rfl

end Streams

end Slot

/-! ### The results of a computation -/

namespace Yield

def Name : Yield → Type
  | .vectors _ => String
  | .blocks => BlockKey

instance : (y : Yield) → Key y.Name
  | .vectors _ => inferInstanceAs (Key String)
  | .blocks => inferInstanceAs (Key BlockKey)

instance : (y : Yield) → DecidableEq y.Name
  | .vectors _ => inferInstanceAs (DecidableEq String)
  | .blocks => inferInstanceAs (DecidableEq BlockKey)

def role : Yield → Role
  | .vectors role => role
  | .blocks => .jacobian

def declared (infos : List VariableInfo) (blocks : List BlockInfo) :
    (y : Yield) → List (y.Name × Shape)
  | .vectors _ => (infos.filter fun v => v.role = .output).map fun v => (v.name, v.shape)
  | .blocks => blocks.map fun b => (b.key, b.shape)

/-- What a client expects of the results: of several that are declared under one name the last
counts. -/
def expected (infos : List VariableInfo) (blocks : List BlockInfo) (y : Yield) :
    Table y.Name Shape := Table.ofList (y.declared infos blocks)

theorem find?_expected {infos : List VariableInfo} {blocks : List BlockInfo} {y : Yield}
    (hdistinct : ((y.declared infos blocks).map (·.1)).Nodup) (k : y.Name) :
    (y.expected infos blocks).find? k =
      ((y.declared infos blocks).find? fun d => d.1 = k).map (·.2) :=
  Table.find?_ofList hdistinct k

def named : (y : Yield) → Chunk → Option y.Name
  | .vectors _, c => some c.name
  | .blocks, c => c.inputName.map fun input => ⟨c.name, input⟩

/-- The result to which a chunk belongs, which it does only with the right role. -/
def target (y : Yield) (c : Chunk) : Option y.Name := if c.role = y.role then y.named c else none

theorem target_eq_some {y : Yield} {c : Chunk} {k : y.Name} :
    y.target c = some k ↔ c.role = y.role ∧ y.named c = some k := by simp [target]

theorem named_blocks {c : Chunk} {k : BlockKey} :
    Yield.blocks.named c = some k ↔ c.name = k.output ∧ c.inputName = some k.input := by
  show c.inputName.map (fun input => (⟨c.name, input⟩ : BlockKey)) = some k ↔ _
  obtain ⟨output, input⟩ := k
  cases c.inputName <;> simp

theorem chunksOf_target {y : Yield} {cs : List Chunk} (h : ∀ c ∈ cs, c.role = y.role) (k : y.Name) :
    Slot.chunksOf y.target k cs = Slot.chunksOf y.named k cs := by
  apply List.filter_congr
  intro c hc
  simp [target, h c hc]

def find? : (y : Yield) → y.Values → y.Name → Option Variable
  | .vectors _, values, name => Table.find? (κ := String) values name
  | .blocks, values, key => Table.find? (κ := BlockKey) values key

end Yield

namespace Assembly

def assemble (infos : List VariableInfo) (blocks : List BlockInfo) (y : Yield) (cs : List Chunk) :
    Except Error y.Values :=
  (cs.foldlM (fun a c => accept c y a) (start infos blocks y)).bind (finish y)

theorem routes_vectors (role : Role) :
    Slot.Routes (κ := String) (Yield.target (.vectors role))
      fun slots c => accept c (.vectors role) slots where
  refused slots c hc := by
    have hrole : c.role ≠ role := by
      intro hrole
      have := Yield.target_eq_some (y := .vectors role).mpr ⟨hrole, rfl⟩
      rw [hc] at this
      cases this
    exact ⟨_, if_pos hrole⟩
  routed slots c k hc := by
    obtain ⟨hrole, hname⟩ := Yield.target_eq_some.mp hc
    cases hname
    exact ⟨_, _, if_neg (not_not_intro hrole)⟩

theorem accept_blocks {c : Chunk} {input : String} (hrole : c.role = .jacobian)
    (hinput : c.inputName = some input) (slots : Assembly .blocks) :
    accept c .blocks slots = Slot.acceptAt (κ := BlockKey) ⟨c.name, input⟩
      (BlockKey.text ⟨c.name, input⟩)
      (.protocol s!"Partial not found: {BlockKey.text ⟨c.name, input⟩}") c slots := by
  simp only [accept, hrole, hinput, ne_eq, not_true_eq_false]
  rfl

theorem accept_blocks_of_none {c : Chunk} (hrole : c.role = .jacobian) (hinput : c.inputName = none)
    (slots : Assembly .blocks) :
    accept c .blocks slots =
      .error (.protocol s!"partial chunk for '{c.name}' has no input name") := by
  simp [accept, hrole, hinput]

theorem routes_blocks :
    Slot.Routes (κ := BlockKey) (Yield.target .blocks) fun slots c => accept c .blocks slots where
  refused slots c hc := by
    by_cases hrole : c.role = .jacobian
    · cases hinput : c.inputName with
      | none => exact ⟨_, accept_blocks_of_none hrole hinput slots⟩
      | some input =>
          have := Yield.target_eq_some.mpr
            ⟨hrole, Yield.named_blocks (k := ⟨c.name, input⟩).mpr ⟨rfl, hinput⟩⟩
          rw [hc] at this
          cases this
    · exact ⟨_, if_pos hrole⟩
  routed slots c k hc := by
    obtain ⟨hrole, hnamed⟩ := Yield.target_eq_some.mp hc
    obtain ⟨output, input⟩ := k
    obtain ⟨rfl, hinput⟩ := Yield.named_blocks.mp hnamed
    exact ⟨_, _, accept_blocks hrole hinput slots⟩

/-- The judgement by what chunks belong to, which holds for either kind of results, and also when a
name is declared more than once. -/
theorem assemble_expected (infos : List VariableInfo) (blocks : List BlockInfo) (y : Yield)
    (cs : List Chunk) :
    ((∃ got, assemble infos blocks y cs = .ok got) ↔
      (∀ c ∈ cs, ∃ k shape, y.target c = some k ∧
        (y.expected infos blocks).find? k = some shape) ∧
      ∀ k shape, (y.expected infos blocks).find? k = some shape →
        Complete shape.count (Slot.chunksOf y.target k cs)) ∧
    ∀ got, assemble infos blocks y cs = .ok got → ∀ k,
      (y.find? got k).map (fun x => (x.outline, x.data)) =
        ((y.expected infos blocks).find? k).map fun shape =>
          ((y.role, shape), payload (Slot.chunksOf y.target k cs)) := by
  cases y with
  | vectors role =>
      have hstart : start infos blocks (.vectors role) =
          (((Yield.vectors role).expected infos blocks).map (Variable.zeros role)).map
            Slot.empty := by
        simp only [Yield.expected, Table.map_ofList, Yield.declared, List.map_map]
        rfl
      unfold assemble
      rw [hstart]
      exact ⟨Slot.values_isOk_iff_complete role (routes_vectors role) id,
        fun got hgot k => Slot.find?_values role (routes_vectors role) hgot k⟩
  | blocks =>
      have hstart : start infos blocks .blocks =
          ((Yield.blocks.expected infos blocks).map (Variable.zeros .jacobian)).map
            Slot.empty := by
        simp only [Yield.expected, Table.map_ofList, Yield.declared, List.map_map]
        rfl
      unfold assemble
      rw [hstart]
      exact ⟨Slot.values_isOk_iff_complete .jacobian routes_blocks BlockKey.text,
        fun got hgot k => Slot.find?_values .jacobian routes_blocks hgot k⟩

theorem assemble_target {infos : List VariableInfo} {blocks : List BlockInfo} {y : Yield}
    (hdistinct : ((y.declared infos blocks).map (·.1)).Nodup) (cs : List Chunk) :
    ((∃ got, assemble infos blocks y cs = .ok got) ↔
      (∀ c ∈ cs, ∃ d ∈ y.declared infos blocks, y.target c = some d.1) ∧
        ∀ d ∈ y.declared infos blocks, Complete d.2.count (Slot.chunksOf y.target d.1 cs)) ∧
    ∀ got, assemble infos blocks y cs = .ok got → ∀ k,
      (y.find? got k).map (fun x => (x.outline, x.data)) =
        ((y.declared infos blocks).find? fun d => d.1 = k).map fun d =>
          ((y.role, d.2), payload (Slot.chunksOf y.target k cs)) := by
  obtain ⟨hiff, hvalues⟩ := assemble_expected infos blocks y cs
  have hmem {k : y.Name} {shape : Shape} : (y.expected infos blocks).find? k = some shape ↔
      (k, shape) ∈ y.declared infos blocks := by
    rw [Yield.find?_expected hdistinct, Option.map_eq_some_iff]
    constructor
    · rintro ⟨d, hd, rfl⟩
      have hk : d.1 = k := by simpa using List.find?_some hd
      exact hk ▸ List.mem_of_find?_eq_some hd
    · intro hd
      exact ⟨_, Metadata.find?_key_eq hdistinct hd, rfl⟩
  simp only [hmem] at hiff
  refine ⟨hiff.trans ?_, fun got hgot k => ?_⟩
  · simp only [Prod.exists, Prod.forall]
    grind
  · rw [hvalues got hgot k, Yield.find?_expected hdistinct, Option.map_map]
    rfl

/-- A client puts results together exactly when every chunk has the right role and names a declared
result, and the chunks of each result make up its declared length; and then each result has its
declared shape and holds what its chunks carried, in the order in which these came. -/
theorem assemble_isOk_iff_complete {infos : List VariableInfo} {blocks : List BlockInfo} {y : Yield}
    (hdistinct : ((y.declared infos blocks).map (·.1)).Nodup) (cs : List Chunk) :
    ((∃ got, assemble infos blocks y cs = .ok got) ↔
      (∀ c ∈ cs, c.role = y.role ∧ ∃ d ∈ y.declared infos blocks, y.named c = some d.1) ∧
        ∀ d ∈ y.declared infos blocks, Complete d.2.count (Slot.chunksOf y.named d.1 cs)) ∧
    ∀ got, assemble infos blocks y cs = .ok got → ∀ k,
      (y.find? got k).map (fun x => (x.outline, x.data)) =
        ((y.declared infos blocks).find? fun d => d.1 = k).map fun d =>
          ((y.role, d.2), payload (Slot.chunksOf y.named k cs)) := by
  obtain ⟨hiff, hvalues⟩ := assemble_target hdistinct cs
  have hbelong : (∀ c ∈ cs, ∃ d ∈ y.declared infos blocks, y.target c = some d.1) ↔
      ∀ c ∈ cs, c.role = y.role ∧ ∃ d ∈ y.declared infos blocks, y.named c = some d.1 := by
    simp only [Yield.target_eq_some]
    grind
  rw [hbelong] at hiff
  refine ⟨hiff.trans (and_congr_right fun h => ?_), fun got hgot k => ?_⟩
  · simp only [Yield.chunksOf_target fun c hc => (h c hc).1]
  · rw [← Yield.chunksOf_target fun c hc => ((hiff.mp ⟨got, hgot⟩).1 c hc).1]
    exact hvalues got hgot k

/-- Three results whose chunks are mixed, one of them without values. -/
theorem assemble_mixed :
    let infos : List VariableInfo :=
      [⟨"f", .output, [3], ""⟩, ⟨"x", .input, [5], ""⟩, ⟨"e", .output, [0], ""⟩,
        ⟨"g", .output, [1], ""⟩]
    let chunk (name : String) (start stop : Int) (data : List Binary64) : Chunk :=
      ⟨name, none, start, stop, .residual, data⟩
    let cs := [chunk "f" 0 1 [⟨1⟩, ⟨2⟩], chunk "g" 0 0 [⟨7⟩], chunk "e" 0 0 [],
      chunk "f" 2 2 [⟨3⟩]]
    let y := Yield.vectors .residual
    ((y.declared infos []).map (·.1)).Nodup ∧
      Complete 3 (Slot.chunksOf y.named "f" cs) ∧
      ∃ got, assemble infos [] y cs = .ok got ∧
        (y.find? got "f").map (·.data) = some [⟨1⟩, ⟨2⟩, ⟨3⟩] := by
  intro infos chunk cs y
  have hdistinct : ((y.declared infos []).map (·.1)).Nodup :=
    show ["f", "e", "g"].Nodup by decide
  obtain ⟨hiff, hvalues⟩ := assemble_isOk_iff_complete hdistinct cs
  obtain ⟨got, hgot⟩ : ∃ got, assemble infos [] y cs = .ok got :=
    exists_of_isOk (by decide +kernel)
  have hmem : ("f", [3]) ∈ y.declared infos [] := .head _
  refine ⟨hdistinct, (hiff.mp ⟨got, hgot⟩).2 _ hmem, got, hgot, ?_⟩
  have hf := hvalues got hgot "f"
  change _ = some ((_, _), [(⟨1⟩ : Binary64), ⟨2⟩, ⟨3⟩]) at hf
  simpa using congrArg (Option.map Prod.snd) hf

end Assembly

end RemoteDiscipline
