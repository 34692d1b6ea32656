import RemoteDiscipline.Lifecycle
/-!
What a metadata store knows after any sequence of declarations.

`Metadata.Sound` is the invariant that every declaration keeps, whether the store is complete or not:
the index leads to the first declaration of each name, and every Jacobian block has the shape that
follows from the declarations it names. Names only become distinct when `Metadata.validate` has
looked; together with the invariant that gives `Metadata.Valid`, which is what a caller relies on.
-/

namespace RemoteDiscipline

namespace Metadata

/-! ### Repetitions -/

theorem firstRepeated_eq_none_iff {α : Type} [DecidableEq α] {seen l : List α} :
    firstRepeated seen l = none ↔ l.Nodup ∧ ∀ a ∈ l, a ∉ seen := by
  induction l generalizing seen with
  | nil => simp [firstRepeated]
  | cons a l ih =>
      rw [firstRepeated]
      split
      · rename_i h
        simp [h]
      · rename_i h
        rw [ih, List.nodup_cons]
        constructor
        · rintro ⟨hl, hseen⟩
          refine ⟨⟨fun ha => hseen a ha (by simp), hl⟩, ?_⟩
          intro b hb
          rcases List.mem_cons.mp hb with rfl | hb
          · exact h
          · exact fun hbs => hseen b hb (by simp [hbs])
        · rintro ⟨⟨ha, hl⟩, hseen⟩
          refine ⟨hl, fun b hb hbs => ?_⟩
          rcases List.mem_cons.mp hbs with rfl | hbs
          · exact ha hb
          · exact hseen b (by simp [hb]) hbs

/-- Validation finds exactly the names and the blocks that are declared twice. -/
theorem validate_eq_ok_iff {m : Metadata} :
    m.validate = .ok () ↔
      (m.variableList.map (·.name)).Nodup ∧ (m.blockList.map (·.key)).Nodup := by
  have distinct_iff {α : Type} [DecidableEq α] (l : List α) :
      l.Nodup ↔ firstRepeated [] l = none := by
    simp [firstRepeated_eq_none_iff]
  rw [distinct_iff, distinct_iff, validate]
  split
  · rename_i h
    simp [h]
  · rename_i h
    split
    · rename_i h'
      simp [h']
    · rename_i h'
      simp [h, h']

/-! ### The invariant of the store -/

/-- The index leads from every name to its first declaration. -/
def Indexed (m : Metadata) : Prop :=
  ∀ name, m.index.find? name = m.variableList.findIdx? (fun v => v.name = name)

/-- Whether a block follows from the declarations of a store: it names a declared output and a
declared input, or another output where that is allowed, and has the shape of their Jacobian. -/
def Justifies (m : Metadata) (b : BlockInfo) : Prop :=
  ∃ f x, m.lookup b.name = some f ∧ f.role = .output ∧
    m.lookup b.inputName = some x ∧
    (x.role = .input ∨ m.kind = .implicit ∧ x.role = .output) ∧
    b.shape = Shape.jacobian f.shape x.shape

/-- What holds of a store after any declarations, also before anybody has looked for repetitions. -/
structure Sound (m : Metadata) : Prop where
  named : ∀ v ∈ m.variableList, v.name ≠ ""
  role : ∀ v ∈ m.variableList, v.role = .input ∨ v.role = .output
  indexed : m.Indexed
  justified : ∀ b ∈ m.blockList, m.Justifies b

theorem sound_fresh (kind : Kind) : (fresh kind).Sound where
  named := by simp [fresh]
  role := by simp [fresh]
  indexed := by simp [fresh, Indexed]
  justified := by simp [fresh]

theorem sound_cleared (m : Metadata) : m.clearVariables.clearBlocks.Sound where
  named := by simp [clearVariables, clearBlocks]
  role := by simp [clearVariables, clearBlocks]
  indexed := by simp [clearVariables, clearBlocks, Indexed]
  justified := by simp [clearVariables, clearBlocks]

section Declare

variable {m m' : Metadata} {d : Declaration}

theorem declare_eq_ok_iff : m.declare d = .ok m' ↔ m.record d = (.ok (), m') := by
  rw [declare]
  rcases m.record d with ⟨_ | _, m''⟩ <;> simp [Except.map]

/-- A declaration that is refused changes nothing. -/
theorem record_eq (m : Metadata) (d : Declaration) :
    m.record d = match m.declare d with
      | .ok m' => (.ok (), m')
      | .error e => (.error e, m) := by
  cases d with
  | input name shape units | output name shape units =>
      simp only [declare, record, addVariable]
      split <;> rfl
  | option name type =>
      simp only [declare, record, addOption]
      split <;> rfl
  | block output input =>
      simp only [declare, record, addBlock]
      split <;> rfl

end Declare

section Lookup

variable {m m' : Metadata}

theorem Indexed.lookup_eq (h : m.Indexed) (name : String) :
    m.lookup name = m.variableList.find? (fun v => v.name = name) := by
  rw [lookup, h name]
  cases hi : m.variableList.findIdx? (fun v => decide (v.name = name)) with
  | none =>
      rw [List.findIdx?_eq_none_iff] at hi
      symm
      rw [List.find?_eq_none]
      simpa using hi
  | some i =>
      obtain ⟨hlt, hv, hfirst⟩ := List.findIdx?_eq_some_iff_getElem.mp hi
      symm
      dsimp only
      rw [List.getElem?_eq_getElem hlt, List.find?_eq_some_iff_getElem]
      exact ⟨hv, i, hlt, rfl, fun j hj => by simpa using hfirst j hj⟩

theorem Indexed.mem_of_lookup (h : m.Indexed) {name : String} {v : VariableInfo}
    (hv : m.lookup name = some v) : v ∈ m.variableList ∧ v.name = name := by
  rw [h.lookup_eq] at hv
  exact ⟨List.mem_of_find?_eq_some hv, by simpa using List.find?_some hv⟩

/-- A declaration that is looked up stays the one that is looked up. -/
theorem Indexed.lookup_of_append (h : m.Indexed) (h' : m'.Indexed) {l : List VariableInfo}
    (happ : m'.variableList = m.variableList ++ l) {name : String} {v : VariableInfo}
    (hv : m.lookup name = some v) : m'.lookup name = some v := by
  rw [h.lookup_eq] at hv
  rw [h'.lookup_eq, happ, List.find?_append, hv]
  rfl

theorem lookupRole_eq_some {name : String} {roles : List Role} {v : VariableInfo} :
    m.lookupRole name roles = some v ↔ m.lookup name = some v ∧ v.role ∈ roles := by
  simp [lookupRole, Option.filter_eq_some_iff]

theorem justifies_of_blockShape {output input : String} {shape : Shape}
    (h : m.blockShape output input m.kind.allowsOutputAsInput = .ok shape) :
    m.Justifies ⟨output, input, shape⟩ := by
  unfold blockShape at h
  split at h
  · cases h
  · rename_i f hf
    split at h
    · cases h
    · rename_i x hx
      cases h
      rw [lookupRole_eq_some] at hf hx
      refine ⟨f, x, hf.1, by simpa using hf.2, hx.1, ?_, rfl⟩
      cases hk : m.kind with
      | explicit =>
          left
          simpa [hk, Kind.allowsOutputAsInput] using hx.2
      | implicit => simpa [hk, Kind.allowsOutputAsInput] using hx.2

/-- A name that is already known keeps its place; a new one gets the place at the end. -/
theorem Indexed.addVariable (h : m.Indexed) {role : Role} {name : String} {shape : Shape}
    {units : String} (hm : m.addVariable role name shape units = (.ok (), m')) :
    m'.Indexed ∧ m'.variableList = m.variableList ++ [⟨name, role, shape, units⟩] ∧
      m'.blockList = m.blockList ∧ m'.kind = m.kind ∧ name ≠ "" := by
  unfold Metadata.addVariable at hm
  split at hm
  · cases hm
  · rename_i hname
    cases hm
    refine ⟨fun n => ?_, rfl, rfl, rfl, by simpa using hname⟩
    rw [List.findIdx?_append, ← h n]
    dsimp only
    by_cases hn : n = name
    · subst hn
      cases hf : m.index.find? n with
      | none => simp
      | some i => simp [hf]
    · -- Other names are found where they were.
      have hne : ¬ name = n := fun e => hn e.symm
      cases hf : m.index.find? name with
      | none => simp [Table.find?_insert_of_ne _ hn, hne]
      | some i => simp [hne]

end Lookup

/-! ### Declarations keep it -/

namespace Sound

variable {m m' : Metadata}

theorem addVariable (h : m.Sound) {role : Role} {name : String} {shape : Shape} {units : String}
    (hrole : role = .input ∨ role = .output)
    (hm : m.addVariable role name shape units = (.ok (), m')) : m'.Sound := by
  obtain ⟨hindex, hlist, hblocks, hkind, hname⟩ := h.indexed.addVariable hm
  refine ⟨?_, ?_, hindex, ?_⟩
  · intro v hv
    rw [hlist] at hv
    rcases List.mem_append.mp hv with hv | hv
    · exact h.named v hv
    · rw [List.mem_singleton.mp hv]
      exact hname
  · intro v hv
    rw [hlist] at hv
    rcases List.mem_append.mp hv with hv | hv
    · exact h.role v hv
    · rw [List.mem_singleton.mp hv]
      exact hrole
  · intro b hb
    rw [hblocks] at hb
    -- The new declaration comes last, so the block finds the same ones as before.
    obtain ⟨f, x, hf, hfr, hx, hxr, hs⟩ := h.justified b hb
    exact ⟨f, x, h.indexed.lookup_of_append hindex hlist hf, hfr,
      h.indexed.lookup_of_append hindex hlist hx, hkind ▸ hxr, hs⟩

theorem addOption (h : m.Sound) {name : String} {type : OptionType}
    (hm : m.addOption name type = (.ok (), m')) : m'.Sound := by
  unfold Metadata.addOption at hm
  split at hm
  · cases hm
  · cases hm
    exact ⟨h.named, h.role, h.indexed, h.justified⟩

theorem addBlock (h : m.Sound) {output input : String}
    (hm : m.addBlock output input = (.ok (), m')) : m'.Sound := by
  unfold Metadata.addBlock at hm
  cases hs : m.blockShape output input m.kind.allowsOutputAsInput with
  | error e =>
      rw [hs] at hm
      cases hm
  | ok shape =>
      rw [hs] at hm
      cases hm
      refine ⟨h.named, h.role, h.indexed, ?_⟩
      intro b hb
      rcases List.mem_append.mp hb with hb | hb
      · exact h.justified b hb
      · simp only [List.mem_singleton] at hb
        subst hb
        exact justifies_of_blockShape hs

theorem declare (h : m.Sound) {d : Declaration} (hm : m.declare d = .ok m') : m'.Sound := by
  rw [declare_eq_ok_iff] at hm
  cases d with
  | input name shape units => exact h.addVariable (.inl rfl) hm
  | output name shape units => exact h.addVariable (.inr rfl) hm
  | option name type => exact h.addOption hm
  | block output input => exact h.addBlock hm

end Sound

theorem kind_of_declare {m m' : Metadata} {d : Declaration} (hm : m.declare d = .ok m') :
    m'.kind = m.kind := by
  rw [declare_eq_ok_iff] at hm
  cases d with
  | input name shape units | output name shape units =>
      simp only [record, addVariable] at hm
      split at hm <;> cases hm
      rfl
  | option name type =>
      simp only [record, addOption] at hm
      split at hm <;> cases hm
      rfl
  | block output input =>
      simp only [record, addBlock] at hm
      cases hs : m.blockShape output input m.kind.allowsOutputAsInput with
      | error e =>
          rw [hs] at hm
          cases hm
      | ok shape =>
          rw [hs] at hm
          cases hm
          rfl

/-! ### Valid stores -/

/-- What a caller may rely on when a discipline of some kind is ready. -/
structure Valid (kind : Kind) (m : Metadata) : Prop where
  named : ∀ v ∈ m.variableList, v.name ≠ ""
  distinct : (m.variableList.map (·.name)).Nodup
  lookup_name : ∀ v ∈ m.variableList, m.lookup v.name = some v
  distinctBlocks : (m.blockList.map (·.key)).Nodup
  /-- A block is taken between declared variables, and its shape follows from theirs. -/
  blocks : ∀ b ∈ m.blockList, ∃ f ∈ m.variableList, ∃ x ∈ m.variableList,
    f.name = b.name ∧ f.role = .output ∧ x.name = b.inputName ∧
      (x.role = .input ∨ kind = .implicit ∧ x.role = .output) ∧
      b.shape = Shape.jacobian f.shape x.shape

theorem find?_key_eq {α κ : Type} [DecidableEq κ] {key : α → κ} {l : List α}
    (hd : (l.map key).Nodup) {a : α} (ha : a ∈ l) : l.find? (fun b => key b = key a) = some a := by
  induction l with
  | nil => cases ha
  | cons b l ih =>
      rw [List.map_cons, List.nodup_cons] at hd
      rcases List.mem_cons.mp ha with rfl | ha
      · simp
      · have hne : key b ≠ key a := fun e => hd.1 (e ▸ List.mem_map_of_mem ha)
        rw [List.find?_cons_of_neg (by simpa using hne)]
        exact ih hd.2 ha

/-- A sound store that validation accepts is valid. -/
theorem Sound.valid {m : Metadata} (h : m.Sound) (hv : m.validate = .ok ()) : m.Valid m.kind := by
  obtain ⟨hnames, hkeys⟩ := validate_eq_ok_iff.mp hv
  refine ⟨h.named, hnames, ?_, hkeys, ?_⟩
  · intro v hv
    rw [h.indexed.lookup_eq]
    exact find?_key_eq hnames hv
  · intro b hb
    obtain ⟨f, x, hf, hfr, hx, hxr, hs⟩ := h.justified b hb
    obtain ⟨hf, hfn⟩ := h.indexed.mem_of_lookup hf
    obtain ⟨hx, hxn⟩ := h.indexed.mem_of_lookup hx
    exact ⟨f, hf, x, hx, hfn, hfr, hxn, hxr, hs⟩

end Metadata

/-! ### Hooks that declare -/

namespace Declaring

variable {α : Type}

theorem sound_run (program : Declaring α) {m : Metadata} (h : m.Sound) :
    (program.run m).2.Sound := by
  induction program generalizing m with
  | done a => exact h
  | declare d next ih =>
      rw [run, Metadata.record_eq]
      cases hd : m.declare d with
      | ok m' => exact ih _ (h.declare hd)
      | error e => exact ih _ h

theorem kind_run (program : Declaring α) (m : Metadata) : (program.run m).2.kind = m.kind := by
  induction program generalizing m with
  | done a => rfl
  | declare d next ih =>
      rw [run, Metadata.record_eq]
      cases hd : m.declare d with
      | ok m' => exact (ih _ m').trans (Metadata.kind_of_declare hd)
      | error e => exact ih _ m

end Declaring

end RemoteDiscipline
