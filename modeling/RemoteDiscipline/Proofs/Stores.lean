import Mathlib.Data.List.Nodup
import RemoteDiscipline.Proofs.Collecting
import RemoteDiscipline.Proofs.Jacobians
/-!
Metadata stores after any changes.

A change declares something or forgets what is declared, and it may be refused. Whatever has been
done to a store, its index agrees with its variables, although a name may be declared twice and the
variables may be forgotten in between. From this follows what a change does next and what the store
shows (`Metadata.consistent_applyAll`).
-/

namespace RemoteDiscipline

namespace Table

variable {κ α : Type} [Key κ]

theorem mem_entries_iff {t : Table κ α} {e : κ × α} : e ∈ t.entries ↔ t.find? e.1 = some e.2 := by
  classical
  refine ⟨find?_of_mem, fun h => ?_⟩
  rw [find?, lookup_eq_find?, Option.map_eq_some_iff] at h
  obtain ⟨e', he', hvalue⟩ := h
  have hkey : e'.1 = e.1 := by simpa using List.find?_some he'
  exact Prod.ext hkey hvalue ▸ List.mem_of_find?_eq_some he'

theorem entries_ofList_perm {l : List (κ × α)} (h : (l.map (·.1)).Nodup) :
    (ofList l).entries.Perm l := by
  classical
  have hentries : (ofList l).entries.Nodup := List.Nodup.of_map _ (nodup_keys _)
  have hl : l.Nodup := List.Nodup.of_map _ h
  refine (List.perm_ext_iff_of_nodup hentries hl).mpr fun e => ?_
  rw [mem_entries_iff, find?_ofList h, Option.map_eq_some_iff]
  constructor
  · rintro ⟨e', he', hvalue⟩
    have hkey : e'.1 = e.1 := by simpa using List.find?_some he'
    exact Prod.ext hkey hvalue ▸ List.mem_of_find?_eq_some he'
  · exact fun he => ⟨e, Metadata.find?_key_eq h he, rfl⟩

theorem entries_ofList_map_perm {γ : Type} {l : List γ} {key : γ → κ} (h : (l.map key).Nodup)
    (f : γ → α) :
    (ofList (l.map fun c => (key c, f c))).entries.Perm (l.map fun c => (key c, f c)) :=
  entries_ofList_perm (by simpa [Function.comp_def] using h)

end Table

namespace Metadata

/-! ### Changes -/

inductive Change
  | declare (d : Declaration)
  | clearVariables
  | clearBlocks
  deriving DecidableEq, Inhabited

def apply (m : Metadata) : Change → Except Error Unit × Metadata
  | .declare d => m.record d
  | .clearVariables => (.ok (), m.clearVariables)
  | .clearBlocks => (.ok (), m.clearBlocks)

def applyAll (m : Metadata) (changes : List Change) : Metadata :=
  changes.foldl (fun m c => (m.apply c).2) m

variable {m : Metadata}

theorem Built.apply (h : m.Built) (c : Change) : (m.apply c).2.Built := by
  cases c with
  | declare d =>
      rw [Metadata.apply, record_eq]
      split
      · exact h.declare ‹_›
      · exact h
  | clearVariables => exact h.clearVariables
  | clearBlocks => exact h.clearBlocks

theorem Built.applyAll (h : m.Built) (changes : List Change) : (m.applyAll changes).Built := by
  induction changes generalizing m with
  | nil => exact h
  | cons c changes ih => exact ih (h.apply c)

theorem kind_apply (m : Metadata) (c : Change) : (m.apply c).2.kind = m.kind := by
  cases c with
  | declare d =>
      rw [apply, record_eq]
      split
      · exact kind_of_declare ‹_›
      · rfl
  | clearVariables => rfl
  | clearBlocks => rfl

theorem kind_applyAll (m : Metadata) (changes : List Change) :
    (m.applyAll changes).kind = m.kind := by
  induction changes generalizing m with
  | nil => rfl
  | cons c changes ih => exact (ih _).trans (m.kind_apply c)

theorem apply_of_error {c : Change} {e : Error} (h : (m.apply c).1 = .error e) :
    (m.apply c).2 = m := by
  cases c with
  | declare d =>
      rw [apply, record_eq] at h ⊢
      split at h
      · cases h
      · rfl
  | clearVariables => cases h
  | clearBlocks => cases h

theorem record_block_iff {output input : String} :
    (m.record (.block output input)).1 = .ok () ↔
      (∃ f, m.lookup output = some f ∧ f.role = .output) ∧
      ∃ x, m.lookup input = some x ∧ (x.role = .input ∨ m.kind = .implicit ∧ x.role = .output) := by
  constructor
  · intro hm
    rw [record, addBlock] at hm
    split at hm
    · cases hm
    · obtain ⟨f, x, hf, hfr, hx, hxr, -⟩ := justifies_of_blockShape ‹_›
      exact ⟨⟨f, hf, hfr⟩, x, hx, hxr⟩
  · rintro ⟨⟨f, hf, hfr⟩, x, hx, hxr⟩
    exact congrArg Prod.fst (addBlock_of_lookup hf hfr hx hxr)

/-! ### Consistency -/

/-- What a store of some kind shows and accepts, in terms of the declarations it lists. -/
structure Consistent (kind : Kind) (m : Metadata) : Prop where
  /-- Looking up gives the first variable of a name. -/
  lookup : ∀ name, m.lookup name = m.variableList.find? fun v => v.name = name
  /-- The index never leads out of the list. -/
  inRange : ∀ name i, m.index.find? name = some i → ∃ v, m.variableList[i]? = some v ∧ v.name = name
  refused : ∀ c e, (m.apply c).1 = .error e → (m.apply c).2 = m
  /-- The first declarations of its two names decide whether a block is accepted. -/
  block : ∀ output input, (m.apply (.declare (.block output input))).1 = .ok () ↔
    (∃ f, m.variableList.find? (fun v => v.name = output) = some f ∧ f.role = .output) ∧
    ∃ x, m.variableList.find? (fun v => v.name = input) = some x ∧
      (x.role = .input ∨ kind = .implicit ∧ x.role = .output)
  validate : m.validate = .ok () ↔
    (m.variableList.map (·.name)).Nodup ∧ (m.blockList.map fun b => (b.name, b.inputName)).Nodup
  /-- Once the store is validated, there are zeros for everything that is declared, and no more. -/
  zeros : m.validate = .ok () →
    m.inputBuffers.entries.Perm (m.inputs.map fun v => (v.name, .zeros .input v.shape)) ∧
    m.outputBuffers.entries.Perm (m.outputs.map fun v => (v.name, .zeros .output v.shape)) ∧
    m.residualBuffers.entries.Perm (m.outputs.map fun v => (v.name, .zeros .residual v.shape)) ∧
    m.blockBuffers.entries.Perm
      (m.blockList.map fun b => (⟨b.name, b.inputName⟩, .zeros .jacobian b.shape))

theorem Indexed.inRange (h : m.Indexed) {name : String} {i : Nat}
    (hi : m.index.find? name = some i) : ∃ v, m.variableList[i]? = some v ∧ v.name = name := by
  rw [h name] at hi
  obtain ⟨hlt, hv, -⟩ := List.findIdx?_eq_some_iff_getElem.mp hi
  exact ⟨_, List.getElem?_eq_getElem hlt, by simpa using hv⟩

theorem nodup_keys_iff {l : List BlockInfo} :
    (l.map (·.key)).Nodup ↔ (l.map fun b => (b.name, b.inputName)).Nodup := by
  have hpair : Function.Injective fun k : BlockKey => (k.output, k.input) := by
    rintro ⟨_, _⟩ ⟨_, _⟩ h
    cases h
    rfl
  rw [← List.nodup_map_iff hpair, List.map_map]
  rfl

theorem zeros_filter_perm {l : List VariableInfo} (h : (l.map (·.name)).Nodup) (role : Role) :
    let declared := l.filter fun v => v.role = role
    (Table.ofList (declared.map fun v => (v.name, v.zeros))).entries.Perm
      (declared.map fun v => (v.name, .zeros role v.shape)) := by
  intro declared
  have heq : (declared.map fun v => (v.name, v.zeros)) =
      declared.map fun v => (v.name, .zeros role v.shape) := by
    refine List.map_congr_left fun v hv => ?_
    have hrole : v.role = role := by simpa using (List.mem_filter.mp hv).2
    rw [VariableInfo.zeros, hrole]
  rw [heq]
  exact Table.entries_ofList_map_perm (Arguments.nodup_filter_names h _) _

/-- Whatever is done to a new store, it stays consistent. -/
theorem consistent_applyAll (kind : Kind) (changes : List Change) :
    ((fresh kind).applyAll changes).Consistent kind := by
  have hindexed := ((Built.fresh kind).applyAll changes).indexed
  have hkind : ((fresh kind).applyAll changes).kind = kind := kind_applyAll _ changes
  generalize (fresh kind).applyAll changes = m at hindexed hkind
  refine ⟨hindexed.lookup_eq, fun name i => hindexed.inRange, fun c e => apply_of_error, ?_, ?_, ?_⟩
  · intro output input
    simp only [apply, record_block_iff, hindexed.lookup_eq, hkind]
  · rw [validate_eq_ok_iff, nodup_keys_iff]
  · intro hvalid
    obtain ⟨hnames, hblocks⟩ := validate_eq_ok_iff.mp hvalid
    exact ⟨zeros_filter_perm hnames .input, zeros_filter_perm hnames .output,
      Table.entries_ofList_map_perm (Arguments.nodup_filter_names hnames _) _,
      Table.entries_ofList_map_perm hblocks _⟩

example :
    let m := (fresh .explicit).applyAll
      [.declare (.output "x" [3] "m"), .declare (.block "x" "y"), .clearVariables,
        .declare (.input "x" [2] "s"), .declare (.output "x" [5] "m")]
    m.lookup "x" = some ⟨"x", .input, [2], "s"⟩ ∧ m.blockList = [] := by decide +kernel

end Metadata

end RemoteDiscipline
