import RemoteDiscipline.Proofs.Completeness
import RemoteDiscipline.Proofs.Plans
/-!
What a client makes of the results that a server sends.

A server cuts the results by its own declarations, and a client puts them together by the ones that
it has fetched at some time. Nothing is compared beforehand, and the pieces alone tell: a client
takes them exactly if the two agree on the length of every result
(`Assembly.assemble_pieces_isOk_iff`), and then it has what the hook has left
(`Assembly.delivers_of_pieces`), in whatever sizes it was cut. If it knows the same declarations it
returns just these results (`Assembly.returns_of_pieces`).
-/

namespace RemoteDiscipline

open Chunk

/-! ### The pieces of one result -/

section Pieces

variable {x : Variable} {tag : Tag} {size : Nat}

/-- Some pieces from the first on carry the beginning of a value. -/
theorem payload_range (n : Nat) : payload ((List.range n).map (x.piece tag size)) =
    x.data.take (position x.length size n) := by
  induction n with
  | zero => simp [position_zero]
  | succ n ih =>
      have hle : position x.length size n ≤ position x.length size (n + 1) := by
        simp only [position, Nat.succ_mul]
        omega
      rw [List.range_succ, List.map_append, payload_append, ih]
      show _ ++ ((x.data.drop _).take _ ++ []) = _
      rw [List.append_nil, ← List.take_add, Nat.add_sub_cancel' hle]

theorem payload_pieces (hsize : 1 ≤ size) : payload (x.pieces tag size) = x.data := by
  rw [Variable.pieces, payload_range, position_needed hsize]
  exact List.take_length

theorem continues_piece (hsize : 1 ≤ size) {i : Nat} (hi : i < needed x.length size) :
    (x.piece tag size i).Continues x.length (position x.length size i) := by
  rcases Nat.eq_zero_or_pos x.length with hzero | hlength
  · exact .inl ⟨hzero, Variable.isFraming_piece hzero⟩
  · have hrange : (x.piece tag size i).targetRange x.length =
        .ok (position x.length size i, position x.length size (i + 1)) :=
      Variable.targetRange_piece hsize hi hlength
    obtain ⟨hstart, hstop, hlt, hle, hdata⟩ := targetRange_eq_ok.mp hrange
    rw [Continues, ← List.length_pos_iff]
    omega

theorem complete_pieces (hsize : 1 ≤ size) : Complete x.length (x.pieces tag size) := by
  have hunbroken : ∀ n ≤ needed x.length size,
      Unbroken x.length ((List.range n).map (x.piece tag size)) := by
    intro n
    induction n with
    | zero => simp
    | succ n ih =>
        intro hn
        have hlength : (x.data.take (position x.length size n)).length =
            position x.length size n := by
          rw [List.length_take]
          exact Nat.min_eq_left (position_le x.length size n)
        rw [List.range_succ, List.map_append]
        exact unbroken_concat.mpr ⟨ih (by omega), by
          rw [payload_range, hlength]
          exact continues_piece hsize hn⟩
  rw [complete_iff, payload_pieces hsize]
  exact ⟨hunbroken _ (Nat.le_refl _), rfl⟩

end Pieces

/-! ### The pieces of all results -/

theorem Slot.chunksOf_flatMap {ι κ : Type} [DecidableEq κ] {target : Chunk → Option κ} (key : ι → κ)
    {chunks : ι → List Chunk} {l : List ι} (h : ∀ a ∈ l, ∀ c ∈ chunks a, target c = some (key a))
    (hdistinct : (l.map key).Nodup) (k : κ) :
    chunksOf target k (l.flatMap chunks) = ((l.find? fun a => key a = k).map chunks).getD [] := by
  induction l with
  | nil => rfl
  | cons a l ih =>
      have hfirst : chunksOf target k (chunks a) = if key a = k then chunks a else [] := by
        split
        · rename_i hk
          exact List.filter_eq_self.mpr fun c hc => by simp [h a (by simp) c hc, hk]
        · rename_i hk
          exact List.filter_eq_nil_iff.mpr fun c hc => by simp [h a (by simp) c hc, hk]
      obtain ⟨hnew, hdistinct⟩ := List.nodup_cons.mp hdistinct
      have hrest := ih (fun b hb => h b (by simp [hb])) hdistinct
      rw [List.flatMap_cons, chunksOf, List.filter_append]
      change chunksOf target k (chunks a) ++ chunksOf target k (l.flatMap chunks) = _
      rw [hfirst, hrest]
      by_cases hk : key a = k
      · have hnone : l.find? (fun b => key b = k) = none :=
          List.find?_eq_none.mpr fun b hb hb' =>
            hnew (hk.trans (of_decide_eq_true hb').symm ▸ List.mem_map_of_mem hb)
        simp [hk, hnone]
      · simp [hk]

namespace Yield

variable {y : Yield}

def tag : (y : Yield) → y.Name → Tag
  | .vectors role, name => .ofVariable name role
  | .blocks, key => .ofBlock key

def label : (y : Yield) → y.Name → String
  | .vectors _, name => name
  | .blocks, key => BlockKey.text key

theorem target_piece (k : y.Name) (x : Variable) (size i : Nat) :
    y.target (x.piece (y.tag k) size i) = some k := by
  cases y <;> exact if_pos rfl

theorem outcomes_eq (m : Metadata) (values : y.Values) :
    m.outcomes y values = (y.declared m.variableList m.blockList).map fun d =>
      ⟨y.tag d.1, y.label d.1, d.2, y.find? values d.1⟩ := by
  cases y <;> (rw [declared, List.map_map]; rfl)

theorem nodup_declared {m : Metadata} {kind : Kind} (hm : m.Valid kind) (y : Yield) :
    ((y.declared m.variableList m.blockList).map (·.1)).Nodup := by
  cases y with
  | vectors role =>
      have hall := Arguments.nodup_filter_names hm.distinct fun v => v.role = .output
      exact (List.map_map (l := m.outputs)).symm ▸ hall
  | blocks => exact (List.map_map (l := m.blockList)).symm ▸ hm.distinctBlocks

/-- Whether declared and expected results agree: every declared one is expected with as many values,
and what is expected beyond that has no values. -/
structure Agree (y : Yield) (results : List (y.Name × Shape)) (expected : Table y.Name Shape) :
    Prop where
  declared : ∀ d ∈ results, ∃ shape, expected.find? d.1 = some shape ∧ shape.count = d.2.count
  undeclared : ∀ k shape, expected.find? k = some shape → k ∉ results.map (·.1) → shape.count = 0

/-- Whether what was put together is what a hook has left for the declared results, bit for bit. -/
structure Delivers (y : Yield) (results : List (y.Name × Shape)) (expected : Table y.Name Shape)
    (values got : y.Values) : Prop extends Agree y results expected where
  data : ∀ d ∈ results, ∃ x z, y.find? values d.1 = some x ∧ x.length = d.2.count ∧
    y.find? got d.1 = some z ∧ z.data = x.data
  /-- Nothing is returned but what was expected, with the expected role and shape. -/
  outline : ∀ k,
    (y.find? got k).map (·.outline) = (expected.find? k).map fun shape => (y.role, shape)

end Yield

namespace Assembly

section Results

variable {m : Metadata} {kind : Kind} {y : Yield} {values : y.Values} {size : Nat}

theorem flatMap_pieces : (m.outcomes y values).flatMap (Outcome.pieces size) =
    (y.declared m.variableList m.blockList).flatMap fun d =>
      ((y.find? values d.1).map fun x => x.pieces (y.tag d.1) size).getD [] := by
  rw [Yield.outcomes_eq, List.flatMap_map]
  congr 1
  ext1 d
  unfold Outcome.pieces
  cases y.find? values d.1 <;> rfl

theorem target_of_mem_pieces {d : y.Name × Shape} {c : Chunk}
    (hc : c ∈ ((y.find? values d.1).map fun x => x.pieces (y.tag d.1) size).getD []) :
    y.target c = some d.1 := by
  cases hx : y.find? values d.1 with
  | none => simp [hx] at hc
  | some x =>
      rw [hx, Option.map_some, Option.getD_some, Variable.pieces, List.mem_map] at hc
      obtain ⟨i, -, rfl⟩ := hc
      exact Yield.target_piece d.1 x size i

theorem chunksOf_pieces (hm : m.Valid kind) (k : y.Name) :
    Slot.chunksOf y.target k ((m.outcomes y values).flatMap (Outcome.pieces size)) =
      (((y.declared m.variableList m.blockList).find? fun d => d.1 = k).map fun d =>
        ((y.find? values d.1).map fun x => x.pieces (y.tag d.1) size).getD []).getD [] := by
  rw [flatMap_pieces]
  exact Slot.chunksOf_flatMap Prod.fst (fun d _ c hc => target_of_mem_pieces hc)
    (Yield.nodup_declared hm y) k

theorem chunksOf_pieces_of_undeclared (hm : m.Valid kind) {k : y.Name}
    (hk : k ∉ (y.declared m.variableList m.blockList).map (·.1)) :
    Slot.chunksOf y.target k ((m.outcomes y values).flatMap (Outcome.pieces size)) = [] := by
  have hnone : (y.declared m.variableList m.blockList).find? (fun d => d.1 = k) = none :=
    List.find?_eq_none.mpr fun d hd hdk => hk (of_decide_eq_true hdk ▸ List.mem_map_of_mem hd)
  rw [chunksOf_pieces hm, hnone]
  rfl

variable (hm : m.Valid kind) (hsize : 1 ≤ size)
  (hvalues : Outcome.AllThere (m.outcomes y values)) (infos : List VariableInfo)
  (blocks : List BlockInfo)

include hm hvalues in
theorem exists_pieces (size : Nat) {d : y.Name × Shape}
    (hd : d ∈ y.declared m.variableList m.blockList) :
    ∃ x, y.find? values d.1 = some x ∧ x.length = d.2.count ∧
      Slot.chunksOf y.target d.1 ((m.outcomes y values).flatMap (Outcome.pieces size)) =
        x.pieces (y.tag d.1) size := by
  rw [Yield.outcomes_eq] at hvalues
  obtain ⟨x, hx, hlength⟩ := hvalues _ (List.mem_map_of_mem hd)
  refine ⟨x, hx, hlength, ?_⟩
  rw [chunksOf_pieces hm, Metadata.find?_key_eq (Yield.nodup_declared hm y) hd]
  simp [show y.find? values d.1 = some x from hx]

include hm hsize hvalues

/-- A client takes all pieces of all results exactly if its declarations agree with those of the
server on the length of every result. -/
theorem assemble_pieces_isOk_iff :
    (∃ got, assemble infos blocks y ((m.outcomes y values).flatMap (Outcome.pieces size)) =
        .ok got) ↔
      y.Agree (y.declared m.variableList m.blockList) (y.expected infos blocks) := by
  rw [(assemble_expected infos blocks y _).1]
  constructor
  · rintro ⟨hbelong, hcomplete⟩
    have hlength {k : y.Name} {shape : Shape}
        (hk : (y.expected infos blocks).find? k = some shape) :=
      (complete_iff.mp (hcomplete k shape hk)).2
    refine ⟨fun d hd => ?_, fun k shape hk hnone => ?_⟩
    -- Every result has a piece, so the client has to expect it.
    · obtain ⟨x, hx, hcount, hchunks⟩ := exists_pieces hm hvalues size hd
      obtain ⟨c, hc⟩ : ∃ c, c ∈ x.pieces (y.tag d.1) size :=
        ⟨_, List.mem_map_of_mem (List.mem_range.mpr (Nat.le_max_left 1 _))⟩
      obtain ⟨hmem, htarget⟩ := List.mem_filter.mp (hchunks ▸ hc)
      obtain ⟨k, shape, hk, hshape⟩ := hbelong c hmem
      obtain rfl : k = d.1 := Option.some.inj (hk.symm.trans (of_decide_eq_true htarget))
      refine ⟨shape, hshape, ?_⟩
      rw [← hlength hshape, hchunks, payload_pieces hsize, ← hcount]
      rfl
    -- Of anything else nothing arrives, and this is all there is.
    · rw [← hlength hk, chunksOf_pieces_of_undeclared hm hnone]
      rfl
  · rintro ⟨hdeclared, hundeclared⟩
    refine ⟨fun c hc => ?_, fun k shape hk => ?_⟩
    · rw [flatMap_pieces, List.mem_flatMap] at hc
      obtain ⟨d, hd, hc⟩ := hc
      obtain ⟨shape, hshape, -⟩ := hdeclared d hd
      exact ⟨d.1, shape, target_of_mem_pieces hc, hshape⟩
    · by_cases hmem : k ∈ (y.declared m.variableList m.blockList).map (·.1)
      · obtain ⟨d, hd, rfl⟩ := List.mem_map.mp hmem
        obtain ⟨x, -, hcount, hchunks⟩ := exists_pieces hm hvalues size hd
        obtain ⟨shape', hshape', hsame⟩ := hdeclared d hd
        obtain rfl := Option.some.inj (hk.symm.trans hshape')
        rw [hchunks, hsame, ← hcount]
        exact complete_pieces hsize
      · rw [chunksOf_pieces_of_undeclared hm hmem]
        exact .inl ⟨hundeclared k shape hk hmem, nofun⟩

/-- What a client makes of all pieces is what the hook has left. -/
theorem delivers_of_pieces {got : y.Values}
    (hgot : assemble infos blocks y ((m.outcomes y values).flatMap (Outcome.pieces size)) =
      .ok got) :
    y.Delivers (y.declared m.variableList m.blockList) (y.expected infos blocks) values got := by
  have hagree := (assemble_pieces_isOk_iff hm hsize hvalues infos blocks).mp ⟨got, hgot⟩
  have hfind := (assemble_expected infos blocks y _).2 got hgot
  refine ⟨hagree, fun d hd => ?_, fun k => ?_⟩
  · obtain ⟨x, hx, hcount, hchunks⟩ := exists_pieces hm hvalues size hd
    obtain ⟨shape, hshape, -⟩ := hagree.declared d hd
    have hd' := hfind d.1
    rw [hshape, hchunks, payload_pieces hsize, Option.map_some, Option.map_eq_some_iff] at hd'
    obtain ⟨z, hz, hdata⟩ := hd'
    exact ⟨x, z, hx, hcount, hz, congrArg Prod.snd hdata⟩
  · have hk := congrArg (Option.map Prod.fst) (hfind k)
    rw [Option.map_map, Option.map_map] at hk
    exact hk

end Results

def receive (y : Yield) (m : Message) (a : Assembly y) : Except Error (Assembly y) :=
  match m.expectChunk with
  | .error e => .error e
  | .ok c => accept c y a

end Assembly

/-! ### The same declarations on both sides -/

/-- What a client returns for some results: every declared one, with its declared role and shape and
with the values that the hook has left for it, and nothing else. -/
def Metadata.Returns (m : Metadata) : (y : Yield) → y.Values → y.Values → Prop
  | .vectors role => fun (values got : Variables) => ∀ name, got.find? name =
      (m.outputs.find? fun v => v.name = name).map fun v =>
        (Variable.zeros role v.shape).refill (values.find? name)
  | .blocks => fun (values got : Blocks) => ∀ key, got.find? key =
      (m.blockList.find? fun b => b.key = key).map fun b => b.zeros.refill (values.find? key)

section Same

variable {m : Metadata} {kind : Kind} {y : Yield} (hm : m.Valid kind)

include hm

theorem Yield.agree_self : y.Agree (y.declared m.variableList m.blockList)
    (y.expected m.variableList m.blockList) := by
  have hdistinct := nodup_declared hm y
  refine ⟨fun d hd => ⟨d.2, ?_, rfl⟩, fun k shape hk hnone => ?_⟩
  · rw [find?_expected hdistinct, Metadata.find?_key_eq hdistinct hd]
    rfl
  · rw [find?_expected hdistinct, Option.map_eq_some_iff] at hk
    obtain ⟨d, hd, -⟩ := hk
    have hkey : d.1 = k := by simpa using List.find?_some hd
    exact absurd (hkey ▸ List.mem_map_of_mem (List.mem_of_find?_eq_some hd)) hnone

theorem Yield.Delivers.find?_eq {values got : y.Values}
    (h : y.Delivers (y.declared m.variableList m.blockList)
      (y.expected m.variableList m.blockList) values got) (k : y.Name) :
    y.find? got k = ((y.declared m.variableList m.blockList).find? fun d => d.1 = k).map fun d =>
      (Variable.zeros y.role d.2).refill (y.find? values k) := by
  have hdistinct := nodup_declared hm y
  have houtline := h.outline k
  rw [find?_expected hdistinct] at houtline
  cases hd : (y.declared m.variableList m.blockList).find? (fun d => d.1 = k) with
  | none => simpa [hd] using houtline
  | some d =>
      obtain rfl : d.1 = k := by simpa using List.find?_some hd
      obtain ⟨x, z, hx, hcount, hz, hdata⟩ := h.data d (List.mem_of_find?_eq_some hd)
      have hlength : x.data.length = (Variable.zeros y.role d.2).data.length :=
        hcount.trans (Variable.zeros y.role d.2).length_eq.symm
      have hz' : z.outline = (y.role, d.2) := by simpa [hd, hz] using houtline
      rw [hz, hx, Option.map_some, Variable.refill_some hlength]
      exact congrArg some
        (Variable.ext_data (congrArg Prod.fst hz') (congrArg Prod.snd hz') hdata)

/-- A client that knows the declarations and gets all results returns them. -/
theorem Assembly.returns_of_pieces {size : Nat} (hsize : 1 ≤ size) (y : Yield) {values : y.Values}
    (hvalues : Outcome.AllThere (m.outcomes y values)) :
    ∃ a got, ((m.outcomes y values).flatMap (Outcome.pieces size)).foldlM
        (fun a c => accept c y a) (start m.variableList m.blockList y) = .ok a ∧
      finish y a = .ok got ∧ m.Returns y values got := by
  obtain ⟨got, hgot⟩ :=
    (assemble_pieces_isOk_iff hm hsize hvalues m.variableList m.blockList).mpr (Yield.agree_self hm)
  have hfind := (delivers_of_pieces hm hsize hvalues _ _ hgot).find?_eq hm
  obtain ⟨a, hfold, hfinish⟩ := exists_of_bind_eq_ok hgot
  refine ⟨a, got, hfold, hfinish, ?_⟩
  cases y with
  | vectors role =>
      intro name
      refine (hfind name).trans ?_
      rw [Yield.declared, List.find?_map, Option.map_map]
      rfl
  | blocks =>
      intro key
      refine (hfind key).trans ?_
      rw [Yield.declared, List.find?_map, Option.map_map]
      rfl

end Same

end RemoteDiscipline
