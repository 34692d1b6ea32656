import RemoteDiscipline.Table
/-!
What is found in a table that was made from a list of entries.

Of several entries with one key the last one stays. When the keys are distinct this is every entry,
so a table of declared things can be read off their declarations (`Table.find?_ofList`).
-/

namespace RemoteDiscipline

namespace Table

variable {κ α β : Type} [Key κ]

theorem find?_insert [DecidableEq κ] (t : Table κ α) (k k' : κ) (v : α) :
    (t.insert k v).find? k' = if k' = k then some v else t.find? k' := by
  by_cases h : k' = k
  · subst h
    rw [find?_insert_self, if_pos rfl]
  · rw [find?_insert_of_ne t h, if_neg h]

theorem insert_insert (t : Table κ α) (k : κ) (v w : α) : (t.insert k v).insert k w = t.insert k w := by
  classical
  apply ext_find
  intro k'
  rw [find?_insert, find?_insert, find?_insert]
  split <;> rfl

theorem insert_find? {t : Table κ α} {k : κ} {v : α} (h : t.find? k = some v) : t.insert k v = t := by
  classical
  apply ext_find
  intro k'
  rw [find?_insert]
  split
  · rename_i hk
    rw [hk, h]
  · rfl

/-- After a series of insertions the last one at a key counts. -/
theorem find?_foldl_insert [DecidableEq κ] (l : List (κ × α)) (t : Table κ α) (k : κ) :
    (l.foldl (fun t e => t.insert e.1 e.2) t).find? k =
      ((l.reverse.find? (fun e => e.1 = k)).map (·.2)).or (t.find? k) := by
  induction l generalizing t with
  | nil => simp
  | cons e l ih =>
      rw [List.foldl_cons, ih, find?_insert, List.reverse_cons, List.find?_append]
      cases hl : l.reverse.find? (fun e => decide (e.1 = k)) with
      | some e' => simp
      | none =>
          by_cases hk : k = e.1
          · simp [hk]
          · have hk' : ¬ e.1 = k := fun h => hk h.symm
            simp [hk, hk']

theorem find?_ofList [DecidableEq κ] {l : List (κ × α)} (h : (l.map (·.1)).Nodup) (k : κ) :
    (ofList l).find? k = (l.find? (fun e => e.1 = k)).map (·.2) := by
  rw [ofList, find?_foldl_insert, find?_empty, Option.or_none]
  congr 1
  induction l with
  | nil => rfl
  | cons e l ih =>
      rw [List.map_cons, List.nodup_cons] at h
      rw [List.reverse_cons, List.find?_append, ih h.2]
      by_cases hk : e.1 = k
      · have hnone : l.find? (fun e => decide (e.1 = k)) = none := by
          rw [List.find?_eq_none]
          intro e' he' hk'
          have hkey : e'.1 = e.1 := (of_decide_eq_true hk').trans hk.symm
          exact h.1 (hkey ▸ List.mem_map_of_mem (f := (·.1)) he')
        rw [hnone, List.find?_cons_of_pos (by simpa using hk)]
        simp [hk]
      · rw [List.find?_cons_of_neg (by simpa using hk)]
        simp [hk]

theorem find?_ofList_map [DecidableEq κ] {γ : Type} {l : List γ} {key : γ → κ}
    (h : (l.map key).Nodup) (f : γ → α) (k : κ) :
    (ofList (l.map fun c => (key c, f c))).find? k = (l.find? (fun c => key c = k)).map f := by
  rw [find?_ofList (by simpa [Function.comp_def] using h), List.find?_map, Option.map_map]
  rfl

theorem find?_map (f : α → β) (t : Table κ α) (k : κ) : (t.map f).find? k = (t.find? k).map f := by
  obtain ⟨entries, ordered⟩ := t
  simp only [map, find?]
  clear ordered
  induction entries with
  | nil => rfl
  | cons e l ih =>
      simp only [List.map_cons, lookup]
      split
      · exact ih
      · rfl

theorem map_ofList (f : α → β) (l : List (κ × α)) :
    (ofList l).map f = ofList (l.map fun e => (e.1, f e.2)) := by
  classical
  apply ext_find
  intro k
  simp only [find?_map, ofList, find?_foldl_insert, find?_empty, Option.or_none, Option.map_map,
    ← List.map_reverse, List.find?_map, Function.comp_def]

theorem lookup_eq_find? [DecidableEq κ] (k : κ) (l : List (κ × α)) :
    lookup k l = (l.find? (fun e => e.1 = k)).map (·.2) := by
  induction l with
  | nil => rfl
  | cons e l ih =>
      rw [lookup]
      split
      · rename_i h
        have hk : ¬ e.1 = k := by
          rintro rfl
          exact h.elim (Key.irrefl _) (Key.irrefl _)
        rw [ih, List.find?_cons_of_neg (by simpa using hk)]
      · rename_i h
        have hk : e.1 = k :=
          Key.connected (fun hlt => h (.inr hlt)) (fun hlt => h (.inl hlt))
        rw [List.find?_cons_of_pos (by simpa using hk)]
        rfl

theorem find?_of_mem {t : Table κ α} {e : κ × α} (h : e ∈ t.entries) : t.find? e.1 = some e.2 := by
  obtain ⟨entries, ordered⟩ := t
  rw [find?]
  dsimp only at h ⊢
  induction entries with
  | nil => cases h
  | cons e' l ih =>
      obtain ⟨hfirst, hrest⟩ := List.pairwise_cons.mp ordered
      rcases List.mem_cons.mp h with rfl | h
      · exact lookup_cons_self e l
      · rw [lookup, if_pos (.inr (hfirst e h))]
        exact ih hrest h

theorem nodup_keys (t : Table κ α) : (t.entries.map (·.1)).Nodup := by
  rw [List.Nodup, List.pairwise_map]
  refine t.ordered.imp ?_
  intro a b hlt heq
  rw [heq] at hlt
  exact Key.irrefl _ hlt

theorem ofList_entries (t : Table κ α) : ofList t.entries = t := by
  classical
  apply ext_find
  intro k
  rw [find?_ofList t.nodup_keys, find?, lookup_eq_find?]

end Table

end RemoteDiscipline
