/-!
Finite maps whose entries stand in the order of their keys.

A table is a list of entries with strictly increasing keys, so it lists its entries in one
possible way and two tables with the same look-ups are equal (`Table.ext_find`). Inserting at a key
that is present replaces the value there.
-/

namespace RemoteDiscipline

class Key (κ : Type) extends LT κ where
  decidableLT : DecidableLT κ
  irrefl (a : κ) : ¬ a < a
  trans {a b c : κ} : a < b → b < c → a < c
  connected {a b : κ} : ¬ a < b → ¬ b < a → a = b

instance Key.toDecidableLT {κ : Type} [Key κ] : DecidableLT κ := Key.decidableLT

/-- Names are ordered by code point, which is also the order of their UTF-8 bytes. -/
instance : Key String where
  decidableLT := inferInstance
  irrefl := String.lt_irrefl
  trans := String.lt_trans
  connected hab hba := String.le_antisymm (String.not_lt.mp hba) (String.not_lt.mp hab)

/-- A finite map from `κ` to `α`, listed in the order of its keys. -/
structure Table (κ α : Type) [Key κ] where
  entries : List (κ × α)
  ordered : entries.Pairwise (fun a b => a.1 < b.1)

namespace Table

variable {κ α β : Type} [Key κ]

def lookup (k : κ) : List (κ × α) → Option α
  | [] => none
  | e :: rest => if k < e.1 ∨ e.1 < k then lookup k rest else some e.2

/-- Puts an entry at its place, over an entry with the same key. -/
def place (k : κ) (v : α) : List (κ × α) → List (κ × α)
  | [] => [(k, v)]
  | e :: rest =>
    if k < e.1 then (k, v) :: e :: rest
    else if e.1 < k then e :: place k v rest
    else (k, v) :: rest

theorem mem_place {k : κ} {v : α} {e : κ × α} {l : List (κ × α)} (h : e ∈ place k v l) :
    e = (k, v) ∨ e ∈ l := by
  induction l with
  | nil => simpa [place] using h
  | cons hd tl ih =>
    rw [place] at h
    split at h
    · simpa using h
    · split at h
      · rcases List.mem_cons.mp h with h | h
        · simp [h]
        · rcases ih h with h | h <;> simp [h]
      · rcases List.mem_cons.mp h with h | h <;> simp [h]

theorem place_ordered (k : κ) (v : α) {l : List (κ × α)}
    (h : l.Pairwise (fun a b => a.1 < b.1)) :
    (place k v l).Pairwise (fun a b => a.1 < b.1) := by
  induction l with
  | nil => simp [place]
  | cons hd tl ih =>
    have ⟨hhd, htl⟩ := List.pairwise_cons.mp h
    rw [place]
    split
    · rename_i hk
      refine List.pairwise_cons.mpr ⟨fun e he => ?_, h⟩
      rcases List.mem_cons.mp he with rfl | he
      · exact hk
      · exact Key.trans hk (hhd e he)
    · rename_i hk
      split
      · rename_i hk'
        refine List.pairwise_cons.mpr ⟨fun e he => ?_, ih htl⟩
        rcases mem_place he with rfl | he
        · exact hk'
        · exact hhd e he
      · rename_i hk'
        refine List.pairwise_cons.mpr ⟨fun e he => ?_, htl⟩
        have : k = hd.1 := Key.connected hk hk'
        exact this ▸ hhd e he

def empty : Table κ α := ⟨[], .nil⟩

instance : EmptyCollection (Table κ α) := ⟨empty⟩

instance : Inhabited (Table κ α) := ⟨empty⟩

instance [DecidableEq κ] [DecidableEq α] : DecidableEq (Table κ α) := fun s t =>
  if h : s.entries = t.entries then
    .isTrue (by cases s; cases t; simpa using h)
  else .isFalse (fun e => h (e ▸ rfl))

def find? (t : Table κ α) (k : κ) : Option α := lookup k t.entries

def insert (t : Table κ α) (k : κ) (v : α) : Table κ α :=
  ⟨place k v t.entries, place_ordered k v t.ordered⟩

def erase (t : Table κ α) (k : κ) : Table κ α :=
  ⟨t.entries.filter (fun e => k < e.1 ∨ e.1 < k), t.ordered.sublist List.filter_sublist⟩

/-- The table of some entries, where a later entry replaces an earlier one with its key. -/
def ofList (l : List (κ × α)) : Table κ α := l.foldl (fun t e => t.insert e.1 e.2) ∅

def union (t s : Table κ α) : Table κ α := s.entries.foldl (fun t e => t.insert e.1 e.2) t

def isEmpty (t : Table κ α) : Bool := t.entries.isEmpty

def keys (t : Table κ α) : List κ := t.entries.map (·.1)

def map (f : α → β) (t : Table κ α) : Table κ β :=
  ⟨t.entries.map (fun e => (e.1, f e.2)), by
    rw [List.pairwise_map]
    exact t.ordered⟩

/-! ### Look-ups -/

@[simp] theorem find?_empty (k : κ) : (∅ : Table κ α).find? k = none := rfl

theorem lookup_place_self (k : κ) (v : α) (l : List (κ × α)) :
    lookup k (place k v l) = some v := by
  induction l with
  | nil => simp [place, lookup, Key.irrefl]
  | cons hd tl ih =>
    rw [place]
    split
    · simp [lookup, Key.irrefl]
    · split
      · rename_i h
        simp [lookup, h, ih]
      · simp [lookup, Key.irrefl]

theorem lookup_place_of_ne {k k' : κ} (h : k' ≠ k) (v : α) (l : List (κ × α)) :
    lookup k' (place k v l) = lookup k' l := by
  have hlt : k' < k ∨ k < k' := by
    rcases Classical.em (k' < k) with h₁ | h₁
    · exact .inl h₁
    · rcases Classical.em (k < k') with h₂ | h₂
      · exact .inr h₂
      · exact absurd (Key.connected h₁ h₂) h
  induction l with
  | nil => simp [place, lookup, hlt]
  | cons hd tl ih =>
    rw [place]
    split
    · simp [lookup, hlt]
    · split
      · simp [lookup, ih]
      · rename_i h₁ h₂
        have : k = hd.1 := Key.connected h₁ h₂
        simp [lookup, hlt, ← this]

@[simp] theorem find?_insert_self (t : Table κ α) (k : κ) (v : α) :
    (t.insert k v).find? k = some v :=
  lookup_place_self k v t.entries

theorem find?_insert_of_ne (t : Table κ α) {k k' : κ} (h : k' ≠ k) (v : α) :
    (t.insert k v).find? k' = t.find? k' :=
  lookup_place_of_ne h v t.entries

theorem lookup_eq_none_of_lt {k : κ} {l : List (κ × α)} (h : ∀ e ∈ l, k < e.1) :
    lookup k l = none := by
  induction l with
  | nil => rfl
  | cons hd tl ih =>
    have hhd := h hd (by simp)
    simp [lookup, hhd, ih (fun e he => h e (by simp [he]))]

theorem lookup_cons_self (e : κ × α) (l : List (κ × α)) : lookup e.1 (e :: l) = some e.2 := by
  simp [lookup, Key.irrefl]

theorem eq_of_lookup_eq {l₁ l₂ : List (κ × α)}
    (h₁ : l₁.Pairwise (fun a b => a.1 < b.1)) (h₂ : l₂.Pairwise (fun a b => a.1 < b.1))
    (h : ∀ k, lookup k l₁ = lookup k l₂) : l₁ = l₂ := by
  induction l₁ generalizing l₂ with
  | nil =>
    cases l₂ with
    | nil => rfl
    | cons e l₂ =>
      have := h e.1
      simp [lookup, Key.irrefl] at this
  | cons a l₁ ih =>
    cases l₂ with
    | nil =>
      have := h a.1
      simp [lookup, Key.irrefl] at this
    | cons b l₂ =>
      have ⟨ha, hl₁⟩ := List.pairwise_cons.mp h₁
      have ⟨hb, hl₂⟩ := List.pairwise_cons.mp h₂
      have hab : ¬ a.1 < b.1 := fun hlt => by
        have := h a.1
        rw [lookup_cons_self, lookup_eq_none_of_lt] at this
        · cases this
        · intro e he
          rcases List.mem_cons.mp he with rfl | he
          · exact hlt
          · exact Key.trans hlt (hb e he)
      have hba : ¬ b.1 < a.1 := fun hlt => by
        have := h b.1
        rw [lookup_cons_self, lookup_eq_none_of_lt] at this
        · cases this
        · intro e he
          rcases List.mem_cons.mp he with rfl | he
          · exact hlt
          · exact Key.trans hlt (ha e he)
      have hk : a.1 = b.1 := Key.connected hab hba
      have hv : a.2 = b.2 := by
        have := h a.1
        rw [lookup_cons_self, hk, lookup_cons_self] at this
        exact Option.some.inj this
      have htl : l₁ = l₂ := ih hl₁ hl₂ fun k => by
        have := h k
        simp only [lookup, hk] at this
        split at this
        · exact this
        · rename_i hne
          have hkb : k = b.1 :=
            Key.connected (fun hlt => hne (.inl hlt)) (fun hlt => hne (.inr hlt))
          rw [lookup_eq_none_of_lt (fun e he => hkb ▸ hk ▸ ha e he),
            lookup_eq_none_of_lt (fun e he => hkb ▸ hb e he)]
      rw [htl, Prod.ext hk hv]

theorem ext_find {s t : Table κ α} (h : ∀ k, s.find? k = t.find? k) : s = t := by
  have : s.entries = t.entries := eq_of_lookup_eq s.ordered t.ordered h
  cases s
  cases t
  simpa using this

end Table

end RemoteDiscipline
