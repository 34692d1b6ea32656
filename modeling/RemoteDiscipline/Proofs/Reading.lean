import RemoteDiscipline.Wire.Reading
/-!
Frames at the beginning of a stream.

A reader takes frames one by one while the stream is still growing, and what has been read stays read
when more bytes arrive. `Frame.Starts` says which frames stand in front of some bytes and what is left
behind them; these are the frames that the whole stream begins with (`Frame.Starts.readAll_eq`).
-/

namespace RemoteDiscipline

namespace Frame

variable {limit : Nat} {bytes rest : List UInt8} {fs : List Frame} {f : Frame}

theorem read_append {ended : Bool} (h : read limit ended bytes = .frame f rest) (ended' : Bool)
    (more : List UInt8) : read limit ended' (bytes ++ more) = .frame f (rest ++ more) := by
  obtain ⟨a, b, c, d, payload, behind, rfl, hlength, hlimit, hread⟩ := exists_of_read_frame h
  show read limit ended' (a :: b :: c :: d :: (payload ++ rest ++ more)) = _
  rw [List.append_assoc, read_announced hlength hlimit, hread]

theorem read_ended {ended : Bool} (h : read limit ended bytes = .frame f rest) (ended' : Bool) :
    read limit ended' bytes = .frame f rest := by
  have := read_append h ended' []
  rwa [List.append_nil, List.append_nil] at this

theorem read_append_fault {e : ReadFault} (h : read limit false bytes = .fault e rest) (ended : Bool)
    (more : List UInt8) : read limit ended (bytes ++ more) = .fault e (rest ++ more) := by
  cases front limit bytes with
  | nothing => cases h
  | cut bytes hne hshort =>
      rw [read_of_length_lt hne hshort] at h
      cases h
  | refused a b c d tail hlarge =>
      rw [read_refused hlarge] at h
      cases h
      exact read_refused hlarge _
  | incomplete a b c d tail hlimit hshort =>
      rw [read_incomplete hlimit hshort] at h
      cases h
  | announced a b c d payload tail hlength hlimit =>
      rw [read_announced hlength hlimit] at h
      cases hread : Wire.frame.read payload with
      | some p =>
          rw [hread] at h
          cases h
      | none =>
          rw [hread] at h
          cases h
          show read limit ended (a :: b :: c :: d :: (payload ++ rest ++ more)) = _
          rw [List.append_assoc, read_announced hlength hlimit, hread]

/-- A reader does not wait when the stream has ended, and a stream that goes on does not end. -/
theorem read_ne (ended : Bool) :
    read limit ended bytes ≠ if ended then .waiting else .ended := by
  cases front limit bytes with
  | nothing => cases ended <;> simp [read]
  | cut bytes hne hshort => cases ended <;> simp [read_of_length_lt hne hshort]
  | refused a b c d tail hlarge => cases ended <;> simp [read_refused hlarge]
  | incomplete a b c d tail hlimit hshort => cases ended <;> simp [read_incomplete hlimit hshort]
  | announced a b c d payload tail hlength hlimit =>
      rw [read_announced hlength hlimit]
      cases ended <;> split <;> simp

theorem read_ne_waiting : read limit true bytes ≠ .waiting := read_ne true

theorem read_ne_ended : read limit false bytes ≠ .ended := read_ne false

/-- Where a reader would wait, the end of the stream is either clean or too early. -/
theorem read_of_waiting (h : read limit false bytes = .waiting) :
    read limit true bytes = if bytes = [] then .ended else .fault .earlyEnd [] := by
  cases front limit bytes with
  | nothing => rfl
  | cut bytes hne hshort =>
      rw [if_neg hne, read_of_length_lt hne hshort]
      rfl
  | refused a b c d tail hlarge =>
      rw [read_refused hlarge] at h
      cases h
  | incomplete a b c d tail hlimit hshort =>
      rw [if_neg (List.cons_ne_nil _ _), read_incomplete hlimit hshort]
      rfl
  | announced a b c d payload tail hlength hlimit =>
      rw [read_announced hlength hlimit] at h
      split at h <;> cases h

/-- Some frames in front of `bytes`, and what follows them. -/
inductive Starts (limit : Nat) (bytes : List UInt8) : List Frame → List UInt8 → Prop
  | nil : Starts limit bytes [] bytes
  | snoc {fs : List Frame} {f : Frame} {rest rest' : List UInt8} :
      Starts limit bytes fs rest → read limit false rest = .frame f rest' →
      Starts limit bytes (fs ++ [f]) rest'

theorem Starts.append (h : Starts limit bytes fs rest) (more : List UInt8) :
    Starts limit (bytes ++ more) fs (rest ++ more) := by
  induction h with
  | nil => exact .nil
  | snoc _ hread ih => exact ih.snoc (read_append hread false more)

theorem readAll_of_read (h : read limit true bytes = .frame f rest) :
    readAll limit bytes = (f :: (readAll limit rest).1, (readAll limit rest).2) := by
  rw [readAll]
  split
  · rename_i h'
    rw [h] at h'
    cases h'
    rfl
  all_goals
    rename_i h'
    rw [h] at h'
    cases h'

theorem readAll_of_ended (h : read limit true bytes = .ended) : readAll limit bytes = ([], none) := by
  rw [readAll]
  split <;> simp_all

theorem readAll_of_fault {e : ReadFault} {rest : List UInt8}
    (h : read limit true bytes = .fault e rest) : readAll limit bytes = ([], some e) := by
  rw [readAll]
  split <;> simp_all

/-- The frames that were read one by one are those of the whole stream. -/
theorem Starts.readAll_eq (h : Starts limit bytes fs rest) :
    (readAll limit bytes).1 = fs ++ (readAll limit rest).1 := by
  induction h with
  | nil => rfl
  | snoc _ hread ih => rw [ih, readAll_of_read (read_ended hread true), List.append_assoc]; rfl

theorem Starts.cons (hread : read limit false bytes = .frame f rest) {rest' : List UInt8}
    (h : Starts limit rest fs rest') : Starts limit bytes (f :: fs) rest' := by
  induction h with
  | nil => exact Starts.nil.snoc hread
  | snoc _ hread' ih => exact ih.snoc hread'

theorem exists_starts {more : List Frame} (h : (readAll limit bytes).1 = fs ++ more) :
    ∃ rest, Starts limit bytes fs rest := by
  induction fs generalizing bytes with
  | nil => exact ⟨bytes, .nil⟩
  | cons f fs ih =>
      rw [readAll] at h
      split at h
      · rename_i hread
        obtain ⟨rfl, htail⟩ := List.cons.inj h
        obtain ⟨rest, hrest⟩ := ih htail
        exact ⟨rest, hrest.cons (read_ended hread false)⟩
      all_goals cases h

end Frame

end RemoteDiscipline
