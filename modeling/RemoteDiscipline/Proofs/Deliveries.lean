import RemoteDiscipline.Proofs.Streams
/-!
Streams that arrive in different deliveries.

A reader of frames does not see where the deliveries of a stream are cut. Two sources with the same
bytes give the same frame or the same fault and have the same bytes left behind it
(`Source.next_alike`), so they stay in step as long as frames are read (`Source.Reads.alike`) and
come to the same end. What is taken from a source for one frame depends on the four bytes of its
length alone (`Source.Measured`).
-/

namespace RemoteDiscipline

namespace Source

variable {limit : Nat} {s s' r r' : Source} {f : Frame} {fs : List Frame}

/-! ### One frame -/

theorem Next.eq_frame_of_reading {n : Next} {rest : List UInt8} (h : n.reading = .frame f rest) :
    ∃ r, n = .frame f r ∧ r.flatten = rest := by
  cases n <;> cases h
  exact ⟨_, rfl, rfl⟩

theorem Next.eq_fault_of_reading {n : Next} {e : ReadFault} {rest : List UInt8}
    (h : n.reading = .fault e rest) : ∃ r, n = .fault e r ∧ r.flatten = rest := by
  cases n <;> cases h
  exact ⟨_, rfl, rfl⟩

theorem next_alike (hs : s.Delivers) (hs' : s'.Delivers) (h : s.flatten = s'.flatten)
    (hnext : s.next limit = .frame f r) :
    ∃ r', s'.next limit = .frame f r' ∧ r'.flatten = r.flatten := by
  have hread := reading_next limit hs
  rw [hnext, h, ← reading_next limit hs'] at hread
  exact Next.eq_frame_of_reading hread.symm

/-- What reading one frame takes from a source. -/
structure Measured (limit : Nat) (s : Source) : Prop where
  /-- A frame is four bytes and as many more as these announce. -/
  frame : ∀ f rest, s.next limit = .frame f rest → ∃ a b c d payload,
    s.flatten = a :: b :: c :: d :: (payload ++ rest.flatten) ∧
      payload.length = Wire.announcedLength a b c d
  /-- They are taken whatever the payload says. -/
  payload : ∀ a b c d payload more, s.flatten = a :: b :: c :: d :: (payload ++ more) →
    payload.length = Wire.announcedLength a b c d → payload.length ≤ limit →
    ∃ rest, rest.flatten = more ∧ s.next limit =
      match Wire.frame.read payload with
      | some (f, _) => .frame f rest
      | none => .fault .undecodable rest
  /-- Nothing of the payload is taken when more is announced than is allowed. -/
  refused : ∀ a b c d more, s.flatten = a :: b :: c :: d :: more →
    limit < Wire.announcedLength a b c d →
    ∃ rest, rest.flatten = more ∧
      s.next limit = .fault (.tooLarge (Wire.announcedLength a b c d) limit) rest

theorem measured (limit : Nat) (hs : s.Delivers) : s.Measured limit where
  frame := by
    intro f rest hnext
    have hread := reading_next limit hs
    rw [hnext] at hread
    obtain ⟨a, b, c, d, payload, -, hbytes, hlength, -⟩ := Frame.exists_of_read_frame hread.symm
    exact ⟨a, b, c, d, payload, hbytes, hlength⟩
  payload := by
    intro a b c d payload more hbytes hlength hlimit
    have hread := reading_next limit hs
    rw [hbytes, Frame.read_announced hlength hlimit] at hread
    cases hpayload : Wire.frame.read payload with
    | some p =>
        rw [hpayload] at hread
        obtain ⟨rest, hnext, hrest⟩ := Next.eq_frame_of_reading hread
        exact ⟨rest, hrest, hnext⟩
    | none =>
        rw [hpayload] at hread
        obtain ⟨rest, hnext, hrest⟩ := Next.eq_fault_of_reading hread
        exact ⟨rest, hrest, hnext⟩
  refused := by
    intro a b c d more hbytes hlarge
    have hread := reading_next limit hs
    rw [hbytes, Frame.read_refused hlarge] at hread
    obtain ⟨rest, hnext, hrest⟩ := Next.eq_fault_of_reading hread
    exact ⟨rest, hrest, hnext⟩

/-! ### One frame after the other -/

/-- Frames that are read from `s`, and what is left behind the last of them. -/
inductive Reads (limit : Nat) (s : Source) : List Frame → Source → Prop
  | nil : Reads limit s [] s
  | snoc {fs : List Frame} {f : Frame} {r r' : Source} : Reads limit s fs r →
      r.next limit = .frame f r' → Reads limit s (fs ++ [f]) r'

theorem Reads.delivers (hs : s.Delivers) (h : Reads limit s fs r) : r.Delivers := by
  induction h with
  | nil => exact hs
  | snoc _ hnext ih => exact delivers_of_next ih hnext

theorem Reads.alike (hs : s.Delivers) (hs' : s'.Delivers) (hbytes : s.flatten = s'.flatten)
    (h : Reads limit s fs r) : ∃ r', Reads limit s' fs r' ∧ r'.flatten = r.flatten := by
  induction h with
  | nil => exact ⟨s', .nil, hbytes.symm⟩
  | snoc hreads hnext ih =>
      obtain ⟨r', hreads', hleft⟩ := ih
      obtain ⟨t, hnext', ht⟩ :=
        next_alike (hreads.delivers hs) (hreads'.delivers hs') hleft.symm hnext
      exact ⟨t, hreads'.snoc hnext', ht⟩

/-- However a stream of bytes is delivered, the same frames are read from it and the end is the
same. At every moment the same bytes have been taken: four for each frame and as many as these
announce, and only four of a frame that is announced too large. -/
theorem reads_alike (limit : Nat) (hs : s.Delivers) (hs' : s'.Delivers)
    (h : s.flatten = s'.flatten) :
    s.readAll limit = s'.readAll limit ∧
      ∀ fs r, Reads limit s fs r →
        r.Measured limit ∧ ∃ r', Reads limit s' fs r' ∧ r'.flatten = r.flatten := by
  refine ⟨by rw [readAll_eq hs, readAll_eq hs', h], fun fs r hreads => ⟨?_, hreads.alike hs hs' h⟩⟩
  exact measured limit (hreads.delivers hs)

/-- A half-close, and a frame that is announced too large; its two bytes of payload are left. -/
theorem reads_alike_until_refusal :
    let s : Source := [[0, 0], [0, 1, 2], [0, 0, 1, 0, 9], [9]]
    let s' : Source := [[0], [0, 0, 1, 2, 0, 0, 1], [0, 9, 9]]
    s.Delivers ∧ s'.Delivers ∧ s.flatten = s'.flatten ∧
      s.readAll 16 = ([.halfClose], some (.tooLarge 256 16)) ∧ s.readAll 16 = s'.readAll 16 ∧
      ∃ rest, rest.flatten = [9, 9] ∧
        next 16 [[0, 0, 1, 0, 9], [9]] = .fault (.tooLarge 256 16) rest := by
  intro s s'
  have hs : s.Delivers := by
    unfold Delivers
    decide
  have hs' : s'.Delivers := by
    unfold Delivers
    decide
  have hbytes : s.flatten = s'.flatten := by decide
  obtain ⟨hall, hmoments⟩ := reads_alike 16 hs hs' hbytes
  have hnext : s.next 16 = .frame .halfClose [[0, 0, 1, 0, 9], [9]] := by cbv
  obtain ⟨hmeasured, -⟩ := hmoments _ _ (Reads.nil.snoc hnext)
  have hvalue : s.readAll 16 = ([.halfClose], some (.tooLarge 256 16)) := by
    have hframe : Frame.read 16 true s.flatten = .frame .halfClose [0, 0, 1, 0, 9, 9] := by decide
    have hfault : Frame.read 16 true [0, 0, 1, 0, 9, 9] = .fault (.tooLarge 256 16) [9, 9] := by
      decide
    rw [readAll_eq hs, Frame.readAll_of_read hframe, Frame.readAll_of_fault hfault]
  exact ⟨hs, hs', hbytes, hvalue, hall, hmeasured.refused 0 0 1 0 [9, 9] rfl (by decide)⟩

end Source

end RemoteDiscipline
