import RemoteDiscipline.Proofs.Sizes
import RemoteDiscipline.Wire.Source
/-!
Whole streams of frames.

A source gives the frames that its bytes hold, wherever its deliveries are cut
(`Source.readAll_eq`). When a stream of frames was written and only its first bytes arrive, the
frames that are there in full are read, in order, and the end is taken for a clean one exactly when
no frame was cut (`Source.reads_whole_frames`).
-/

namespace RemoteDiscipline

namespace Frame

variable {limit : Nat} {bytes : List UInt8} {fs : List Frame}

theorem readAll_written (hfs : ∀ f ∈ fs, f.Travels limit) (hbytes : bytes <+: encodeAll fs) :
    ∃ k ≤ fs.length, encodeAll (fs.take k) <+: bytes ∧
      (∀ j ≤ fs.length, encodeAll (fs.take j) <+: bytes → j ≤ k) ∧
      readAll limit bytes =
        (fs.take k, if bytes = encodeAll (fs.take k) then none else some .earlyEnd) := by
  induction fs generalizing bytes with
  | nil =>
      obtain rfl : bytes = [] := List.prefix_nil.mp hbytes
      exact ⟨0, Nat.le_refl _, List.nil_prefix, fun j hj _ => hj, readAll_of_ended rfl⟩
  | cons f fs ih =>
      obtain ⟨more, hmore⟩ := hbytes
      have hf : f.Travels limit := hfs f (by simp)
      obtain ⟨hwait, -⟩ | ⟨rest, hread, hrest⟩ := read_arriving hf hmore
      · -- The first frame is cut.
        refine ⟨0, Nat.zero_le _, List.nil_prefix, fun j _ hj => ?_, ?_⟩
        · cases j with
          | zero => exact Nat.le_refl _
          | succ j =>
              obtain ⟨tail, htail⟩ := hj
              rw [List.take_succ_cons, encodeAll_cons, List.append_assoc] at htail
              rw [← htail, read_encode hf] at hwait
              cases hwait
        · have htrue := read_of_waiting hwait
          rw [List.take_zero, encodeAll_nil]
          split at htrue
          · rename_i hnil
            rw [if_pos hnil, readAll_of_ended htrue]
          · rename_i hne
            rw [if_neg hne, readAll_of_fault htrue]
      · have hbytes : bytes = f.encode ++ rest := by
          have hrest : rest ++ more = encodeAll fs := hrest
          rw [encodeAll_cons, ← hrest, ← List.append_assoc] at hmore
          exact List.append_cancel_right hmore
        obtain ⟨k, hk, hwhole, hmost, hall⟩ :=
          ih (fun g hg => hfs g (by simp [hg])) ⟨more, hrest⟩
        refine ⟨k + 1, Nat.succ_le_succ hk, ?_, fun j hj hpre => ?_, ?_⟩
        · rw [hbytes, List.take_succ_cons, encodeAll_cons]
          exact List.prefix_append_right_inj _ |>.mpr hwhole
        · cases j with
          | zero => exact Nat.zero_le _
          | succ j =>
              rw [hbytes, List.take_succ_cons, encodeAll_cons] at hpre
              have := hmost j (Nat.le_of_succ_le_succ hj) ((List.prefix_append_right_inj _).mp hpre)
              omega
        · rw [readAll_of_read (read_ended hread true), hall]
          simp only [hbytes, List.take_succ_cons, encodeAll_cons, List.append_right_inj]

end Frame

namespace Source

variable {limit : Nat} {s : Source}

/-- Whether a source hands out something until it is at its end. -/
def Delivers (s : Source) : Prop := ∀ d ∈ s, d ≠ []

theorem Delivers.of_cons {d : List UInt8} (h : Delivers (d :: s)) : Delivers s :=
  fun d' hd => h d' (by simp [hd])

theorem delivers_cons {d : List UInt8} (hd : d ≠ []) (h : Delivers s) : Delivers (d :: s) := by
  rintro d' (_ | hd')
  · exact hd
  · exact h d' ‹_›

theorem delivers_ofBytes (step : Nat) (bytes : List UInt8) : Delivers (ofBytes step bytes) := by
  fun_induction ofBytes step bytes with
  | case1 => exact fun _ h => nomatch h
  | case2 bytes h ih =>
      refine delivers_cons (fun htake => h ?_) ih
      rw [List.take_eq_nil_iff] at htake
      exact htake.symm

theorem flatten_ofBytes {step : Nat} (hstep : step ≠ 0) (bytes : List UInt8) :
    (ofBytes step bytes).flatten = bytes := by
  fun_induction ofBytes step bytes with
  | case1 bytes h => exact (h.resolve_right hstep).symm
  | case2 bytes h ih => rw [List.flatten_cons, ih, List.take_append_drop]

theorem eq_of_readExact {want : Nat} {s rest : Source} {bytes : List UInt8} (hs : s.Delivers)
    (h : s.readExact want = some (bytes, rest)) :
    s.flatten = bytes ++ rest.flatten ∧ bytes.length = want ∧ rest.Delivers := by
  fun_induction readExact want s generalizing bytes rest with
  | case1 s =>
      cases h
      exact ⟨rfl, rfl, hs⟩
  | case2 => cases h
  | case3 want d s hlt =>
      cases h
      refine ⟨?_, by simp; omega, delivers_cons (fun hnil => ?_) hs.of_cons⟩
      · rw [List.flatten_cons, List.flatten_cons, ← List.append_assoc, List.take_append_drop]
      · exact Nat.not_le.mpr hlt (List.drop_eq_nil_iff.mp hnil)
  | case4 want d s hlt got s' hs' ih =>
      cases h
      obtain ⟨hflatten, hlength, hrest⟩ := ih hs.of_cons hs'
      refine ⟨?_, by rw [List.length_append]; omega, hrest⟩
      rw [List.flatten_cons, hflatten, List.append_assoc]
  | case5 => cases h

/-- There are too few bytes when the wanted ones cannot be had. -/
theorem lt_of_readExact_eq_none {want : Nat} {s : Source} (h : s.readExact want = none) :
    s.flatten.length < want := by
  fun_induction readExact want s with
  | case1 => cases h
  | case2 => exact Nat.succ_pos _
  | case3 => cases h
  | case4 => cases h
  | case5 want d s hlt hnone ih =>
      have := ih hnone
      rw [List.flatten_cons, List.length_append]
      omega

theorem eq_of_readSome {want : Nat} (hwant : 0 < want) {s : Source} (hs : s.Delivers) :
    s.flatten = (s.readSome want).1 ++ (s.readSome want).2.flatten ∧
      (s.readSome want).1.length ≤ want ∧ (s.readSome want).2.Delivers ∧
      ((s.readSome want).1 = [] → s = []) := by
  cases s with
  | nil => exact ⟨rfl, Nat.zero_le _, hs, fun _ => rfl⟩
  | cons d s =>
      have hd : d ≠ [] := hs d (by simp)
      simp only [readSome]
      split
      · rename_i hlt
        refine ⟨?_, List.length_take_le _ _, delivers_cons (fun hnil => ?_) hs.of_cons, fun hnil => ?_⟩
        · simp [← List.append_assoc]
        · exact Nat.not_le.mpr hlt (List.drop_eq_nil_iff.mp hnil)
        · exact absurd ((List.take_eq_nil_iff.mp hnil).resolve_left (Nat.ne_of_gt hwant)) hd
      · rename_i hle
        exact ⟨rfl, Nat.not_lt.mp hle, hs.of_cons, fun hnil => absurd hnil hd⟩

/-- What a source gives, as a reader sees it that has all its bytes. -/
def Next.reading : Next → Reading
  | .frame f rest => .frame f rest.flatten
  | .fault e rest => .fault e rest.flatten
  | .ended => .ended

theorem reading_next (limit : Nat) (hs : s.Delivers) :
    (s.next limit).reading = Frame.read limit true s.flatten := by
  obtain ⟨hfirst, hfour, hs₁, hnil⟩ := eq_of_readSome (show 0 < 4 by decide) hs
  unfold next
  split
  · rename_i heq
    rw [heq] at hnil
    rw [hnil rfl]
    rfl
  · rename_i first s₁ hne heq
    rw [heq] at hfirst hfour hs₁
    dsimp only at hfirst hfour hs₁
    have hpos : first ≠ [] := hne
    split
    · rename_i hmore
      have hlt := lt_of_readExact_eq_none hmore
      rw [hfirst, Frame.read_of_length_lt (List.append_ne_nil_of_left_ne_nil hpos _)
        (by rw [List.length_append]; omega)]
      rfl
    · rename_i more s₂ hmore
      obtain ⟨hflatten, hlength, hs₂⟩ := eq_of_readExact hs₁ hmore
      rw [hfirst, hflatten, ← List.append_assoc]
      split
      · rename_i a b c d habcd
        rw [habcd]
        show _ = Frame.read limit true (a :: b :: c :: d :: s₂.flatten)
        dsimp only
        split
        · rename_i hlarge
          rw [Frame.read_refused hlarge]
          rfl
        · rename_i hallowed
          have hlimit := Nat.not_lt.mp hallowed
          split
          · rename_i hpayload
            rw [Frame.read_incomplete hlimit (lt_of_readExact_eq_none hpayload)]
            rfl
          · rename_i payload s₃ hpayload
            obtain ⟨hbody, hannounced, -⟩ := eq_of_readExact hs₂ hpayload
            rw [hbody, Frame.read_announced hannounced (by omega)]
            cases Wire.frame.read payload <;> rfl
      · -- The four bytes of the length are there.
        rename_i hother
        have hall : (first ++ more).length = 4 := by
          rw [List.length_append]
          omega
        match first ++ more, hall, hother with
        | [a, b, c, d], _, hother => exact absurd rfl (hother a b c d)

theorem delivers_of_next (hs : s.Delivers) {f : Frame} {rest : Source}
    (h : s.next limit = .frame f rest) : rest.Delivers := by
  have hs₁ := (eq_of_readSome (show 0 < 4 by decide) hs).2.2.1
  unfold next at h
  split at h
  · cases h
  · rename_i first s₁ hne heq
    rw [heq] at hs₁
    split at h
    · cases h
    · rename_i more s₂ hmore
      have hs₂ := (eq_of_readExact hs₁ hmore).2.2
      split at h
      · dsimp only at h
        split at h
        · cases h
        · split at h
          · cases h
          · rename_i hpayload
            have hs₃ := (eq_of_readExact hs₂ hpayload).2.2
            split at h
            · cases h
              exact hs₃
            · cases h
      · cases h

theorem readAll_eq (hs : s.Delivers) : s.readAll limit = Frame.readAll limit s.flatten := by
  fun_induction readAll limit s with
  | case1 s f rest hnext fs e hrest ih =>
      have hread := reading_next limit hs
      rw [hnext] at hread
      rw [Frame.readAll_of_read hread.symm, ← ih (delivers_of_next hs hnext), hrest]
  | case2 s e rest hnext =>
      have hread := reading_next limit hs
      rw [hnext] at hread
      exact (Frame.readAll_of_fault hread.symm).symm
  | case3 s hnext =>
      have hread := reading_next limit hs
      rw [hnext] at hread
      exact (Frame.readAll_of_ended hread.symm).symm

/-- Frames that were written are read as they were written, and then the end of the stream. When the
stream stops before that, wherever it is cut, the frames that are there in full are read, and the end
is an error unless it is the end of a frame. -/
theorem reads_whole_frames {fs : List Frame} (hfs : ∀ f ∈ fs, f.InRange ∧ f.IsAllowed limit)
    (hs : s.Delivers) :
    (s.flatten = Frame.encodeAll fs → s.readAll limit = (fs, none)) ∧
      (s.flatten <+: Frame.encodeAll fs → ∃ k ≤ fs.length,
        Frame.encodeAll (fs.take k) <+: s.flatten ∧
        (∀ j ≤ fs.length, Frame.encodeAll (fs.take j) <+: s.flatten → j ≤ k) ∧
        s.readAll limit = (fs.take k,
          if s.flatten = Frame.encodeAll (fs.take k) then none else some .earlyEnd)) := by
  have htravels : ∀ f ∈ fs, f.Travels limit := fun f hf => (hfs f hf).1.travels (hfs f hf).2
  rw [readAll_eq hs]
  refine ⟨fun hall => ?_, Frame.readAll_written htravels⟩
  obtain ⟨k, hk, -, hmost, hread⟩ := Frame.readAll_written htravels List.prefix_rfl
  have hlast : fs.length = k :=
    Nat.le_antisymm (hmost _ (Nat.le_refl _) (by simp)) hk
  rw [hall, hread, ← hlast, List.take_length, if_pos rfl]

/-- A call that is opened and then cut inside the number of its first message. -/
theorem reads_whole_frames_of_cut_number :
    readAll 16 [[0, 0], [0, 4, 0, 1, 1, 250, 0], [0, 0, 5, 1, 2, 251]] =
      ([.opening 1 (.negotiate .setStreamOptions) 250], some .earlyEnd) := by
  have hsize {n : Nat} (hn : n < 0x1_0000_0000_0000_0000) : Wire.FitsSize n := hn
  have hfs : ∀ f ∈ [Frame.opening 1 (.negotiate .setStreamOptions) 250,
      .message (.streamOptions 300)], f.InRange ∧ f.IsAllowed 16 := by
    simp only [List.forall_mem_cons, List.not_mem_nil, false_implies, implies_true, and_true]
    exact ⟨⟨⟨by decide, hsize (by decide)⟩, by decide, by decide⟩, hsize (by decide),
      by decide, by decide⟩
  have hs : Delivers [[0, 0], [0, 4, 0, 1, 1, 250, 0], [0, 0, 5, 1, 2, 251]] := by
    unfold Delivers
    decide
  obtain ⟨k, hk, hwhole, hmost, hread⟩ := (reads_whole_frames hfs hs).2 ⟨[44, 1], by decide⟩
  have hone : 1 ≤ k := hmost 1 (by decide) (by decide)
  have hcut : k ≠ 2 := by
    rintro rfl
    exact absurd hwhole (by decide)
  obtain rfl : k = 1 := by
    simp only [List.length_cons, List.length_nil] at hk
    omega
  exact hread

end Source

end RemoteDiscipline
