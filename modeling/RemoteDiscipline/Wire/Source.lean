import RemoteDiscipline.Wire.Reading
/-!
Streams that hand out their bytes in pieces of any size.

A source is what it will hand out, delivery by delivery. Asking for some bytes gives at most one
delivery, and what was not asked for stays in front. A reader that needs more asks again, so where
the deliveries are cut makes no difference to the frames it gets.
-/

namespace RemoteDiscipline

/-- The deliveries of a stream, each of at least one byte, up to its end. -/
abbrev Source := List (List UInt8)

namespace Source

def size (s : Source) : Nat := s.flatten.length

/-- The source that hands out some bytes in deliveries of `step` bytes. When that is none, the source
is at its end before the first byte. -/
def ofBytes (step : Nat) (bytes : List UInt8) : Source :=
  if _h : bytes = [] ∨ step = 0 then []
  else bytes.take step :: ofBytes step (bytes.drop step)
termination_by bytes.length
decreasing_by
  have : 0 < bytes.length := List.length_pos_iff.mpr fun e => _h (.inl e)
  simp only [List.length_drop]
  omega

/-- The first bytes of a source, at most `want` and at most one delivery; none at its end. -/
def readSome (want : Nat) : Source → List UInt8 × Source
  | [] => ([], [])
  | d :: s => if want < d.length then (d.take want, d.drop want :: s) else (d, s)

/-- Exactly `want` bytes, from as many deliveries as it takes, or nothing when the source ends. -/
def readExact : Nat → Source → Option (List UInt8 × Source)
  | 0, s => some ([], s)
  | _ + 1, [] => none
  | want + 1, d :: s =>
    if want + 1 < d.length then some (d.take (want + 1), d.drop (want + 1) :: s)
    else
      match readExact (want + 1 - d.length) s with
      | some (bytes, s) => some (d ++ bytes, s)
      | none => none

inductive Next
  | frame (f : Frame) (rest : Source)
  | fault (fault : ReadFault) (rest : Source)
  | ended
  deriving Inhabited

/-- The next frame. The length is asked for first; only its first byte may be missing. -/
def next (limit : Nat) (s : Source) : Next :=
  match s.readSome 4 with
  | ([], _) => .ended
  | (first, s) =>
    match readExact (4 - first.length) s with
    | none => .fault .earlyEnd []
    | some (more, s) =>
      match first ++ more with
      | [a, b, c, d] =>
        let n := Wire.announcedLength a b c d
        if limit < n then .fault (.tooLarge n limit) s
        else
          match readExact n s with
          | none => .fault .earlyEnd []
          | some (payload, s) =>
            match Wire.frame.read payload with
            | some (f, _) => .frame f s
            | none => .fault .undecodable s
      | _ => .fault .earlyEnd []

theorem size_readExact {want : Nat} {s rest : Source} {bytes : List UInt8}
    (h : readExact want s = some (bytes, rest)) : want + size rest = size s := by
  fun_induction readExact want s generalizing bytes rest with
  | case1 s => cases h; simp
  | case2 => cases h
  | case3 want d s hlt =>
    cases h
    simp only [size, List.flatten_cons, List.length_append, List.length_drop]
    omega
  | case4 want d s hlt got s' hs ih =>
    cases h
    have := ih hs
    simp only [size, List.flatten_cons, List.length_append] at this ⊢
    omega
  | case5 => cases h

theorem size_readSome (want : Nat) (s : Source) :
    (s.readSome want).1.length + size (s.readSome want).2 = size s := by
  cases s with
  | nil => simp [readSome, size]
  | cons d s =>
    simp only [readSome]
    split
    · simp only [size, List.flatten_cons, List.length_append, List.length_take, List.length_drop]
      omega
    · simp [size]

theorem size_lt_of_next_frame {limit : Nat} {s rest : Source} {f : Frame}
    (h : s.next limit = .frame f rest) : size rest < size s := by
  have hs := size_readSome 4 s
  unfold next at h
  split at h
  · cases h
  · rename_i first s₁ hne heq
    rw [heq] at hs
    dsimp only at hs
    split at h
    · cases h
    · rename_i more s₂ hmore
      have := size_readExact hmore
      split at h
      · dsimp only at h
        split at h
        · cases h
        · split at h
          · cases h
          · rename_i payload s₃ hpayload
            have := size_readExact hpayload
            have : first ≠ [] := hne
            have : 0 < first.length := List.length_pos_iff.mpr this
            split at h
            · cases h
              omega
            · cases h
      · cases h

def readAll (limit : Nat) (s : Source) : List Frame × Option ReadFault :=
  match _h : s.next limit with
  | .frame f rest =>
    let (fs, e) := readAll limit rest
    (f :: fs, e)
  | .fault e _ => ([], some e)
  | .ended => ([], none)
termination_by size s
decreasing_by exact size_lt_of_next_frame _h

end Source

end RemoteDiscipline
