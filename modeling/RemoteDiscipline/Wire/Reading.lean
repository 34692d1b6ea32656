import RemoteDiscipline.Wire.Frame
/-!
Taking frames off a stream of bytes.

A stream may end between two frames; an end inside a frame is a fault. A frame that is announced
larger than the limit is refused before any of its payload is taken. Whatever the payload says,
reading a frame takes four bytes and as many as they announce, so the next frame starts in the
right place even behind one that makes no sense.
-/

namespace RemoteDiscipline

inductive ReadFault
  /-- The stream ended inside a frame. -/
  | earlyEnd
  | tooLarge (length limit : Nat)
  /-- The payload is no frame. -/
  | undecodable
  deriving DecidableEq, Inhabited

namespace ReadFault

def text : ReadFault → String
  | .earlyEnd => "early eof"
  | .tooLarge length limit => s!"frame too large: {length} bytes (max {limit})"
  | .undecodable => "<decode error>"

def isInvalidData : ReadFault → Bool
  | .earlyEnd => false
  | .tooLarge _ _ | .undecodable => true

end ReadFault

/-- What some bytes hold first. -/
inductive Reading
  | frame (f : Frame) (rest : List UInt8)
  | fault (fault : ReadFault) (rest : List UInt8)
  /-- The stream ends here, between two frames. -/
  | ended
  /-- More bytes are needed to tell. -/
  | waiting
  deriving DecidableEq, Inhabited

namespace Frame

/-- The frame in front of `bytes`. When the stream has `ended`, nothing comes after them. -/
def read (limit : Nat) (ended : Bool) (bytes : List UInt8) : Reading :=
  match bytes with
  | [] => if ended then .ended else .waiting
  | a :: b :: c :: d :: rest =>
    let n := Wire.announcedLength a b c d
    if limit < n then .fault (.tooLarge n limit) rest
    else if (rest.take n).length < n then
      if ended then .fault .earlyEnd [] else .waiting
    else
      match Wire.frame.read (rest.take n) with
      | some (f, _) => .frame f (rest.drop n)
      | none => .fault .undecodable (rest.drop n)
  | _ => if ended then .fault .earlyEnd [] else .waiting

/-! ### What stands in front -/

section

variable {limit : Nat} {ended : Bool} {bytes payload rest tail : List UInt8} {f : Frame}
  {a b c d : UInt8}

theorem read_of_length_lt (hne : bytes ≠ []) (h : bytes.length < 4) :
    read limit ended bytes = if ended then .fault .earlyEnd [] else .waiting := by
  match bytes, hne, h with
  | [_], _, _ => rfl
  | [_, _], _, _ => rfl
  | [_, _, _], _, _ => rfl
  | _ :: _ :: _ :: _ :: tail, _, h =>
      simp only [List.length_cons] at h
      omega

theorem read_refused (h : limit < Wire.announcedLength a b c d) (rest : List UInt8) :
    read limit ended (a :: b :: c :: d :: rest) =
      .fault (.tooLarge (Wire.announcedLength a b c d) limit) rest := by
  simp only [read, h, if_true]

theorem read_incomplete (hlimit : Wire.announcedLength a b c d ≤ limit)
    (h : tail.length < Wire.announcedLength a b c d) :
    read limit ended (a :: b :: c :: d :: tail) =
      if ended then .fault .earlyEnd [] else .waiting := by
  have hshort : (tail.take (Wire.announcedLength a b c d)).length <
      Wire.announcedLength a b c d := by
    rw [List.length_take]
    omega
  simp only [read, Nat.not_lt.mpr hlimit, hshort, if_true, if_false]

/-- Only the payload that is announced decides what comes of it. -/
theorem read_announced (hlength : payload.length = Wire.announcedLength a b c d)
    (hlimit : payload.length ≤ limit) (rest : List UInt8) :
    read limit ended (a :: b :: c :: d :: (payload ++ rest)) =
      match Wire.frame.read payload with
      | some (f, _) => .frame f rest
      | none => .fault .undecodable rest := by
  simp only [read, ← hlength, List.take_left, List.drop_left, Nat.lt_irrefl, Nat.not_lt.mpr hlimit,
    if_false]

/-- What a reader can have in front of it. -/
inductive Front (limit : Nat) : List UInt8 → Prop
  | nothing : Front limit []
  /-- A beginning of the length. -/
  | cut (bytes : List UInt8) : bytes ≠ [] → bytes.length < 4 → Front limit bytes
  | refused (a b c d : UInt8) (rest : List UInt8) :
      limit < Wire.announcedLength a b c d → Front limit (a :: b :: c :: d :: rest)
  /-- The length and a beginning of the payload. -/
  | incomplete (a b c d : UInt8) (tail : List UInt8) : Wire.announcedLength a b c d ≤ limit →
      tail.length < Wire.announcedLength a b c d → Front limit (a :: b :: c :: d :: tail)
  | announced (a b c d : UInt8) (payload rest : List UInt8) :
      payload.length = Wire.announcedLength a b c d → payload.length ≤ limit →
      Front limit (a :: b :: c :: d :: (payload ++ rest))

theorem front (limit : Nat) (bytes : List UInt8) : Front limit bytes := by
  match bytes with
  | [] => exact .nothing
  | [_] => exact .cut _ (by simp) (by simp)
  | [_, _] => exact .cut _ (by simp) (by simp)
  | [_, _, _] => exact .cut _ (by simp) (by simp)
  | a :: b :: c :: d :: tail =>
      by_cases hlarge : limit < Wire.announcedLength a b c d
      · exact .refused a b c d tail hlarge
      · have hlimit := Nat.not_lt.mp hlarge
        by_cases hshort : tail.length < Wire.announcedLength a b c d
        · exact .incomplete a b c d tail hlimit hshort
        · have hlength : (tail.take (Wire.announcedLength a b c d)).length =
              Wire.announcedLength a b c d := by
            rw [List.length_take]
            omega
          rw [← List.take_append_drop (Wire.announcedLength a b c d) tail]
          exact .announced a b c d _ _ hlength (by omega)

theorem exists_of_read_frame (h : read limit ended bytes = .frame f rest) :
    ∃ a b c d payload behind, bytes = a :: b :: c :: d :: (payload ++ rest) ∧
      payload.length = Wire.announcedLength a b c d ∧ payload.length ≤ limit ∧
      Wire.frame.read payload = some (f, behind) := by
  cases front limit bytes with
  | nothing => cases ended <;> cases h
  | cut bytes hne hshort =>
      rw [read_of_length_lt hne hshort] at h
      cases ended <;> cases h
  | refused a b c d tail hlarge =>
      rw [read_refused hlarge] at h
      cases h
  | incomplete a b c d tail hlimit hshort =>
      rw [read_incomplete hlimit hshort] at h
      cases ended <;> cases h
  | announced a b c d payload tail hlength hlimit =>
      rw [read_announced hlength hlimit] at h
      cases hread : Wire.frame.read payload with
      | none =>
          rw [hread] at h
          cases h
      | some p =>
          rw [hread] at h
          cases h
          exact ⟨a, b, c, d, payload, p.2, rfl, hlength, hlimit, hread⟩

theorem length_lt_of_read_frame (h : read limit ended bytes = .frame f rest) :
    rest.length < bytes.length := by
  obtain ⟨a, b, c, d, payload, -, rfl, -⟩ := exists_of_read_frame h
  simp only [List.length_cons, List.length_append]
  omega

theorem length_le_of_read_fault {e : ReadFault} (h : read limit ended bytes = .fault e rest) :
    rest.length ≤ bytes.length := by
  cases front limit bytes with
  | nothing => cases ended <;> cases h
  | cut bytes hne hshort =>
      rw [read_of_length_lt hne hshort] at h
      cases ended <;> cases h
      exact Nat.zero_le _
  | refused a b c d tail hlarge =>
      rw [read_refused hlarge] at h
      cases h
      simp only [List.length_cons]
      omega
  | incomplete a b c d tail hlimit hshort =>
      rw [read_incomplete hlimit hshort] at h
      cases ended <;> cases h
      exact Nat.zero_le _
  | announced a b c d payload tail hlength hlimit =>
      rw [read_announced hlength hlimit] at h
      split at h <;> cases h
      simp only [List.length_cons, List.length_append]
      omega

end

def readAll (limit : Nat) (bytes : List UInt8) : List Frame × Option ReadFault :=
  match _h : read limit true bytes with
  | .frame f rest =>
    let (fs, e) := readAll limit rest
    (f :: fs, e)
  | .fault e _ => ([], some e)
  | .ended | .waiting => ([], none)
termination_by bytes.length
decreasing_by exact length_lt_of_read_frame _h

end Frame

end RemoteDiscipline
