import RemoteDiscipline.Binary64
import RemoteDiscipline.Table
/-!
Compact binary formats.

A format writes a value as bytes and reads one off the front of some bytes. It is faithful on the
values that fit it when reading what was written gives back the value and leaves the rest alone.
Numbers take one byte when they are small and otherwise a marker and two, four or eight bytes, the
lowest first; lists and texts start with their length, and the cases of a type are numbered.
-/

namespace RemoteDiscipline.Wire

/-- A way to write values of one type, and to read them back. -/
structure Format (α : Type) where
  write : α → List UInt8
  /-- The first value in some bytes and the bytes behind it, or nothing when there is none. -/
  read : List UInt8 → Option (α × List UInt8)

namespace Format

variable {α β : Type}

/-- Reading gives back what was written, for the values that fit. -/
def Faithful (f : Format α) (fits : α → Prop) : Prop :=
  ∀ a rest, fits a → f.read (f.write a ++ rest) = some (a, rest)

/-! ### Numbers -/

def littleEndian : Nat → Nat → List UInt8
  | 0, _ => []
  | k + 1, n => n.toUInt8 :: littleEndian k (n / 256)

def readLittleEndian : Nat → List UInt8 → Option (Nat × List UInt8)
  | 0, bs => some (0, bs)
  | _ + 1, [] => none
  | k + 1, b :: bs =>
    match readLittleEndian k bs with
    | some (n, rest) => some (b.toNat + 256 * n, rest)
    | none => none

def writeNatural (n : Nat) : List UInt8 :=
  if n ≤ 250 then [n.toUInt8]
  else if n < 0x1_0000 then 251 :: littleEndian 2 n
  else if n < 0x1_0000_0000 then 252 :: littleEndian 4 n
  else 253 :: littleEndian 8 n

/-- Reads a number that takes `width` bytes at most. A longer form than needed is accepted. -/
def readNatural (width : Nat) : List UInt8 → Option (Nat × List UInt8)
  | [] => none
  | b :: bs =>
    if b.toNat ≤ 250 then some (b.toNat, bs)
    else if b = 251 ∧ 2 ≤ width then readLittleEndian 2 bs
    else if b = 252 ∧ 4 ≤ width then readLittleEndian 4 bs
    else if b = 253 ∧ 8 ≤ width then readLittleEndian 8 bs
    else none

/-- Natural numbers below `256 ^ width`, where `width` is two, four or eight. -/
def natural (width : Nat) : Format Nat := ⟨writeNatural, readNatural width⟩

def size : Format Nat := natural 8

def caseNumber : Format Nat := natural 4

/-- Signed numbers of 64 bits, by their distance from zero and the sign in the lowest bit. -/
def integer : Format Int where
  write i := size.write (if 0 ≤ i then (2 * i).toNat else (-2 * i - 1).toNat)
  read bs :=
    match size.read bs with
    | some (n, rest) => some (if n % 2 = 0 then (n / 2 : Nat) else -((n / 2 : Nat) : Int) - 1, rest)
    | none => none

def binary64 : Format Binary64 where
  write x := littleEndian 8 x.bits.toNat
  read bs :=
    match readLittleEndian 8 bs with
    | some (n, rest) => some (⟨n.toUInt64⟩, rest)
    | none => none

def bool : Format Bool where
  write b := [if b then 1 else 0]
  read
    | 0 :: bs => some (false, bs)
    | 1 :: bs => some (true, bs)
    | _ => none

/-! ### Texts -/

def string : Format String where
  write s := size.write s.toUTF8.size ++ s.toUTF8.data.toList
  read bs :=
    match size.read bs with
    | some (n, rest) =>
      if rest.length < n then none
      else
        match String.fromUTF8? ⟨(rest.take n).toArray⟩ with
        | some s => some (s, rest.drop n)
        | none => none
    | none => none

/-! ### Combinations -/

def pair (f : Format α) (g : Format β) : Format (α × β) where
  write p := f.write p.1 ++ g.write p.2
  read bs :=
    match f.read bs with
    | some (a, bs) =>
      match g.read bs with
      | some (b, bs) => some ((a, b), bs)
      | none => none
    | none => none

/-- The same bytes for values of another type. -/
def convert (f : Format α) (build : α → β) (parts : β → α) : Format β where
  write b := f.write (parts b)
  read bs :=
    match f.read bs with
    | some (a, bs) => some (build a, bs)
    | none => none

/-- Reads `n` values, which come after those in `done` (the latest first). -/
def readMany (f : Format α) : Nat → List α → List UInt8 → Option (List α × List UInt8)
  | 0, done, bs => some (done.reverse, bs)
  | n + 1, done, bs =>
    match f.read bs with
    | some (a, bs) => readMany f n (a :: done) bs
    | none => none

def list (f : Format α) : Format (List α) where
  write l := size.write l.length ++ l.flatMap f.write
  read bs :=
    match size.read bs with
    | some (n, bs) => readMany f n [] bs
    | none => none

/-- A value that may be missing: a byte that says so, then the value. -/
def option (f : Format α) : Format (Option α) where
  write
    | none => [0]
    | some a => 1 :: f.write a
  read
    | 0 :: bs => some (none, bs)
    | 1 :: bs =>
      match f.read bs with
      | some (a, bs) => some (some a, bs)
      | none => none
    | _ => none

/-- Tables, as the list of their entries. When a key comes twice the later entry counts. -/
def table {κ : Type} [Key κ] (f : Format κ) (g : Format α) : Format (Table κ α) :=
  (list (pair f g)).convert Table.ofList Table.entries

def cases [DecidableEq α] (all : List α) : Format α where
  write a := caseNumber.write (all.idxOf a)
  read bs :=
    match caseNumber.read bs with
    | some (i, bs) =>
      match all[i]? with
      | some a => some (a, bs)
      | none => none
    | none => none

end Format

end RemoteDiscipline.Wire
