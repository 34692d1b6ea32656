import RemoteDiscipline.Chunk
import RemoteDiscipline.Hook
/-!
Putting results together from the chunks in which they arrive.

A server sends the chunks of a result in order of their positions, so it is enough to count how many
values of each result have arrived: every chunk has to start where the last one ended, and in the
end every count has to be the length that was declared.
-/

namespace RemoteDiscipline

/-- A result on its way, and how many of its values have arrived. -/
structure Slot where
  value : Variable
  arrived : Nat

namespace Slot

def empty (v : Variable) : Slot := ⟨v, 0⟩

/-- Takes a chunk, which has to start where the last one ended. -/
def accept (label : String) (c : Chunk) (s : Slot) : Except Error Slot :=
  if s.value.isEmpty && c.isFraming then .ok s
  else if c.start ≠ s.arrived then
    .error (.protocol
      s!"chunk for '{label}' starts at {c.start} but {s.arrived} values have arrived")
  else (s.value.assign c).map fun v => ⟨v, s.arrived + c.data.length⟩

def checkComplete (label : String) (s : Slot) : Except Error Unit :=
  if s.arrived = s.value.length then .ok ()
  else .error (.protocol
    (s!"incomplete result for '{label}': received {s.arrived} of " ++ s!"{s.value.length} values"))

def acceptAt {κ : Type} [Key κ] (key : κ) (label : String) (unknown : Error) (c : Chunk)
    (slots : Table κ Slot) : Except Error (Table κ Slot) :=
  match slots.find? key with
  | none => .error unknown
  | some s => (s.accept label c).map fun s => slots.insert key s

def checkAll {κ : Type} (label : κ → String) : List (κ × Slot) → Except Error Unit
  | [] => .ok ()
  | e :: rest =>
    match e.2.checkComplete (label e.1) with
    | .error e => .error e
    | .ok () => checkAll label rest

def values {κ : Type} [Key κ] (label : κ → String) (slots : Table κ Slot) :
    Except Error (Table κ Variable) :=
  (checkAll label slots.entries).map fun _ => slots.map (·.value)

end Slot

def Assembly : Yield → Type
  | .vectors _ => Table String Slot
  | .blocks => Table BlockKey Slot

namespace Assembly

/-- Nothing has arrived. The results are sized by what was declared. -/
def start (infos : List VariableInfo) (blocks : List BlockInfo) : (y : Yield) → Assembly y
  | .vectors role =>
    Table.ofList (((infos.filter fun v => v.role = .output)).map fun v =>
      (v.name, Slot.empty (.zeros role v.shape)))
  | .blocks => Table.ofList (blocks.map fun b => (b.key, Slot.empty b.zeros))

def wrongRole (wanted : Role) (c : Chunk) : Error :=
  .protocol s!"expected {wanted.text} chunk for '{c.name}', got {c.role.text}"

def accept (c : Chunk) : (y : Yield) → Assembly y → Except Error (Assembly y)
  | .vectors role, slots =>
    if c.role ≠ role then .error (wrongRole role c)
    else Slot.acceptAt (κ := String) c.name c.name
      (.protocol s!"Variable not found: {c.name}") c slots
  | .blocks, slots =>
    if c.role ≠ .jacobian then .error (wrongRole .jacobian c)
    else
      match c.inputName with
      | none => .error (.protocol s!"partial chunk for '{c.name}' has no input name")
      | some input =>
        let key : BlockKey := ⟨c.name, input⟩
        Slot.acceptAt key key.text (.protocol s!"Partial not found: {key.text}") c slots

def finish : (y : Yield) → Assembly y → Except Error y.Values
  | .vectors _, slots => Slot.values (κ := String) id slots
  | .blocks, slots => Slot.values BlockKey.text slots

end Assembly

end RemoteDiscipline
