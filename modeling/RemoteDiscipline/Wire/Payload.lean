import RemoteDiscipline.Message
import RemoteDiscipline.Wire.Format
/-!
The formats of the messages of a call and of all they carry.

The fields of a record follow one another without names or gaps, so their order is the format.
-/

namespace RemoteDiscipline.Wire

open Format

def role : Format Role := cases Role.all

def statusCode : Format StatusCode := cases StatusCode.all

def optionType : Format OptionType := cases OptionType.all

def method : Format Method := cases Method.all

def shape : Format Shape := list size

def status : Format Status :=
  (pair statusCode string).convert (fun p => ⟨p.1, p.2⟩) (fun s => (s.code, s.message))

def properties : Format Properties :=
  (pair string (pair string (pair bool (pair bool bool)))).convert
    (fun p => ⟨p.1, p.2.1, p.2.2.1, p.2.2.2.1, p.2.2.2.2⟩)
    (fun p => (p.name, p.version, p.continuous, p.differentiable, p.providesGradients))

def variableInfo : Format VariableInfo :=
  (pair string (pair role (pair shape string))).convert
    (fun p => ⟨p.1, p.2.1, p.2.2.1, p.2.2.2⟩)
    (fun v => (v.name, v.role, v.shape, v.units))

def blockInfo : Format BlockInfo :=
  (pair string (pair string shape)).convert
    (fun p => ⟨p.1, p.2.1, p.2.2⟩)
    (fun b => (b.name, b.inputName, b.shape))

def optionInfo : Format OptionInfo :=
  (pair string optionType).convert (fun p => ⟨p.1, p.2⟩) (fun o => (o.name, o.type))

def optionValue : Format OptionValue where
  write
    | .bool b => caseNumber.write 0 ++ bool.write b
    | .int i => caseNumber.write 1 ++ integer.write i
    | .double x => caseNumber.write 2 ++ binary64.write x
    | .string s => caseNumber.write 3 ++ string.write s
  read bs :=
    match caseNumber.read bs with
    | some (0, bs) => (bool.read bs).map fun r => (.bool r.1, r.2)
    | some (1, bs) => (integer.read bs).map fun r => (.int r.1, r.2)
    | some (2, bs) => (binary64.read bs).map fun r => (.double r.1, r.2)
    | some (3, bs) => (string.read bs).map fun r => (.string r.1, r.2)
    | _ => none

def options : Format Options := table string optionValue

def chunk : Format Chunk :=
  (pair string (pair (option string) (pair integer (pair integer
    (pair role (list binary64)))))).convert
    (fun p => ⟨p.1, p.2.1, p.2.2.1, p.2.2.2.1, p.2.2.2.2.1, p.2.2.2.2.2⟩)
    (fun c => (c.name, c.inputName, c.start, c.stop, c.role, c.data))

def message : Format Message where
  write
    | .empty => caseNumber.write 0
    | .properties p => caseNumber.write 1 ++ properties.write p
    | .streamOptions n => caseNumber.write 2 ++ size.write n
    | .options o => caseNumber.write 3 ++ options.write o
    | .variableInfo v => caseNumber.write 4 ++ variableInfo.write v
    | .blockInfo b => caseNumber.write 5 ++ blockInfo.write b
    | .optionList l => caseNumber.write 6 ++ (list optionInfo).write l
    | .chunk c => caseNumber.write 7 ++ chunk.write c
  read bs :=
    match caseNumber.read bs with
    | some (0, bs) => some (.empty, bs)
    | some (1, bs) => (properties.read bs).map fun r => (.properties r.1, r.2)
    | some (2, bs) => (size.read bs).map fun r => (.streamOptions r.1, r.2)
    | some (3, bs) => (options.read bs).map fun r => (.options r.1, r.2)
    | some (4, bs) => (variableInfo.read bs).map fun r => (.variableInfo r.1, r.2)
    | some (5, bs) => (blockInfo.read bs).map fun r => (.blockInfo r.1, r.2)
    | some (6, bs) => ((list optionInfo).read bs).map fun r => (.optionList r.1, r.2)
    | some (7, bs) => (chunk.read bs).map fun r => (.chunk r.1, r.2)
    | _ => none

end RemoteDiscipline.Wire
