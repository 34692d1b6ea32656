import RemoteDiscipline.Text.Unshown
/-!
Text between quotation marks.

A quotation mark and a backslash are escaped by a backslash, a few controls have letters of their
own, and any other character that cannot be shown is given by its number in hexadecimal.
-/

namespace RemoteDiscipline.Text

def quoteChar (c : Char) : List Char :=
  match c with
  | '\x00' => ['\\', '0']
  | '\t' => ['\\', 't']
  | '\r' => ['\\', 'r']
  | '\n' => ['\\', 'n']
  | '\\' => ['\\', '\\']
  | '"' => ['\\', '"']
  | c => if isUnshown c then ['\\', 'u', '\x7b'] ++ Nat.toDigits 16 c.toNat ++ ['\x7d'] else [c]

def quote (s : String) : String := String.ofList ('"' :: s.toList.flatMap quoteChar ++ ['"'])

end RemoteDiscipline.Text
