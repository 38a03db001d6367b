import ProseMap.Text.Extending
import ProseMap.Text.Ignorable
import ProseMap.Text.Unprintable

/-!
# Quoted text

A quoted text stands between double quotes and shows every character: quotes and
backslashes are escaped, and so is each character that could not be seen where it stands.
-/

namespace ProseMap.Text

/-- The digits of a number in base 16, in lower case. -/
def hexadecimal (n : Nat) : List Char :=
  Nat.toDigits 16 n

/-- Whether a character can be seen, by itself, where it stands. -/
def isVisible (c : Char) : Bool :=
  !unprintable.contains c && !ignorable.contains c && !extending.contains c

/-- One character inside a quoted text. -/
def quotedChar (c : Char) : List Char :=
  if c = '"' then ['\\', '"']
  else if c = '\\' then ['\\', '\\']
  else if c = '\x00' then ['\\', '0']
  else if c = '\t' then ['\\', 't']
  else if c = '\n' then ['\\', 'n']
  else if c = '\r' then ['\\', 'r']
  else if isVisible c then [c]
  else "\\u\x7b".toList ++ hexadecimal c.toNat ++ "\x7d".toList

/-- The text between double quotes, with all that is not plainly visible escaped. -/
def quoted (s : String) : String :=
  String.ofList ('"' :: s.toList.flatMap quotedChar ++ ['"'])

end ProseMap.Text
