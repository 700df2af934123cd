import TieredCache.Text.Hidden

/-!
# Quoted text

Messages show text between double quotes. The quote and the backslash are escaped, the null
character, tab, line feed and carriage return have short escapes, and every other character without
a shape of its own is written by its number.
-/

namespace TieredCache.Text

/-- A character by its number: `\\u`, and the hexadecimal number in braces. -/
def numbered (c : Char) : List Char :=
  '\\' :: 'u' :: '\x7b' :: Nat.toDigits 16 c.toNat ++ ['\x7d']

def quotedChar (c : Char) : List Char :=
  if c = '"' then ['\\', '"']
  else if c = '\\' then ['\\', '\\']
  else if c = '\x00' then ['\\', '0']
  else if c = '\t' then ['\\', 't']
  else if c = '\n' then ['\\', 'n']
  else if c = '\r' then ['\\', 'r']
  else if c.toNat < 0x20 ∨ c.toNat = 0x7f ∨ isHidden c then numbered c
  else [c]

/-- Text between double quotes. -/
def quoted (s : String) : String :=
  String.ofList ('"' :: s.toList.flatMap quotedChar ++ ['"'])

end TieredCache.Text
