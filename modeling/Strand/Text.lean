import Strand.Text.Unprintable

/-! # Quoted text

    A text in double quotes. The quote and the backslash are escaped by a
    backslash, the common controls have a letter each, and every other
    character that cannot be printed is written by its code point. -/

namespace Strand.Text

/-- The escape that names a character by its code point. -/
def codePointEscape (c : Char) : List Char :=
  ['\\', 'u', '\x7b'] ++ Nat.toDigits 16 c.toNat ++ ['\x7d']

/-- How one character is written inside quotes. -/
def escape (c : Char) : List Char :=
  if c = '"' then ['\\', '"']
  else if c = '\\' then ['\\', '\\']
  else if c = '\n' then ['\\', 'n']
  else if c = '\r' then ['\\', 'r']
  else if c = '\t' then ['\\', 't']
  else if c.toNat = 0 then ['\\', '0']
  else if isUnprintable c then codePointEscape c
  else [c]

/-- A text in double quotes. -/
def quote (s : String) : String := String.ofList (('"' :: s.toList.flatMap escape) ++ ['"'])

end Strand.Text
