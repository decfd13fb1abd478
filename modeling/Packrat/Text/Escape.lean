import Packrat.Text.Utf16

/-!
# Escaping characters

Printable characters up to Latin Extended-B stand for themselves, common control characters have
short escapes, other characters below U+0100 are written `\xHH`, and all others are written as one
`\uHHHH` for each UTF-16 code unit.  Hexadecimal digits are uppercase.  Quoted strings and bracket
expressions escape a few more characters that have a meaning there.
-/

namespace Packrat

namespace Text

/-- The uppercase hexadecimal digit of a number below sixteen. -/
def hexDigit (n : Nat) : Char :=
  if n < 10 then Char.ofNat (0x30 + n) else Char.ofNat (0x37 + n)

/-- The last digits of a number in base sixteen, as many as asked for. -/
def hexDigits : Nat → Nat → Text
  | 0, _ => []
  | count + 1, n => hexDigits count (n / 16) ++ [hexDigit (n % 16)]

/-- Characters that stand for themselves: the printable ones up to U+024F, without the backslash. -/
def isPlain (c : Char) : Bool :=
  let n := c.toNat
  n != 0x5C && ((0x20 ≤ n && n ≤ 0x7E) || (0xA1 ≤ n && n ≤ 0xAC) || (0xAE ≤ n && n ≤ 0x24F))

/-- The letter after the backslash in a character's short escape. -/
def shortEscape? (c : Char) : Option Char :=
  match c.toNat with
  | 0x5C => some '\\'
  | 0x00 => some '0'
  | 0x08 => some 'b'
  | 0x09 => some 't'
  | 0x0A => some 'n'
  | 0x0C => some 'f'
  | 0x0D => some 'r'
  | _ => none

/-- A character as it is written in any context. -/
def escape (c : Char) : Text :=
  match shortEscape? c with
  | some letter => ['\\', letter]
  | none =>
    if isPlain c then [c]
    else if c.toNat < 0x100 then '\\' :: 'x' :: hexDigits 2 c.toNat
    else (codeUnits c).flatMap fun unit => '\\' :: 'u' :: hexDigits 4 unit

/-- A character as it is written in a quoted string: both quotes take a backslash. -/
def escapeQuoted (c : Char) : Text :=
  if c = '\'' ∨ c = '"' then ['\\', c] else escape c

/-- A character as it is written in a bracket expression: a slash, a closing bracket, a caret and a
dash take a backslash. -/
def escapeBracketed (c : Char) : Text :=
  if c = '/' ∨ c = ']' ∨ c = '^' ∨ c = '-' then ['\\', c] else escape c

/-- The body of a quoted string that denotes a text. -/
def quotedBody (cs : Text) : Text :=
  cs.flatMap escapeQuoted

@[simp] theorem quotedBody_cons (c : Char) (cs : Text) :
    quotedBody (c :: cs) = escapeQuoted c ++ quotedBody cs := rfl

/-- A text as a double-quoted string. -/
def quoted (cs : Text) : Text :=
  '"' :: quotedBody cs ++ ['"']

end Text

/-- The body of a quoted string that denotes a string. -/
def quoteBody (s : String) : String :=
  .ofList (Text.quotedBody s.toList)

/-- A string as a double-quoted literal. -/
def quote (s : String) : String :=
  .ofList (Text.quoted s.toList)

end Packrat
