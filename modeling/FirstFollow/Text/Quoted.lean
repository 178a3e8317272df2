import FirstFollow.Text.Printable

/-!
# Quoted text

A text is written between two quote marks. The mark is the apostrophe, unless the text holds
apostrophes and no double quote. Inside, the mark and the backslash follow a backslash; tab,
line feed and carriage return have letters of their own; any other character that is not
printable is written as hexadecimal digits, of a width that its introducing letter tells.
-/

namespace FirstFollow

/-- The mark that a text is written between. -/
def quoteMark (text : List Char) : Char :=
  if '\x27' ∈ text ∧ '\x22' ∉ text then '\x22' else '\x27'

/-- The last `width` hexadecimal digits of `n`, most significant first, in lower case. -/
def hexDigits : Nat → Nat → List Char
  | 0, _ => []
  | width + 1, n => hexDigits width (n / 16) ++ [Nat.digitChar (n % 16)]

/-- How one character is written between two `mark`s. -/
def escape (mark c : Char) : List Char :=
  if c = mark ∨ c = '\\' then ['\\', c]
  else if c = '\t' then ['\\', 't']
  else if c = '\n' then ['\\', 'n']
  else if c = '\r' then ['\\', 'r']
  else if isPrintable c then [c]
  else if c.toNat < 0x100 then '\\' :: 'x' :: hexDigits 2 c.toNat
  else if c.toNat < 0x10000 then '\\' :: 'u' :: hexDigits 4 c.toNat
  else '\\' :: 'U' :: hexDigits 8 c.toNat

/-- The written form of a text, mark to mark. -/
def encode (text : List Char) : List Char :=
  quoteMark text :: text.flatMap (escape (quoteMark text)) ++ [quoteMark text]

/-- The written form of a string. -/
def quote (text : String) : String :=
  String.ofList (encode text.toList)

theorem length_hexDigits (width n : Nat) : (hexDigits width n).length = width := by
  induction width generalizing n with
  | zero => rfl
  | succ width ih => simp [hexDigits, ih]

@[simp] theorem toList_quote (text : String) : (quote text).toList = encode text.toList := by
  simp [quote]

end FirstFollow
