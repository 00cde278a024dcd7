import ExprLang.Text.Blank

/-!
# Quoted text

`quoted s` writes a string as a literal of the language. It stands in single quotes,
unless it holds a single quote and no double quote. The quote, the backslash and the
control characters are escaped, every other character stands for itself.
-/

namespace ExprLang

/-- The digit of value `n` below 16, in small letters. -/
def hexDigit (n : Nat) : Char :=
  Nat.digitChar n

/-- The quote a text is put in: the double one if the text holds only single ones. -/
def quoteFor (cs : List Char) : Char :=
  if cs.contains '\'' && !cs.contains '"' then '"' else '\''

/-- One character inside the quotes `quote`. -/
def escaped (quote c : Char) : List Char :=
  if c = '\\' then ['\\', '\\']
  else if c = '\n' then ['\\', 'n']
  else if c = '\t' then ['\\', 't']
  else if c = '\r' then ['\\', 'r']
  else if c = quote then ['\\', c]
  else if isControl c then ['\\', 'x', hexDigit (c.toNat / 16), hexDigit (c.toNat % 16)]
  else [c]

/-- A text as a literal, character by character. -/
def quotedChars (cs : List Char) : List Char :=
  let quote := quoteFor cs
  quote :: cs.flatMap (escaped quote) ++ [quote]

/-- A string as a literal of the language. -/
def quoted (s : String) : String :=
  String.ofList (quotedChars s.toList)

end ExprLang
