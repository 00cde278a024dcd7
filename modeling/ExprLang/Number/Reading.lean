import ExprLang.Decimal.Reading
import ExprLang.Number.Floating
import ExprLang.Number.Integer
import ExprLang.Text.Blank
import ExprLang.Text.Search

/-!
# Numbers from texts

How a text becomes a number when a program asks for it, which is more lenient than a literal:
blanks around it do not count, digits may be grouped by single underscores (`ungrouped?`), and
signs are part of it. Integers take a base from 2 to 36, or 0 for the base that their mark
says (`readIntText`).
-/

namespace ExprLang

/-- A text without the underscores that group its characters. They stand alone and between
characters. -/
def ungrouped? (cs : List Char) : Option (List Char) :=
  if cs.isEmpty || cs.head? == some '_' || cs.getLast? == some '_' || occursIn ['_', '_'] cs then
    none
  else some (cs.filter (· != '_'))

/-! ## Floats and complex numbers -/

/-- The float that a text writes. -/
def readFloatText? (cs : List Char) : Option Double :=
  (ungrouped? (trim cs)).bind readFloat?

/-- The text without a bracket around it. -/
def unbracketed (cs : List Char) : List Char :=
  match cs with
  | '(' :: rest => if rest.getLast? = some ')' then rest.dropLast else cs
  | cs => cs

/-- Whether a character marks an exponent. -/
def isExponentMark (c : Char) : Bool :=
  c == 'e' || c == 'E'

/-- The two parts of a text cut before the last sign in it, not counting signs at its start and
those of exponents. -/
def cutAtSign? (before : List Char) : List Char → Option (List Char × List Char)
  | [] => none
  | c :: cs =>
    match cutAtSign? (c :: before) cs with
    | some cut => some cut
    | none =>
      if (c == '+' || c == '-') && !before.isEmpty && !before.head?.any isExponentMark then
        some (before.reverse, c :: cs)
      else none

/-- The imaginary part that a text before the unit writes. The unit alone counts once. -/
def readImaginary? (cs : List Char) : Option Double :=
  match cs with
  | [] | ['+'] => some 1
  | ['-'] => some (-1)
  | cs => readFloatText? cs

/-- The complex number that a text writes: a real part, an imaginary part before `j`, or both,
with or without a bracket around. -/
def readComplexText? (cs : List Char) : Option Complex :=
  let body := unbracketed (trim cs)
  if body.getLast?.any fun c => c == 'j' || c == 'J' then
    let (re, im) := (cutAtSign? [] body.dropLast).getD ([], body.dropLast)
    match if re.isEmpty then some 0 else readFloatText? re, readImaginary? im with
    | some re, some im => some ⟨re, im⟩
    | _, _ => none
  else (readFloatText? body).map fun x => ⟨x, 0⟩

/-! ## Integers -/

/-- The base that a mark after a zero stands for. -/
def markedBase? : Char → Option Nat
  | 'x' => some 16
  | 'o' => some 8
  | 'b' => some 2
  | _ => none

/-- The base and the digits of a numeral with a mark, in small letters. A mark counts if the base
is that of the mark or left open. -/
def markedNumeral? (base : Nat) : List Char → Option (Nat × List Char)
  | '0' :: mark :: digits =>
    (markedBase? mark).bind fun marked =>
      if base = 0 ∨ base = marked then some (marked, digits) else none
  | _ => none

/-- Whether a decimal numeral has a zero in front that says nothing: zeros may stand only before
zeros. -/
def hasIdleZero (cs : List Char) : Bool :=
  cs.head? == some '0' && cs.any fun c => c != '0' && c != '_'

/-- The base and the digits of a numeral with or without a mark. Without one the base is ten if
it is left open. -/
def anyNumeral? (base : Nat) (cs : List Char) : Option (Nat × List Char) :=
  match markedNumeral? base cs with
  | some numeral => some numeral
  | none =>
    if base ≠ 0 then some (base, cs)
    else if hasIdleZero cs then none
    else some (10, cs)

/-- The base and the digits of a numeral without underscores. One may stand in front of the
digits. -/
def numeralDigits? (base : Nat) (cs : List Char) : Option (Nat × List Char) := do
  let (radix, digits) ← anyNumeral? base cs
  let digits ← ungrouped? (if digits.head? = some '_' then digits.tail else digits)
  return (radix, digits)

/-- The greatest magnitude that is looked at. -/
def maxMagnitude : Nat := Nat.pow 2 64 - 1

/-- The integer that a text writes in a base. -/
def readIntText (text : String) (base : Int) : Except RuntimeError Int64 :=
  let malformed := Except.error (.value (.malformedInt base text))
  if base ≠ 0 ∧ ¬(2 ≤ base ∧ base ≤ 36) then .error (.value .badBase)
  else
    let (negative, unsigned) := readSign (trim text.toList)
    match numeralDigits? base.toNat (unsigned.map Char.toLower) with
    | none => malformed
    | some (radix, digits) =>
      match readNat radix maxMagnitude digits with
      | .ok magnitude => checkedInt (if negative then -(magnitude : Int) else magnitude)
      | .error .tooLarge => .error (.overflow .integer)
      | .error _ => malformed

end ExprLang
