import ExprLang.Builtin.Function
import ExprLang.Text.Casing
import ExprLang.Text.Search

/-!
# What methods do

`Method.run` is a method applied to the arguments of a call. Like functions, methods bind their
arguments to a signature first. Methods of strings work on characters: cases and blanks are those
of Unicode, and indices count code points.
-/

namespace ExprLang

/-! ## Signatures -/

/-- The parameters of a method of values of a type. -/
def Method.signature (m : Method) (receiver : TypeName) : Signature :=
  let (params, required) : List String × Nat :=
    match m with
    | .strip | .lstrip | .rstrip => (["chars"], 0)
    | .split => (["sep", "maxsplit"], 0)
    | .startswith | .endswith => (["prefix"], 1)
    | .replace => (["old", "new", "count"], 2)
    | .join => (["iterable"], 1)
    | .find => (["sub"], 1)
    | .count => (if receiver = .str then ["sub"] else ["value"], 1)
    | .index => (["value"], 1)
    | .get => (["key", "default"], 1)
    | _ => ([], 0)
  ⟨m.name, params, required⟩

/-! ## Methods of strings -/

/-- A string handed to a method. -/
def Method.asText (m : Method) (v : Value) : Except RuntimeError (List Char) :=
  match v with
  | .str s => .ok s.toList
  | v => .error (.type (.notString m.name v.typeName))

/-- Characters as a string. -/
def Value.ofChars (cs : List Char) : Value :=
  .str (String.ofList cs)

/-- The class of characters to strip: those handed over, or blanks. -/
def Method.strippedClass (m : Method) (chars : Value) : Except RuntimeError (Char → Bool) := do
  if chars.isNone then return isBlank
  let set ← m.asText chars
  return set.contains

/-- The limit that a count of cuts or replacements sets. A negative count sets none. -/
def limitOf (count : Option Value) : Except RuntimeError (Option Nat) :=
  match count with
  | none => .ok none
  | some v => v.asInteger.map fun n => if n < 0 then none else some n.toInt.toNat

/-- The parts of a string between separators, or its words. -/
def splitParts (m : Method) (cs : List Char) (sep : Value) (limit : Option Value) :
    Except RuntimeError (List (List Char)) := do
  if sep.isNone then
    match ← limitOf limit with
    | some limit => return wordsAtMost isBlank limit cs
    | none => return words isBlank cs
  else
    let sep ← m.asText sep
    let limit ← limitOf limit
    if sep.isEmpty then throw (.value .emptySeparator)
    match limit with
    | some limit => return splitAtMost sep limit cs
    | none => return splitOn sep cs

/-- Whether one of the candidates stands at an end of a text. The end is the start of the text
or, with both turned round, its end. -/
def anyAffix (m : Method) (turned : List Char → List Char) (cs : List Char) :
    List Value → Except RuntimeError Bool
  | [] => .ok false
  | .str affix :: candidates =>
    if (afterStart? (turned affix.toList) (turned cs)).isSome then .ok true
    else anyAffix m turned cs candidates
  | v :: _ => .error (.type (.notAffix m.name v.typeName))

/-- The candidates for an affix: the items of a tuple, or a single one. -/
def affixes : Value → List Value
  | .tuple _ items => items
  | v => [v]

/-- The items of a join as texts. -/
def joinParts (r : RealmId) (parts : List (List Char)) : List Value → Eval (List (List Char))
  | [] => return parts.reverse
  | item :: items => do
    Eval.poll r
    match item with
    | .str s => joinParts r (s.toList :: parts) items
    | v => throw (.type (.joinItem parts.length v.typeName))

/-- A method of a string. -/
def Method.applyText (r : RealmId) (m : Method) (s : String) (given : Bound) : Eval Value := do
  let cs := s.toList
  match m with
  | .upper => return .ofChars (upperCase cs)
  | .lower => return .ofChars (lowerCase cs)
  | .strip => return .ofChars (stripBoth (← m.strippedClass (given.value 0)) cs)
  | .lstrip => return .ofChars (stripStart (← m.strippedClass (given.value 0)) cs)
  | .rstrip => return .ofChars (stripEnd (← m.strippedClass (given.value 0)) cs)
  | .split =>
    let parts ← splitParts m cs (given.value 0) (given.value? 1)
    Eval.newList (parts.map Value.ofChars)
  | .startswith => return .bool (← anyAffix m id cs (affixes (given.value 0)))
  | .endswith => return .bool (← anyAffix m List.reverse cs (affixes (given.value 0)))
  | .replace =>
    let old ← m.asText (given.value 0)
    let new ← m.asText (given.value 1)
    match ← limitOf (given.value? 2) with
    | some limit => return .ofChars (replaceAtMost old new limit cs)
    | none => return .ofChars (replaceAll old new cs)
  | .join =>
    let parts ← joinParts r [] (← Eval.iterate (given.value 0))
    return .ofChars (cs.intercalate parts)
  | .find =>
    match indexOf? (← m.asText (given.value 0)) cs with
    | some i => return .int (Int64.ofNat i)
    | none => return .int (-1)
  | .count =>
    let part ← m.asText (given.value 0)
    return .int (Int64.ofNat (if part.isEmpty then cs.length + 1 else countOf part cs))
  | _ => throw (.noAttribute .str m.name)

/-! ## Methods of other values -/

/-- A method of a number. -/
def Method.applyNumber (m : Method) (n : Number) : Except RuntimeError Value :=
  match m, n with
  | .conjugate, .complex z => .ok (.complex ⟨z.re, -z.im⟩)
  | .conjugate, n => .ok (Value.ofNumber n)
  | .bitLength, .int i => .ok (.int (Int64.ofNat (ExprLang.bitLength i)))
  | .isInteger, .float x => .ok (.bool (isWholeFloat x))
  | m, n => .error (.noAttribute (Value.ofNumber n).typeName m.name)

/-- A method of a dict. -/
def Method.applyDict (m : Method) (entries : List (Value × Value)) (given : Bound) :
    Eval Value := do
  match m with
  | .get =>
    discard (given.value 0).hash
    return (valueUnder? entries (given.value 0)).getD (given.value 1)
  | .keys => Eval.newList (entries.map (·.1))
  | .values => Eval.newList (entries.map (·.2))
  | .items => Eval.newList (← entries.mapM fun (key, value) => Eval.newTuple [key, value])
  | m => throw (.noAttribute .dict m.name)

/-- A method of a tuple or a list. -/
def Method.applyItems (m : Method) (type : TypeName) (items : List Value) (given : Bound) :
    Except RuntimeError Value :=
  let needle := given.value 0
  match m with
  | .count => .ok (.int (Int64.ofNat (items.countP (·.eq needle))))
  | .index =>
    match items.findIdx? (·.eq needle) with
    | some i => .ok (.int (Int64.ofNat i))
    | none =>
      .error (.value (if type = .list then .notInList needle.text else .notInTuple))
  | m => .error (.noAttribute type m.name)

/-! ## Calls -/

/-- A method applied to the arguments of a call. -/
def Method.run (r : RealmId) (m : Method) (receiver : Value) (args : Arguments) :
    Eval Value := do
  let given ← (m.signature receiver.typeName).bind args
  match receiver with
  | .str s => m.applyText r s given
  | .dict _ entries => m.applyDict entries given
  | .tuple _ held => m.applyItems .tuple held given
  | .list _ held => m.applyItems .list held given
  | v =>
    match v.number? with
    | some n => m.applyNumber n
    | none => throw (.noAttribute v.typeName m.name)

end ExprLang
