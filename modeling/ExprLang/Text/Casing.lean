import ExprLang.Text.CaseTable
import ExprLang.Text.Letter

/-!
# Changing case

`upperCase` and `lowerCase` map every character of a text by the Unicode case mappings, so
a text may grow (`ß` is `SS` in capitals). One mapping looks at its surroundings: a capital
sigma is written `ς` where it ends a word (`endsWord`) and `σ` elsewhere.
-/

namespace ExprLang

/-- The mapping of `n` by the first run that holds it. -/
def mapByRuns (runs : List CaseRun) (n : Nat) : Nat :=
  (runs.findSome? (·.image? n)).getD n

/-- The mapping of `n`: its own entry if it has one, else by runs. -/
def mapByTable (specials : List (Nat × List Nat)) (runs : List CaseRun) (n : Nat) : List Char :=
  match specials.lookup n with
  | some codes => codes.map Char.ofNat
  | none => [Char.ofNat (mapByRuns runs n)]

/-- The upper-case mapping of one character. -/
def upperChar (c : Char) : List Char :=
  if c.toNat < 128 then [c.toUpper] else mapByTable upperSpecials upperRuns c.toNat

/-- The lower-case mapping of one character, whatever stands around it. -/
def lowerChar (c : Char) : List Char :=
  if c.toNat < 128 then [c.toLower] else mapByTable lowerSpecials lowerRuns c.toNat

/-- Whether `c` has the Unicode property Cased. -/
def isCased (c : Char) : Bool :=
  inRanges casedRanges c.toNat

/-- Whether `c` has the Unicode property Case_Ignorable. -/
def isCaseIgnorable (c : Char) : Bool :=
  inRanges caseIgnorableRanges c.toNat

/-- Whether the first character of the text that matters for case is a cased one. -/
def startsCased (cs : List Char) : Bool :=
  match cs.dropWhile isCaseIgnorable with
  | [] => false
  | c :: _ => isCased c

/-- Whether a letter between `before` (nearest first) and `after` ends a word: a cased
letter comes before it and none after, case-ignorable characters aside. -/
def endsWord (before after : List Char) : Bool :=
  startsCased before && !startsCased after

/-- The text in capitals. -/
def upperCase (cs : List Char) : List Char :=
  cs.flatMap upperChar

/-- The rest of a text in small letters, after the characters `before` (nearest first). -/
def lowerCaseAfter (before : List Char) : List Char → List Char
  | [] => []
  | c :: rest =>
    let mapped :=
      if c = 'Σ' then [if endsWord before rest then 'ς' else 'σ'] else lowerChar c
    mapped ++ lowerCaseAfter (c :: before) rest

/-- The text in small letters. -/
def lowerCase (cs : List Char) : List Char :=
  lowerCaseAfter [] cs

end ExprLang
