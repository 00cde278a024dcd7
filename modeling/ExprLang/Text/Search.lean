/-!
# Searching a text

Where a pattern occurs in a text, and what counting, splitting and replacing make of it. They
take the leftmost occurrences that do not overlap. `cutAt?` cuts a text at the first
occurrence of a pattern, and `cutAt?_eq_some` says that the two parts and the pattern make
up the text again; `countOf`, `splitOn` and `replaceAll` repeat it, each in its own way. An
empty pattern occurs before every character and at the end.
-/

namespace ExprLang

/-! ## The first occurrence -/

/-- The rest of a text that starts with `pattern`. -/
def afterStart? : (pattern : List Char) → List Char → Option (List Char)
  | [], cs => some cs
  | _ :: _, [] => none
  | p :: ps, c :: cs => if p = c then afterStart? ps cs else none

/-- What stands before and after the first occurrence of `pattern`. -/
def cutAt? (pattern : List Char) : List Char → Option (List Char × List Char)
  | [] => (afterStart? pattern []).map fun rest => ([], rest)
  | c :: cs =>
    match afterStart? pattern (c :: cs) with
    | some rest => some ([], rest)
    | none => (cutAt? pattern cs).map fun (before, rest) => (c :: before, rest)

theorem afterStart?_eq_some {pattern cs rest : List Char} :
    afterStart? pattern cs = some rest ↔ cs = pattern ++ rest := by
  induction pattern generalizing cs with
  | nil => simp [afterStart?]
  | cons p ps ih =>
    cases cs with
    | nil => simp [afterStart?]
    | cons c cs =>
      by_cases h : p = c
      · simp [afterStart?, h, ih]
      · simp [afterStart?, h, eq_comm]

/-- The parts of a cut and the pattern between them are the text. -/
theorem cutAt?_eq_some {pattern cs before rest : List Char}
    (h : cutAt? pattern cs = some (before, rest)) : cs = before ++ pattern ++ rest := by
  induction cs generalizing before rest with
  | nil =>
    obtain ⟨r, hr, heq⟩ := Option.map_eq_some_iff.1 h
    obtain ⟨rfl, rfl⟩ := Prod.mk.injEq .. ▸ heq
    simpa using afterStart?_eq_some.1 hr
  | cons c cs ih =>
    simp only [cutAt?] at h
    split at h
    · next r hr =>
      obtain ⟨rfl, rfl⟩ := Prod.mk.injEq .. ▸ Option.some.inj h
      simpa using afterStart?_eq_some.1 hr
    · obtain ⟨⟨b, r⟩, hb, heq⟩ := Option.map_eq_some_iff.1 h
      obtain ⟨rfl, rfl⟩ := Prod.mk.injEq .. ▸ heq
      simp [ih hb]

/-- Cutting at a pattern that is not empty leaves less. -/
theorem length_lt_of_cutAt? {pattern cs before rest : List Char}
    (h : cutAt? pattern cs = some (before, rest)) (hp : pattern ≠ []) :
    rest.length < cs.length := by
  have := congrArg List.length (cutAt?_eq_some h)
  have := List.length_pos_iff.2 hp
  simp only [List.length_append] at *
  omega

/-- Whether `pattern` occurs in the text. -/
def occursIn (pattern cs : List Char) : Bool :=
  (cutAt? pattern cs).isSome

/-- The number of bytes of a text in UTF-8. -/
def byteLength (cs : List Char) : Nat :=
  (cs.map Char.utf8Size).foldr (· + ·) 0

/-- The byte at which `pattern` first occurs. -/
def byteOffset? (pattern cs : List Char) : Option Nat :=
  (cutAt? pattern cs).map fun (before, _) => byteLength before

/-- The number of characters that stand before a byte of a text. -/
def charIndex (offset : Nat) : List Char → Nat
  | [] => 0
  | c :: cs => if offset = 0 then 0 else charIndex (offset - c.utf8Size) cs + 1

/-- The least index at which `pattern` occurs. -/
def indexOf? (pattern cs : List Char) : Option Nat :=
  (byteOffset? pattern cs).map fun offset => charIndex offset cs

/-! ## Every occurrence -/

/-- The parts of a text between the first `limit` occurrences of `sep`, which is not
empty. -/
def splitAtMost (sep : List Char) : (limit : Nat) → List Char → List (List Char)
  | 0, cs => [cs]
  | limit + 1, cs =>
    match cutAt? sep cs with
    | none => [cs]
    | some (before, rest) => before :: splitAtMost sep limit rest

/-- The parts of a text between all occurrences of `sep`. A text has no more occurrences
than characters. -/
def splitOn (sep cs : List Char) : List (List Char) :=
  splitAtMost sep cs.length cs

/-- The number of occurrences of `sep`, which is not empty, among the first `limit`. -/
def countAtMost (sep : List Char) : (limit : Nat) → List Char → Nat
  | 0, _ => 0
  | limit + 1, cs =>
    match cutAt? sep cs with
    | none => 0
    | some (_, rest) => countAtMost sep limit rest + 1

/-- The number of occurrences of `sep`. -/
def countOf (sep cs : List Char) : Nat :=
  countAtMost sep cs.length cs

/-- A text with `new` put before each of its first `limit` characters, and at the end if
the limit reaches so far. -/
def interleave (new : List Char) : (limit : Nat) → List Char → List Char
  | 0, cs => cs
  | _ + 1, [] => new
  | limit + 1, c :: cs => new ++ c :: interleave new limit cs

/-- The text with `new` in place of the first `limit` occurrences of `old`, which is not
empty. -/
def exchange (old new : List Char) : (limit : Nat) → List Char → List Char
  | 0, cs => cs
  | limit + 1, cs =>
    match cutAt? old cs with
    | none => cs
    | some (before, rest) => before ++ new ++ exchange old new limit rest

/-- The text with the first `limit` occurrences of `old` replaced. -/
def replaceAtMost (old new : List Char) (limit : Nat) (cs : List Char) : List Char :=
  if old.isEmpty then interleave new limit cs else exchange old new limit cs

/-- The text with every occurrence of `old` replaced: no text has more occurrences than
it has characters and an end. -/
def replaceAll (old new cs : List Char) : List Char :=
  replaceAtMost old new (cs.length + 1) cs

/-! ## Words -/

/-- The first `limit` words of a text and then, if a word is left, the rest from it on. A
word is a longest run without blanks. -/
def wordsAtMost (blank : Char → Bool) : (limit : Nat) → List Char → List (List Char)
  | limit, cs =>
    match cs.dropWhile blank with
    | [] => []
    | c :: rest =>
      match limit with
      | 0 => [c :: rest]
      | limit + 1 =>
        (c :: rest.takeWhile (!blank ·)) :: wordsAtMost blank limit (rest.dropWhile (!blank ·))

/-- The words of a text. -/
def words (blank : Char → Bool) (cs : List Char) : List (List Char) :=
  wordsAtMost blank cs.length cs

end ExprLang
