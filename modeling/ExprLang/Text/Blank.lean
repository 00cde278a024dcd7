/-!
# Blanks and control characters

`isBlank` is the Unicode property White_Space, a fixed set of 25 code points, and
`isControl` the general category Cc. Trimming removes blanks, or the characters of
another class, from the ends of a text; what an end-trim removes stands at the end
(`stripEnd_append`).
-/

namespace ExprLang

/-! ## The classes -/

/-- The code points with the property White_Space. -/
def blankCodes : List Nat :=
  [0x09, 0x0A, 0x0B, 0x0C, 0x0D, 0x20, 0x85, 0xA0, 0x1680, 0x2000, 0x2001, 0x2002, 0x2003,
   0x2004, 0x2005, 0x2006, 0x2007, 0x2008, 0x2009, 0x200A, 0x2028, 0x2029, 0x202F, 0x205F, 0x3000]

/-- Whether `c` has the Unicode property White_Space. -/
def isBlank (c : Char) : Bool :=
  blankCodes.contains c.toNat

/-- Whether `c` is of the Unicode general category Cc. -/
def isControl (c : Char) : Bool :=
  c.toNat < 0x20 || (0x7F ≤ c.toNat && c.toNat < 0xA0)

theorem mem_blankCodes_of_isBlank {c : Char} (h : isBlank c = true) : c.toNat ∈ blankCodes := by
  simpa [isBlank] using h

/-! ## Trimming -/

/-- The text without the longest run of `p` at its start. -/
def stripStart (p : Char → Bool) (cs : List Char) : List Char :=
  cs.dropWhile p

/-- The text without the longest run of `p` at its end. -/
def stripEnd (p : Char → Bool) (cs : List Char) : List Char :=
  (cs.reverse.dropWhile p).reverse

/-- The text without the runs of `p` at both ends. -/
def stripBoth (p : Char → Bool) (cs : List Char) : List Char :=
  stripEnd p (stripStart p cs)

/-- The text without the blanks at both ends. -/
def trim (cs : List Char) : List Char :=
  stripBoth isBlank cs

/-- What an end-trim removes is a run of `p` at the end. -/
theorem stripEnd_append (p : Char → Bool) (cs : List Char) :
    stripEnd p cs ++ (cs.reverse.takeWhile p).reverse = cs := by
  rw [stripEnd, ← List.reverse_append, List.takeWhile_append_dropWhile, List.reverse_reverse]

end ExprLang
