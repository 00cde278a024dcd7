import ExprLang.Text.Blank

/-!
# Lines

A text falls into physical lines, each ended by a newline that only the last may lack. Logical
lines are made of them: a backslash at the end of a line, blanks after it aside, says that the
line goes on with the next (`stripContinuation`). A loaded text looks for the backslash in each
physical line (`logicalLines`), the prompt in all that has been put together so far
(`promptLines`).
-/

namespace ExprLang

/-! ## Physical lines -/

/-- The lines of a text after the reversed start of a line. A return before a newline belongs to
the newline. -/
def splitLinesFrom {α : Type} [BEq α] (newline ret : α) (start : List α) :
    List α → List (List α)
  | [] => if start.isEmpty then [] else [start.reverse]
  | c :: cs =>
    if c == newline then
      (if start.head? == some ret then start.tail else start).reverse
        :: splitLinesFrom newline ret [] cs
    else splitLinesFrom newline ret (c :: start) cs

/-- The lines of a text. -/
def splitLines (cs : List Char) : List (List Char) :=
  splitLinesFrom '\n' '\r' [] cs

/-- The lines of a text given in bytes. -/
def splitByteLines (bytes : List UInt8) : List (List UInt8) :=
  splitLinesFrom 10 13 [] bytes

/-! ## Continuation -/

/-- A line without the blanks at its end and the backslash before them, and whether there was
one. -/
def stripContinuation (line : List Char) : List Char × Bool :=
  let kept := stripEnd isBlank line
  if kept.getLast? = some '\\' then (kept.dropLast, true) else (kept, false)

/-- A logical line, and the number of the first physical line in it. -/
structure LogicalLine where
  number : Nat
  text : List Char
  deriving DecidableEq, Repr

/-- The logical lines of a text, after `pending` and before the physical line of the given
number, and what is left pending at the end. A line that begins anew with nothing pending takes
its number there. -/
def logicalLines (number : Nat) (pending : LogicalLine) :
    List (List Char) → List LogicalLine × LogicalLine
  | [] => ([], pending)
  | line :: lines =>
    let first := if pending.text.isEmpty then number else pending.number
    let (kept, continues) := stripContinuation line
    let joined : LogicalLine := ⟨first, pending.text ++ kept⟩
    if continues then logicalLines (number + 1) joined lines
    else
      let (rest, left) := logicalLines (number + 1) ⟨first, []⟩ lines
      (joined :: rest, left)

/-- The line of a prompt after one more physical line, and whether it goes on. -/
def promptStep (pending line : List Char) : List Char × Bool :=
  stripContinuation (pending ++ line)

/-- The logical lines of a prompt, after a pending one that goes on. -/
def promptLines (pending : Option (List Char)) : List (List Char) → List (List Char)
  | [] => pending.toList
  | line :: lines =>
    let (kept, continues) := promptStep (pending.getD []) line
    if continues then promptLines (some kept) lines else kept :: promptLines none lines

end ExprLang
