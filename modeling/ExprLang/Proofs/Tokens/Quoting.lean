import ExprLang.Proofs.Printing.Lexing
import ExprLang.Proofs.Tokens.Tiling

/-!
# Strings in quotes

`tokens_quoted` : a string written in quotes is one token, which spans the text. What it holds is
the string again, except that a control character other than newline, tab and carriage return is
written as an escape that the language does not have, and comes back as the four characters of that
escape (`reread`). So quoting is undone for the strings without such characters and for no others.
-/

namespace ExprLang

/-! ## Texts of one token -/

/-- A text that is one token from its first character to its last. -/
theorem tokens_of_scanToken {source : String} {c : Char} {cs : List Char} {t : Token}
    (hsource : source.toList = c :: cs) (hblank : isBlank c = false) (hhash : c ≠ '#')
    (hscan : scanToken c cs = ⟨c :: cs, t, []⟩) :
    tokens source = [⟨0, source.utf8ByteSize, t⟩] := by
  have hsize : byteLength (c :: cs) = source.utf8ByteSize := by
    rw [← hsource, ← utf8ByteSize_ofList, String.ofList_toList]
  rw [tokens, hsource, tokensFrom_cons hblank hhash hscan, tokensFrom_nil, hsize, Nat.zero_add]

/-! ## What is read back -/

/-- The string that is read where `s` was written in quotes. -/
def rereadText (s : String) : String :=
  String.ofList (s.toList.flatMap reread)

theorem length_reread (c : Char) :
    (reread c).length = if isUnwritable c then 4 else 1 := by
  unfold reread
  split <;> rfl

theorem length_le_flatMap_reread (cs : List Char) : cs.length ≤ (cs.flatMap reread).length := by
  induction cs with
  | nil => exact Nat.le_refl _
  | cons c cs ih =>
    rw [List.flatMap_cons, List.length_append, List.length_cons, length_reread]
    split <;> omega

/-- Only what can be written comes back: every other character adds three. -/
theorem flatMap_reread_eq_self_iff {cs : List Char} :
    cs.flatMap reread = cs ↔ ∀ c ∈ cs, isUnwritable c = false := by
  refine ⟨fun h => ?_, flatMap_reread⟩
  induction cs with
  | nil => simp
  | cons c cs ih =>
    have hlength := congrArg List.length h
    have hle := length_le_flatMap_reread cs
    rw [List.flatMap_cons, List.length_append, List.length_cons, length_reread] at hlength
    cases hc : isUnwritable c with
    | true =>
      rw [hc, if_pos rfl] at hlength
      omega
    | false =>
      rw [List.flatMap_cons, reread_of_writable hc] at h
      simp only [List.forall_mem_cons]
      exact ⟨hc, ih (List.cons.inj h).2⟩

/-- A string in quotes is one token over the whole text, which holds the string again if and only
if the string has no control characters but newlines, tabs and carriage returns. -/
theorem tokens_quoted (s : String) :
    tokens (quoted s) = [⟨0, (quoted s).utf8ByteSize, .str (rereadText s)⟩] ∧
      (rereadText s = s ↔ ∀ c ∈ s.toList, isUnwritable c = false) := by
  have hquote := quoteFor_eq s.toList
  constructor
  · have hscan := scanToken_quoted s.toList []
    refine tokens_of_scanToken ?_ ?_ ?_ (by simpa [quotedChars, rereadText] using hscan)
    · rw [quoted, String.toList_ofList, quotedChars, List.cons_append]
    · rcases hquote with hq | hq <;> rw [hq] <;> decide
    · rcases hquote with hq | hq <;> rw [hq] <;> decide
  · rw [← flatMap_reread_eq_self_iff, rereadText, ← String.toList_inj, String.toList_ofList]

/-- The control character of code one is not read back. -/
theorem not_tokens_quoted_control :
    tokens (quoted "\x01") ≠ [⟨0, (quoted "\x01").utf8ByteSize, .str "\x01"⟩] := by
  decide +kernel

end ExprLang
