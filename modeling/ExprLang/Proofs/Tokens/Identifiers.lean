import ExprLang.Proofs.Printing.Proper
import ExprLang.Proofs.Tokens.Tiling

/-!
# Names are one token

`identifier_tokens` : a string may name a variable if and only if it is cut into one token, which is
this name. Spelt like a name but reserved, it is one token, too, a keyword or a reserved word that
is shown as it is spelt. What the check of a name allows is thus what the lexer makes a name of: no
character of a name is blank or starts a comment, a number, a string or a symbol, and a word is cut
off at its end only.
-/

namespace ExprLang

variable {name : String}

/-- What is spelt like a name is a word, and conversely. -/
theorem isWord_iff : IsWord name.toList ↔ isIdentifier name = true := by
  unfold isIdentifier
  cases name.toList with
  | nil => exact iff_of_false (fun h => h.ne_nil rfl) (by simp)
  | cons c cs =>
    rw [Bool.and_eq_true, List.all_eq_true]
    constructor
    · exact fun h => ⟨h.starts c rfl, fun d hd => h.continues d (List.mem_cons_of_mem _ hd)⟩
    · rintro ⟨hc, hcs⟩
      refine ⟨by simpa using hc, ?_, List.cons_ne_nil _ _⟩
      exact List.forall_mem_cons.2 ⟨isNameContinue_of_isNameStart hc, hcs⟩

/-- A word is a name unless it is reserved: the keywords are among the reserved words. -/
theorem wordToken_eq_name_iff : wordToken name = .name name ↔ isReservedWord name = false := by
  unfold wordToken
  cases hkeyword : Keyword.ofText? name with
  | some k =>
    have table : ∀ k ∈ Keyword.all, isReservedWord k.text = true := by decide
    have hreserved := table k (List.mem_of_find?_eq_some hkeyword)
    rw [Keyword.text_of_ofText? hkeyword] at hreserved
    simp [hreserved]
  | none => cases hreserved : isReservedWord name <;> simp

/-- A name that a placeholder may have is the name of a variable, and conversely. -/
theorem isName_iff : IsName name ↔ isIdentifier name = true ∧ isReservedWord name = false := by
  rw [← isWord_iff, ← wordToken_eq_name_iff]
  exact ⟨fun h => ⟨h.word, h.free⟩, fun h => ⟨h.1, h.2⟩⟩

theorem IsWord.sourceTokens_eq (h : IsWord name.toList) : sourceTokens name = [wordToken name] :=
  (show Piece false name.toList [wordToken name] from h.piece).lex_eq

/-- A name is the one token of its text, and no other text is cut into that token alone. -/
theorem sourceTokens_eq_name_iff : sourceTokens name = [.name name] ↔ IsName name := by
  constructor
  · intro h
    exact lex_isProper name.toList (.name name) (by simp [show lex name.toList = _ from h])
  · intro h
    rw [h.word.sourceTokens_eq, h.free]

/-- Whether a token is a word that can name no variable. -/
def Token.isFixed : Token → Bool
  | .keyword _ | .reserved _ => true
  | _ => false

theorem isFixed_wordToken (h : isReservedWord name = true) : (wordToken name).isFixed = true := by
  unfold wordToken
  split
  · rfl
  · rw [h]
    rfl

/-- The strings that may name a variable are those that are cut into one token, this name. One that
is spelt like a name but reserved is cut into one token, a keyword or a reserved word that is shown
as the string. -/
theorem identifier_tokens (s : String) :
    (isIdentifier s = true ∧ isReservedWord s = false ↔ sourceTokens s = [.name s]) ∧
      (isIdentifier s = true → isReservedWord s = true →
        ∃ t, sourceTokens s = [t] ∧ t.isFixed = true ∧ t.text = s) := by
  refine ⟨by rw [sourceTokens_eq_name_iff, isName_iff], fun hidentifier hreserved => ?_⟩
  exact ⟨wordToken s, (isWord_iff.2 hidentifier).sourceTokens_eq, isFixed_wordToken hreserved,
    text_wordToken s⟩

/-- A name of letters beyond ASCII, and a reserved word. -/
theorem identifier_tokens_yield :
    sourceTokens "λ_1é" = [.name "λ_1é"] ∧ isIdentifier "yield" = true ∧
      isReservedWord "yield" = true ∧
      ∃ t, sourceTokens "yield" = [t] ∧ t.isFixed = true ∧ t.text = "yield" := by
  have hname : isIdentifier "λ_1é" = true ∧ isReservedWord "λ_1é" = false := by decide +kernel
  have hspelt : isIdentifier "yield" = true := by decide +kernel
  have hreserved : isReservedWord "yield" = true := by decide
  exact ⟨(identifier_tokens "λ_1é").1.1 hname, hspelt, hreserved,
    (identifier_tokens "yield").2 hspelt hreserved⟩

end ExprLang
