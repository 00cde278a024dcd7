import ExprLang.Proofs.Building.Terms
import ExprLang.Proofs.Parsing.Depth
import Mathlib

/-!
# Adequacy of the combinators

A draft that was put together by combinators is read as the tree that they stand for, and its
source as the lambda over that tree whose parameters are the placeholders in it, each once
(`Workbench.Filled.isRead_draft`). The names are found again because no other fragment of a term is
registered (`Term.filter_fragments`).

The limit of nesting is not part of the combinators: enough of them, one around the other, make a
text that is refused for its depth (`Term.reals_tooDeep`).
-/

namespace ExprLang

open ExprLang.Parser

variable {w : Workbench} {t : Term}

/-! ## Names of a term -/

/-- A character that does not continue a name stands in no identifier. -/
theorem isIdentifier_eq_false {f : String} {c : Char} (hc : c ∈ f.toList)
    (h : isNameContinue c = false) : isIdentifier f = false := by
  cases hidentifier : isIdentifier f with
  | false => rfl
  | true =>
    unfold isIdentifier at hidentifier
    split at hidentifier
    · simp at hidentifier
    · next d ds heq =>
      simp only [Bool.and_eq_true, List.all_eq_true] at hidentifier
      rw [heq] at hc
      rcases List.mem_cons.1 hc with rfl | hc
      · simp [isNameContinue_of_isNameStart hidentifier.1] at h
      · simp [hidentifier.2 c hc] at h

/-- The text of an integer is no name. -/
theorem isIdentifier_intText (n : Int) : isIdentifier (intText n) = false := by
  unfold intText
  split
  · exact isIdentifier_eq_false (c := '-') (by simp) (by decide)
  · have hdigits := @isDigit_of_mem_toDigits n.natAbs
    rw [← Nat.toList_repr] at hdigits
    unfold isIdentifier
    split
    · rfl
    · next c cs heq => simp [isNameStart_of_isDigit (hdigits c (by simp [heq]))]

/-- The text of an operator is no name. -/
theorem BinaryOp.isIdentifier_text (op : BinaryOp) : isIdentifier op.text = false := by
  cases op <;> decide

theorem Comparison.isIdentifier_text {link : Comparison} {s : Symbol}
    (h : link.tokens = [.symbol s]) : isIdentifier link.text = false := by
  cases link <;> first | decide | simp [Comparison.tokens] at h

/-- The registered fragments of a term are its placeholders. -/
theorem Term.filter_fragments (h : w.Filled) (ht : t.WellFormed w.registry.contains) :
    t.fragments.filter w.registry.contains = t.names := by
  have hfree : ∀ {f : String}, isIdentifier f = false → w.registry.contains f = false := fun hf =>
    h.not_registered (.inl hf)
  have hbefore : ∀ name : String, w.registry.contains (name ++ "(") = false := fun name =>
    hfree (isIdentifier_eq_false (c := '(') (by simp) (by decide))
  have hafter : ∀ name : String, w.registry.contains (")." ++ name) = false := fun name =>
    hfree (isIdentifier_eq_false (c := '.') (by simp) (by decide))
  have hmark : ∀ f ∈ ["(", ")", ",", ")[", "]"], w.registry.contains f = false := by
    have table : ∀ f ∈ ["(", ")", ",", ")[", "]"], isIdentifier f = false := by decide
    exact fun f hf => hfree (table f hf)
  induction t with
  | placeholder name =>
    have hname : w.registry.contains name = true := ht
    simp [fragments, names, hname]
  | bool b =>
    have hword : w.registry.contains (Operand.bool b).source = false := by
      refine h.not_registered (.inr ?_)
      cases b <;> decide
    simp [fragments, names, Operand.fragments, hword]
  | int n =>
    have hdigits := hfree (isIdentifier_intText n)
    simp [fragments, names, Operand.fragments, Operand.source, hdigits]
  | unary op t ih => simp [fragments, names, Fragments.unary, Fragments.wrap, hbefore, hmark, ih ht]
  | apply b t ih => simp [fragments, names, Fragments.passTo, Fragments.wrap, hbefore, hmark, ih ht]
  | applyWith b t s iht ihs =>
    simp [fragments, names, Fragments.passWith, hbefore, hmark, iht ht.1, ihs ht.2]
  | attr t name ih =>
    simp [fragments, names, Fragments.attr, Fragments.wrap, hafter, hmark, ih ht.1]
  | item t key iht ihk =>
    simp [fragments, names, Fragments.getItem, hmark, iht ht.1, ihk ht.2]
  | binary op l r ihl ihr =>
    have hop := hfree op.isIdentifier_text
    simp [fragments, names, Fragments.binary, Fragments.collapse, hmark, hop, ihl ht.1, ihr ht.2.1]
  | compare link l r ihl ihr =>
    obtain ⟨hl, hr, -, s, hs⟩ := ht
    have hlink := hfree (Comparison.isIdentifier_text hs)
    simp [fragments, names, Fragments.compare, Fragments.collapse, hmark, hlink, ihl hl, ihr hr]

/-! ## Parameters -/

theorem nodup_eraseDups (names : List String) : names.eraseDups.Nodup := by
  cases names with
  | nil => simp
  | cons name names =>
    rw [List.eraseDups_cons, List.nodup_cons]
    exact ⟨by simp, nodup_eraseDups _⟩
termination_by names.length
decreasing_by exact Nat.lt_succ_of_le (List.length_filter_le _ _)

/-- The free names are the fragments that are registered. -/
theorem Fragments.mem_freeNames {registered : String → Bool} {fs : Fragments} {name : String} :
    name ∈ fs.freeNames registered ↔ name ∈ fs.filter registered := by
  unfold freeNames
  rw [List.mem_eraseDups, List.mem_mergeSort]

/-- Each free name is counted once. -/
theorem Fragments.nodup_freeNames (registered : String → Bool) (fs : Fragments) :
    (fs.freeNames registered).Nodup :=
  nodup_eraseDups _

/-- Parameters that are just names. -/
def Params.plain {ε : Type} (names : List String) : Params ε :=
  ⟨names.map (⟨·, none⟩), none, [], none⟩

theorem Params.map_plain {ε δ : Type} (f : ε → δ) (names : List String) :
    (Params.plain names).map f = Params.plain names := by
  simp [plain, Params.map, Param.map, Function.comp_def]

theorem Params.tokens_plain (names : List String) :
    (Params.plain names : Params Phrase).tokens = names.map fun name => [.name name] := by
  simp [plain, tokens, starTokens, Param.tokens, Function.comp_def]

/-- Plain parameters are valid if they are distinct. -/
theorem Params.valid_plain {ε : Type} {names : List String} (h : names.Nodup) :
    (Params.plain names : Params ε).Valid where
  distinct := by simpa [plain, declared, Function.comp_def] using h
  ordered := List.pairwise_map.2 (h.imp fun _ => by simp)

/-- The text of a lambda without blanks. -/
theorem Written.lambdaSource {names : List String} {body : Expr} {text : List Char}
    (hnames : ∀ name ∈ names, IsName name) (hnodup : names.Nodup)
    (hbody : Written false .expression text body) :
    Written false .expression ("lambda ".toList ++ (",".intercalate names).toList ++ ':' :: text)
      (.lambda (.plain names) body) := by
  have hpieces : Pieces names (names.map fun name => [.name name]) := by
    have hmap := Pieces.map (f := id) fun name hname => (hnames name hname).piece
    rwa [List.map_id] at hmap
  obtain ⟨ts, hpiece, hseparated⟩ := hpieces.intercalate (.inl rfl)
  have hcolon : Piece false (':' :: text) (.symbol .colon :: lex text) :=
    hbody.piece.colon hbody.opens
  have hlambda : Piece false
      ("lambda".toList ++ ' ' :: ((",".intercalate names).toList ++ ':' :: text))
      (.keyword .lambdaWord :: (ts ++ .symbol .colon :: lex text)) :=
    (hpiece.join (by decide) hcolon).word Keyword.lambdaWord.text_isWord
  have hdefaults : ∀ p ∈ (Params.plain names : Params Phrase).defaults,
      Derives False .expression p.tokens p.tree := by
    simp [Params.plain, Params.defaults]
  have hderives := Derives.function hdefaults (Params.valid_plain hnodup)
    (by rwa [Params.tokens_plain]) hbody.derives
  rw [Params.map_plain] at hderives
  refine .of (.cons (by decide)) ?_ (.ofFunction hderives)
  simpa using hlambda

/-! ## Adequacy -/

/-- Whether a source is read as an expression. A long source may be refused for its depth
instead. -/
def IsRead (source : String) (e : Expr) : Prop :=
  parse source = .ok e ∨ maxNesting ≤ (sourceTokens source).length ∧
    ∃ pos, parse source = .error ⟨pos, .tooDeep⟩

/-- A short source is not refused for its depth. -/
theorem IsRead.parse_of_short {source : String} {e : Expr} (h : IsRead source e)
    (hshort : (sourceTokens source).length < maxNesting) : parse source = .ok e :=
  h.resolve_right fun hdeep => absurd hdeep.1 (Nat.not_le.2 hshort)

/-- What is written is read back, or nests too deep. -/
theorem Written.isRead {source : String} {e : Expr}
    (h : Written false .expression source.toList e) : IsRead source e :=
  parse_of_derives h.derives

/-- The names of a term are those of placeholders. -/
theorem Term.isName_names (h : w.Filled) (ht : t.WellFormed w.registry.contains) {name : String}
    (hname : name ∈ t.names) : IsName name := by
  rw [← Term.filter_fragments h ht] at hname
  exact h.isName (List.mem_filter.1 hname).2

/-- A draft made by combinators is read as the tree that they stand for, and its source as the
lambda over the placeholders in it. -/
theorem Workbench.Filled.isRead_draft (h : w.Filled) {id : DraftId}
    (hdraft : (w.draft id).fragments = t.fragments) (ht : t.WellFormed w.registry.contains) :
    IsRead (w.draft id).fragments.text t.tree ∧
      IsRead (w.source id) (.lambda (.plain (w.freeNames id)) t.tree) ∧
      (w.freeNames id).Nodup ∧ ∀ name, name ∈ w.freeNames id ↔ name ∈ t.names := by
  have hbody := Term.whole (Term.written (fun _ hname => h.isName hname) ht)
  have hmem : ∀ name, name ∈ w.freeNames id ↔ name ∈ t.names := by
    intro name
    unfold freeNames
    rw [Fragments.mem_freeNames, hdraft, Term.filter_fragments h ht]
  have hnodup : (w.freeNames id).Nodup := Fragments.nodup_freeNames _ _
  have hnames : ∀ name ∈ w.freeNames id, IsName name := fun name hname =>
    Term.isName_names h ht ((hmem name).1 hname)
  have hsource : (w.source id).toList = "lambda ".toList
      ++ (",".intercalate (w.freeNames id)).toList ++ ':' :: t.fragments.chars := by
    simp only [source, freeNames, Fragments.lambdaSource, hdraft, Fragments.chars,
      String.toList_append, List.append_assoc]
    rfl
  have hlambda := Written.lambdaSource hnames hnodup hbody
  rw [← hsource] at hlambda
  refine ⟨?_, hlambda.isRead, hnodup, hmem⟩
  rw [hdraft]
  exact hbody.isRead

/-- The workbench with a placeholder and a draft beside it. -/
def Workbench.beside (name : String) (fragments : Fragments) : Workbench where
  drafts := #[⟨[name], none⟩, ⟨fragments, none⟩]
  registry := ⟨[name], none, none⟩
  store := Store.empty

/-- A workbench with one placeholder and some draft is filled. -/
theorem Workbench.filled_beside {name : String} (h : IsName name) (fragments : Fragments) :
    (Workbench.beside name fragments).Filled := by
  have hname := isName_iff.1 h
  have hstep : Build.placeholder name Workbench.empty
      = .ok 0 ⟨#[⟨[name], none⟩], ⟨[name], none, none⟩, Store.empty⟩ := by
    rw [Build.placeholder_eq]
    simp [Workbench.empty, Registry.empty, Registry.contains, Registry.add, hname]
  exact .other (.placeholder (.empty rfl) hstep) rfl

/-- A power with a negated exponent. -/
theorem Workbench.isRead_power :
    let t : Term := .binary .pow (.placeholder "x") (.unary .neg (.placeholder "x"))
    let w := Workbench.beside "x" t.fragments
    w.Filled ∧ (w.draft 1).fragments = t.fragments ∧ t.WellFormed w.registry.contains ∧
      parse (w.draft 1).fragments.text = .ok t.tree ∧
      parse (w.source 1) = .ok (.lambda (.plain (w.freeNames 1)) t.tree) ∧
      (w.freeNames 1).Nodup ∧ ∀ name, name ∈ w.freeNames 1 ↔ name ∈ t.names := by
  intro t w
  have hfilled : w.Filled := filled_beside (isName_iff.2 (by decide)) _
  have ht : t.WellFormed w.registry.contains := by
    refine ⟨?_, ?_, rfl⟩ <;> simp [Term.WellFormed, w, beside, Registry.contains]
  have hdraft : (w.draft 1).fragments = t.fragments := rfl
  have hshort : (sourceTokens (w.source 1)).length < maxNesting := by
    have htext : w.source 1 = "lambda x:(x)**-(x)" := by cbv
    rw [htext]
    decide +kernel
  obtain ⟨hread, hsource, hnames⟩ := hfilled.isRead_draft hdraft ht
  exact ⟨hfilled, hdraft, ht, hread.parse_of_short (by decide +kernel),
    hsource.parse_of_short hshort, hnames⟩

/-! ## Depth -/

/-- The real part, taken again and again. -/
def Term.reals (t : Term) : Nat → Term
  | 0 => t
  | n + 1 => .attr (t.reals n) "real"

/-- Attributes keep a term well formed. -/
theorem Term.wellFormed_reals {registered : String → Bool} (h : t.WellFormed registered) (n : Nat) :
    (t.reals n).WellFormed registered := by
  induction n with
  | zero => exact h
  | succ n ih => exact ⟨ih, by decide, by decide⟩

/-- Each attribute opens another bracket in front. -/
theorem Term.lex_reals (t : Term) (n : Nat) (tail : List Char) :
    ∃ rest, lex ((t.reals n).fragments.chars ++ tail)
      = List.replicate n (.symbol .openParen) ++ rest := by
  induction n generalizing tail with
  | zero => exact ⟨_, rfl⟩
  | succ n ih =>
    obtain ⟨rest, hrest⟩ := ih (").real".toList ++ tail)
    refine ⟨rest, ?_⟩
    rw [List.replicate_succ, List.cons_append, ← hrest]
    simp [reals, fragments, Fragments.attr, Fragments.wrap]

/-- More combinators around each other than expressions may nest. -/
theorem Term.reals_tooDeep (h : w.Filled) (ht : t.WellFormed w.registry.contains) {n : Nat}
    (hn : maxNesting < n) :
    ∃ pos, parse (t.reals n).fragments.text = .error ⟨pos, .tooDeep⟩ := by
  have hwritten := Term.written (fun _ hname => h.isName hname) (Term.wellFormed_reals ht n)
  obtain ⟨rest, hrest⟩ := t.lex_reals n []
  rw [List.append_nil] at hrest
  exact parse_tooDeep hn hrest hwritten.derives.checked

/-- A well-formed term on a workbench that is not read as its tree. -/
theorem Workbench.not_isRead_reals :
    let t : Term := (Term.placeholder "x").reals (maxNesting + 1)
    let w := Workbench.beside "x" t.fragments
    w.Filled ∧ (w.draft 1).fragments = t.fragments ∧ t.WellFormed w.registry.contains ∧
      parse (w.draft 1).fragments.text ≠ .ok t.tree := by
  intro t w
  have hfilled : w.Filled := filled_beside (isName_iff.2 (by decide)) _
  have hx : (Term.placeholder "x").WellFormed w.registry.contains := by
    simp [Term.WellFormed, w, beside, Registry.contains]
  refine ⟨hfilled, rfl, Term.wellFormed_reals hx _, fun hparse => ?_⟩
  obtain ⟨pos, hdeep⟩ := Term.reals_tooDeep hfilled hx (Nat.lt_succ_self maxNesting)
  have heq : parse (w.draft 1).fragments.text = .error ⟨pos, .tooDeep⟩ := hdeep
  rw [heq] at hparse
  cases hparse

end ExprLang
