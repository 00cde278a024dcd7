import ExprLang.Proofs.Building.Adequacy
import ExprLang.Proofs.Parsing.Functions
import ExprLang.Proofs.Printing.RoundTrip
import Mathlib.Data.List.Nodup

/-!
# The parameters of a draft

The names in fragments that are registered become the parameters of a lambda around them. They come
in an order in which parameters may stand (`exists_gathering`) : plain names first, then
the markers, each once. So the lambda is read as a function with these parameters around what the
fragments are read as (`parse_lambdaSource`).

A marker collects under a name of its own, and a placeholder may have the same name. Together they
are refused (`parse_lambdaSource_of_clash`).
-/

namespace ExprLang

open ExprLang.Parser

variable {registered : String → Bool} {fs : Fragments} {names : List String} {body : Expr}

/-! ## The order of names -/

/-- Parameters are ordered by rank, then by name. -/
theorem paramLe_iff {a b : String} :
    paramLe a b = true ↔ paramRank a < paramRank b ∨ paramRank a = paramRank b ∧ ¬b < a := by
  simp only [paramLe, Bool.or_eq_true, Bool.and_eq_true, decide_eq_true_eq, beq_iff_eq,
    Bool.not_eq_true', decide_eq_false_iff_not]

theorem paramLe_trans {a b c : String} (hab : paramLe a b = true) (hbc : paramLe b c = true) :
    paramLe a c = true := by
  rw [paramLe_iff] at *
  rcases hab with hab | ⟨hab, hnot⟩
  · rcases hbc with hbc | ⟨hbc, -⟩ <;> exact .inl (by omega)
  · rcases hbc with hbc | ⟨hbc, hnot'⟩
    · exact .inl (by omega)
    · have hle := String.le_trans (String.not_lt.1 hnot) (String.not_lt.1 hnot')
      exact .inr ⟨by omega, String.not_lt.2 hle⟩

theorem paramLe_total (a b : String) : (paramLe a b || paramLe b a) = true := by
  rw [Bool.or_eq_true, paramLe_iff, paramLe_iff]
  rcases Nat.lt_trichotomy (paramRank a) (paramRank b) with h | h | h
  · exact .inl (.inl h)
  · exact (String.le_total a b).imp (fun hle => .inr ⟨h, String.not_lt.2 hle⟩)
      fun hle => .inr ⟨h.symm, String.not_lt.2 hle⟩
  · exact .inr (.inl h)

/-- Names that come again are left out where they do. -/
theorem eraseDups_sublist (names : List String) : names.eraseDups.Sublist names := by
  cases names with
  | nil => simp
  | cons name names =>
    rw [List.eraseDups_cons]
    exact .cons_cons name ((eraseDups_sublist _).trans List.filter_sublist)
termination_by names.length
decreasing_by exact Nat.lt_succ_of_le (List.length_filter_le _ _)

/-- Free names stand in the order of their ranks. -/
theorem Fragments.pairwise_freeNames (registered : String → Bool) (fs : Fragments) :
    (fs.freeNames registered).Pairwise fun a b => paramRank a ≤ paramRank b := by
  have hsorted : ((fs.filter registered).mergeSort paramLe).Pairwise (paramLe · · = true) :=
    @List.pairwise_mergeSort _ paramLe (fun _ _ _ => paramLe_trans) paramLe_total _
  unfold freeNames
  refine (hsorted.sublist (eraseDups_sublist _)).imp fun h => ?_
  rcases paramLe_iff.1 h with h | ⟨h, -⟩ <;> omega

/-! ## What names a registry holds -/

/-- The name that a marker collects under. -/
def Marker.word : Marker → String
  | .args => "args"
  | .kwargs => "kwargs"

/-- A name that may be registered: that of a variable, or that of a marker. -/
def IsRegistrable (name : String) : Prop :=
  IsName name ∨ ∃ m : Marker, name = m.name

/-- No name begins with a star. -/
theorem IsName.not_star {name : String} (h : IsName name) : ¬['*'] <+: name.toList := by
  rintro ⟨rest, hrest⟩
  have hstart := h.word.starts '*' (by simp [← hrest])
  exact absurd hstart (by decide)

theorem IsName.paramRank_eq {name : String} (h : IsName name) : paramRank name = 0 := by
  have hstar : name.startsWith "*" = false := by
    simpa [String.startsWith_string_eq_false_iff] using h.not_star
  have hdouble : name.startsWith "**" = false := by
    rw [String.startsWith_string_eq_false_iff]
    exact fun hprefix => h.not_star (List.IsPrefix.trans (by decide) hprefix)
  simp [paramRank, hstar, hdouble]

theorem Marker.paramRank_pos (m : Marker) : 0 < paramRank m.name := by
  cases m <;> decide +kernel

/-- Parameters that gather are named with their stars. -/
theorem Params.names_gathering {ε : Type} (plain : List String) (varargs kwargs : Option String) :
    (Params.gathering plain varargs kwargs : Params ε).names
      = plain ++ (varargs.map ("*" ++ ·)).toList ++ (kwargs.map ("**" ++ ·)).toList := by
  simp [names, gathering, Function.comp_def]

/-- Names in the order of parameters are plain names, and then the markers. -/
theorem exists_gathering (hsorted : names.Pairwise fun a b => paramRank a ≤ paramRank b)
    (hnodup : names.Nodup) (hnames : ∀ name ∈ names, IsRegistrable name) :
    ∃ plain varargs kwargs, names = (Params.gathering plain varargs kwargs : Params Expr).names ∧
      plain.Nodup ∧ (∀ name ∈ plain, IsName name) ∧ (varargs = none ∨ varargs = some "args") ∧
      (kwargs = none ∨ kwargs = some "kwargs") := by
  induction names with
  | nil => exact ⟨[], none, none, rfl, by simp⟩
  | cons name names ih =>
    rw [List.pairwise_cons] at hsorted
    rw [List.nodup_cons] at hnodup
    rw [List.forall_mem_cons] at hnames
    obtain ⟨plain, varargs, kwargs, rfl, hplain, hisName, hargs, hkwargs⟩ :=
      ih hsorted.2 hnodup.2 hnames.2
    simp only [Params.names_gathering] at hsorted hnodup ⊢
    rcases hnames.1 with hname | ⟨m, rfl⟩
    · refine ⟨name :: plain, varargs, kwargs, rfl, ?_, ?_, hargs, hkwargs⟩
      · exact List.nodup_cons.2 ⟨fun hmem => hnodup.1 (by simp [hmem]), hplain⟩
      · exact List.forall_mem_cons.2 ⟨hname, hisName⟩
    · have hempty : plain = [] := by
        refine List.eq_nil_iff_forall_not_mem.2 fun p hp => ?_
        have hle := hsorted.1 p (by simp [hp])
        rw [(hisName p hp).paramRank_eq] at hle
        exact Nat.not_le_of_lt m.paramRank_pos hle
      subst hempty
      cases m with
      | args =>
        have hnone : varargs = none := by
          refine hargs.resolve_right fun hsome => hnodup.1 ?_
          simp [hsome, Marker.name]
        exact ⟨[], some "args", kwargs, by simp [hnone, Marker.name], by simp, by simp, .inr rfl,
          hkwargs⟩
      | kwargs =>
        have hnone : varargs = none := by
          refine hargs.resolve_right fun hsome => ?_
          exact absurd (hsorted.1 "*args" (by simp [hsome])) (by decide +kernel)
        have hnone' : kwargs = none := by
          refine hkwargs.resolve_right fun hsome => hnodup.1 ?_
          simp [hsome, Marker.name]
        exact ⟨[], none, some "kwargs", by simp [hnone, hnone', Marker.name], by simp, by simp,
          .inl rfl, .inr rfl⟩

/-! ## The text of a lambda -/

/-- The characters with which a symbol goes on are none with which anything else starts. -/
theorem apart_of_not_opensText {c : Char} (hc : opensText c = false) :
    isBlank c = false ∧ c ≠ '#' ∧ c.isDigit = false ∧ c ≠ '.' ∧ c ≠ '\'' ∧ c ≠ '"' ∧
      isNameStart c = false := by
  have hmem : c ∈ ['*', '/', '<', '>', '='] := by
    rw [← List.contains_iff_mem]
    simpa only [opensText, Bool.not_eq_false'] using hc
  simp only [List.mem_cons, List.not_mem_nil, or_false] at hmem
  rcases hmem with rfl | rfl | rfl | rfl | rfl <;> decide

/-- A character with which a symbol goes on begins no expression. -/
theorem opening_scanToken {c : Char} {cs : List Char} (hc : opensText c = false) :
    (scanToken c cs).token.opening = 0 := by
  obtain ⟨-, -, hdigit, hdot, hquote, hdouble, hname⟩ := apart_of_not_opensText hc
  have hnumber : startsNumber c cs = false := by simp [startsNumber, hdigit, hdot]
  unfold scanToken
  simp only [hnumber, Bool.false_eq_true, ↓reduceIte, hquote, hdouble, or_self, hname]
  split
  · next s rest hscan =>
    have table : ∀ s ∈ Symbol.all,
        s.text.toList.head?.all (fun d => opensText d || (Token.symbol s).opening == 0) = true := by
      decide
    have happ := scanSymbol?_append hscan
    obtain ⟨d, ds, hs, -⟩ := s.text_first
    obtain rfl : d = c := by
      rw [hs] at happ
      exact (List.cons.inj happ).1
    simpa [hs, hc] using table s s.mem_all
  · rfl

/-- No symbol goes on with the start of an expression. -/
theorem opens_of_parse {text : String} (h : parse text = .ok body) : Opens text.toList := by
  intro c hc
  obtain ⟨cs, htext⟩ := List.head?_eq_some_iff.1 (Option.mem_def.1 hc)
  cases hopens : opensText c with
  | true => rfl
  | false =>
    obtain ⟨t, rest, htokens, hpos, -⟩ := (derives_of_parse h).begins
    have hlex : sourceTokens text = lex (c :: cs) := by
      rw [← htext]
      rfl
    obtain ⟨hblank, hhash, -⟩ := apart_of_not_opensText hopens
    rw [hlex, lex_cons hblank hhash] at htokens
    obtain ⟨rfl, -⟩ := List.cons.inj htokens
    rw [opening_scanToken hopens] at hpos
    exact absurd hpos (Nat.lt_irrefl 0)

/-- The tokens of a lambda around a source. -/
theorem exists_functionTokens {ps : Params Expr} (hnames : ∀ name ∈ ps.declared, IsName name)
    (hdefaults : ps.defaults = []) {text : String} (h : parse text = .ok body) :
    ∃ hs, Separated (ps.map Expr.phrase).tokens hs ∧
      sourceTokens ("lambda " ++ ",".intercalate ps.texts ++ ":" ++ text)
        = functionTokens hs (sourceTokens text) := by
  have hpieces : Pieces ps.texts (ps.map Expr.phrase).tokens :=
    .params hnames (by simp [hdefaults])
  obtain ⟨hs, hpiece, hseparated⟩ := hpieces.intercalate (.inl rfl)
  have hheader : Piece false ("lambda".toList ++ ' ' :: (",".intercalate ps.texts).toList)
      (.keyword .lambdaWord :: hs) :=
    hpiece.word Keyword.lambdaWord.text_isWord
  have hcolon : lex (':' :: text.toList) = .symbol .colon :: lex text.toList :=
    lex_symbol_append (s := .colon) (by decide) (opens_of_parse h)
  have hlex := hheader (':' :: text.toList) (.cons (by decide))
  rw [hcolon] at hlex
  have hsource : sourceTokens ("lambda " ++ ",".intercalate ps.texts ++ ":" ++ text)
      = lex ("lambda".toList ++
          ' ' :: (",".intercalate ps.texts).toList ++ ':' :: text.toList) := by
    unfold sourceTokens tokens lex
    simp
  exact ⟨hs, hseparated, hsource.trans hlex⟩

/-! ## Lambdas around fragments -/

/-- Parameters without defaults are printed as their names. -/
theorem Params.texts_gathering (plain : List String) (varargs kwargs : Option String) :
    (Params.gathering plain varargs kwargs).texts
      = (Params.gathering plain varargs kwargs : Params Expr).names := by
  rw [names_gathering]
  cases varargs <;>
    simp [texts, gathering, starTexts, Function.comp_def, Param.text, Expr.optionText]

theorem Params.map_gathering {ε δ : Type} (f : ε → δ) (plain : List String)
    (varargs kwargs : Option String) :
    (Params.gathering plain varargs kwargs).map f = Params.gathering plain varargs kwargs := by
  simp [gathering, Params.map, Param.map, Function.comp_def]

/-- The names that they declare have no stars. -/
theorem Params.declared_gathering {ε : Type} (plain : List String)
    (varargs kwargs : Option String) :
    (Params.gathering plain varargs kwargs : Params ε).declared
      = plain ++ varargs.toList ++ kwargs.toList := by
  simp [gathering, declared, Function.comp_def]

theorem Params.defaults_gathering {ε : Type} (plain : List String)
    (varargs kwargs : Option String) :
    (Params.gathering plain varargs kwargs : Params ε).defaults = [] := by
  simp [gathering, defaults]

/-- A marker without its stars is a name. -/
theorem Marker.isName_word (m : Marker) : IsName m.word := by
  refine isName_iff.2 ?_
  cases m <;> decide

/-- A parameter that collects has the name under which a marker does. -/
theorem exists_word {varargs kwargs : Option String}
    (hargs : varargs = none ∨ varargs = some "args")
    (hkwargs : kwargs = none ∨ kwargs = some "kwargs") {name : String}
    (hname : name ∈ varargs.toList ++ kwargs.toList) : ∃ m : Marker, name = m.word := by
  rcases List.mem_append.1 hname with hname | hname
  · obtain rfl := hargs.resolve_left (by rintro rfl; simp at hname)
    exact ⟨.args, List.mem_singleton.1 hname⟩
  · obtain rfl := hkwargs.resolve_left (by rintro rfl; simp at hname)
    exact ⟨.kwargs, List.mem_singleton.1 hname⟩

/-- The names of a placeholder and of a marker that collects under the same name. -/
def Clash (names : List String) : Prop :=
  ∃ m : Marker, m.word ∈ names ∧ m.name ∈ names

/-- What the names in fragments are as parameters, and the source around the fragments. -/
structure Header (registered : String → Bool) (fs : Fragments) (plain : List String)
    (varargs kwargs : Option String) : Prop where
  names : fs.freeNames registered = (Params.gathering plain varargs kwargs : Params Expr).names
  nodup : plain.Nodup
  isName : ∀ name ∈ plain, IsName name
  isArgs : varargs = none ∨ varargs = some "args"
  isKwargs : kwargs = none ∨ kwargs = some "kwargs"
  source : ∃ hs, Separated (Params.gathering plain varargs kwargs).tokens hs ∧
    sourceTokens (fs.lambdaSource registered) = functionTokens hs (sourceTokens fs.text)

/-- The free names are plain ones, then the markers. -/
theorem exists_header (hregistered : ∀ name, registered name = true → IsRegistrable name)
    (h : parse fs.text = .ok body) :
    ∃ plain varargs kwargs, Header registered fs plain varargs kwargs := by
  have hnames : ∀ name ∈ fs.freeNames registered, IsRegistrable name := fun name hname =>
    hregistered name (List.mem_filter.1 (Fragments.mem_freeNames.1 hname)).2
  obtain ⟨plain, varargs, kwargs, hgathering, hnodup, hplain, hvarargs, hkwargs⟩ :=
    exists_gathering (fs.pairwise_freeNames registered) (fs.nodup_freeNames registered) hnames
  have hdeclared : ∀ name ∈ (Params.gathering plain varargs kwargs : Params Expr).declared,
      IsName name := by
    rw [Params.declared_gathering, List.append_assoc, List.forall_mem_append]
    refine ⟨hplain, fun name hname => ?_⟩
    obtain ⟨m, rfl⟩ := exists_word hvarargs hkwargs hname
    exact m.isName_word
  obtain ⟨hs, hseparated, hsource⟩ :=
    exists_functionTokens hdeclared (Params.defaults_gathering ..) h
  rw [Params.map_gathering] at hseparated
  rw [Params.texts_gathering, ← hgathering] at hsource
  exact ⟨plain, varargs, kwargs, hgathering, hnodup, hplain, hvarargs, hkwargs, hs, hseparated,
    hsource⟩

/-- A marker is among the names if it collects, and the name that it collects under if that is a
placeholder. -/
theorem Header.clash_iff {plain : List String} {varargs kwargs : Option String}
    (h : Header registered fs plain varargs kwargs) :
    Clash (fs.freeNames registered) ↔
      (∃ a ∈ varargs, a ∈ plain) ∨ ∃ k ∈ kwargs, k ∈ plain := by
  have hplain : ∀ m : Marker, m.name ∉ plain := by
    intro m hmem
    refine (h.isName _ hmem).not_star ?_
    cases m <;> decide
  have hargs : "*args" ∉ plain := hplain .args
  have hkwargs : "**kwargs" ∉ plain := hplain .kwargs
  have hnames := @Params.names_gathering Expr plain varargs kwargs
  rw [← h.names] at hnames
  have hexists : Clash (fs.freeNames registered) ↔
      ("args" ∈ fs.freeNames registered ∧ "*args" ∈ fs.freeNames registered) ∨
        ("kwargs" ∈ fs.freeNames registered ∧ "**kwargs" ∈ fs.freeNames registered) := by
    constructor
    · rintro ⟨_ | _, hclash⟩
      · exact .inl hclash
      · exact .inr hclash
    · rintro (hclash | hclash)
      · exact ⟨.args, hclash⟩
      · exact ⟨.kwargs, hclash⟩
  rw [hexists, hnames]
  rcases h.isArgs with rfl | rfl <;> rcases h.isKwargs with rfl | rfl <;> simp [hargs, hkwargs]

/-- A header is valid unless a plain name is also that of a marker. -/
theorem Header.valid {plain : List String} {varargs kwargs : Option String}
    (h : Header registered fs plain varargs kwargs) (hclash : ¬Clash (fs.freeNames registered)) :
    (Params.gathering plain varargs kwargs : Params Phrase).Valid := by
  rw [h.clash_iff, not_or] at hclash
  obtain ⟨hargs, hkwargs⟩ := hclash
  constructor
  · rw [Params.declared_gathering, List.append_assoc, List.nodup_append_comm]
    have hnodup := h.nodup
    rcases h.isArgs with rfl | rfl <;> rcases h.isKwargs with rfl | rfl <;> simp_all
  · exact List.pairwise_map.2 (List.pairwise_of_forall fun _ _ => by simp)

/-- The lambda around fragments is read as a function whose parameters are the names in them, unless
there is a clash. -/
theorem parse_lambdaSource (hregistered : ∀ name, registered name = true → IsRegistrable name)
    (hbody : parse fs.text = .ok body) (hclash : ¬Clash (fs.freeNames registered)) :
    (∃ ps, parse (fs.lambdaSource registered) = .ok (.lambda ps body) ∧
        ps.names = fs.freeNames registered) ∨
      ∃ pos, parse (fs.lambdaSource registered) = .error ⟨pos, .tooDeep⟩ := by
  obtain ⟨plain, varargs, kwargs, hheader⟩ := exists_header hregistered hbody
  obtain ⟨hs, hseparated, hsource⟩ := hheader.source
  have hvalid := hheader.valid hclash
  rw [hheader.names]
  rcases parse_function hsource (Params.defaults_gathering ..) hvalid hseparated hbody with
    hparse | hdeep
  · exact .inl ⟨_, hparse, by rw [Params.map_gathering]⟩
  · exact .inr hdeep

/-- With a clash it is refused for the name that a marker collects under. -/
theorem parse_lambdaSource_of_clash
    (hregistered : ∀ name, registered name = true → IsRegistrable name)
    (hbody : parse fs.text = .ok body) (hclash : Clash (fs.freeNames registered)) :
    ∃ pos, ∃ m : Marker,
      parse (fs.lambdaSource registered) = .error ⟨pos, .duplicateParameter m.word⟩ := by
  obtain ⟨plain, varargs, kwargs, hheader⟩ := exists_header hregistered hbody
  obtain ⟨hs, hseparated, hsource⟩ := hheader.source
  have hdup := (hheader.clash_iff.1 hclash).imp_right fun ⟨k, hk, hmem⟩ =>
    (⟨k, hk, List.mem_append_right varargs.toList hmem⟩ : ∃ k ∈ kwargs, _)
  obtain ⟨pos, name, hname, herror⟩ := parse_duplicate hsource hheader.nodup hdup hseparated hbody
  obtain ⟨m, rfl⟩ := exists_word hheader.isArgs hheader.isKwargs hname
  exact ⟨pos, m, herror⟩

end ExprLang
