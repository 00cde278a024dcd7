import ExprLang.Proofs.Evaluating.Keys
import ExprLang.Proofs.Printing.RoundTrip
import ExprLang.Proofs.Running
import ExprLang.Value.Printer

/-!
# Reading a printed value

`evalSource_text` : the text of a value made of `None`, truth values, integers, strings, tuples,
lists and dicts is a source for a value that is as good as the first, or it is nested too deeply.
Left out are the least integer, which has no numeral, and strings with characters that have no
escape (`Value.Plain`).

What is read back has identities of its own, and an integer below zero comes back as the negation
of a literal. So two facts are carried from the parts of a value to the whole: it has an expression
with its text (`Displays`), and what that expression comes to cannot be told from the value but by
its identities (`Value.Alike`).
-/

namespace ExprLang

/-! ## Texts of containers -/

/-- A tuple is printed item by item. -/
theorem Value.text_tuple (id : Identity) (items : List Value) :
    (Value.tuple id items).text = tupleText (Value.texts items) := rfl

theorem Value.text_list (id : Identity) (items : List Value) :
    (Value.list id items).text = "[" ++ listed (Value.texts items) ++ "]" := rfl

theorem Value.text_dict (id : Identity) (entries : List (Value × Value)) :
    (Value.dict id entries).text
      = "\x7b" ++ listed (Value.entryTexts entries) ++ "\x7d" := rfl

/-! ## Values that are told apart by their identities only -/

/-- Whether two values are the same to all that does not look at identities. -/
structure Value.Alike (v v' : Value) : Prop where
  typeName : v'.typeName = v.typeName
  text : v'.text = v.text
  hash : v'.hash = v.hash
  eq_left : ∀ w : Value, v'.eq w = v.eq w
  eq_right : ∀ w : Value, w.eq v' = w.eq v

/-- Whether two entries are the same to all that does not look at identities. -/
structure AlikeEntries (e e' : Value × Value) : Prop where
  key : e.1.Alike e'.1
  value : e.2.Alike e'.2

theorem Value.Alike.refl (v : Value) : v.Alike v :=
  ⟨rfl, rfl, rfl, fun _ => rfl, fun _ => rfl⟩

section

variable {vs vs' : List Value}

/-- Items that are alike are printed alike. -/
theorem texts_alike (h : List.Forall₂ Value.Alike vs vs') : Value.texts vs' = Value.texts vs := by
  induction h with
  | nil => rfl
  | cons hv _ ih => simp only [Value.texts, hv.text, ih]

theorem hashItems_alike (h : List.Forall₂ Value.Alike vs vs') (acc : Hash) :
    Value.hashItems acc vs' = Value.hashItems acc vs := by
  induction h generalizing acc with
  | nil => rfl
  | cons hv _ ih => simp only [Value.hashItems, hv.hash, ih]

theorem eqItems_alike_left (h : List.Forall₂ Value.Alike vs vs') (ws : List Value) :
    Value.eqItems vs' ws = Value.eqItems vs ws := by
  induction h generalizing ws with
  | nil => rfl
  | cons hv _ ih => cases ws <;> simp only [Value.eqItems, hv.eq_left, ih]

theorem eqItems_alike_right (h : List.Forall₂ Value.Alike vs vs') (ws : List Value) :
    Value.eqItems ws vs' = Value.eqItems ws vs := by
  induction h generalizing ws with
  | nil => rfl
  | cons hv _ ih => cases ws <;> simp only [Value.eqItems, hv.eq_right, ih]

/-- Tuples with items that are alike are alike, whatever their identities. -/
theorem Value.Alike.tuple (h : List.Forall₂ Value.Alike vs vs') (i j : Identity) :
    (Value.tuple i vs).Alike (.tuple j vs') where
  typeName := rfl
  text := by rw [Value.text_tuple, Value.text_tuple, texts_alike h]
  hash := by simp only [Value.hash, hashItems_alike h, h.length_eq]
  eq_left w := by
    cases w with
    | tuple k ws => exact eqItems_alike_left h ws
    | _ => rfl
  eq_right w := by
    cases w with
    | tuple k ws => exact eqItems_alike_right h ws
    | _ => rfl

/-- Lists with items that are alike are alike, whatever their identities. -/
theorem Value.Alike.list (h : List.Forall₂ Value.Alike vs vs') (i j : Identity) :
    (Value.list i vs).Alike (.list j vs') where
  typeName := rfl
  text := by rw [Value.text_list, Value.text_list, texts_alike h]
  hash := rfl
  eq_left w := by
    cases w with
    | list k ws => exact eqItems_alike_left h ws
    | _ => rfl
  eq_right w := by
    cases w with
    | list k ws => exact eqItems_alike_right h ws
    | _ => rfl

end

section

variable {es es' : List (Value × Value)}

/-- Entries that are alike are printed alike. -/
theorem entryTexts_alike (h : List.Forall₂ AlikeEntries es es') :
    Value.entryTexts es' = Value.entryTexts es := by
  induction h with
  | nil => rfl
  | cons he _ ih => simp only [Value.entryTexts, he.key.text, he.value.text, ih]

/-- A key that equals none of some keys equals none of keys like them. -/
theorem unequal_alike (h : List.Forall₂ AlikeEntries es es') {k k' : Value} (hk : k.Alike k')
    (hne : ∀ e ∈ es, e.1.eq k = false) : ∀ e ∈ es', e.1.eq k' = false := by
  induction h with
  | nil => simp
  | cons he _ ih =>
    rw [List.forall_mem_cons] at hne ⊢
    exact ⟨by rw [he.key.eq_left, hk.eq_right, hne.1], ih hne.2⟩

theorem entriesIn_alike_left (h : List.Forall₂ AlikeEntries es es') (ws : List (Value × Value)) :
    Value.entriesIn es' ws = Value.entriesIn es ws := by
  induction h with
  | nil => rfl
  | cons he _ ih => simp only [Value.entriesIn, he.key.eq_left, he.value.eq_left, ih]

/-- A key that finds an entry finds one alike. -/
theorem find?_alike (h : List.Forall₂ AlikeEntries es es') (k : Value) :
    Option.Rel AlikeEntries (es.find? fun e => k.eq e.1) (es'.find? fun e => k.eq e.1) := by
  induction h with
  | nil => exact .none
  | @cons e _ _ _ he _ ih =>
    simp only [List.find?_cons, he.key.eq_right]
    cases k.eq e.1 with
    | true => exact .some he
    | false => exact ih

theorem entriesIn_alike_right (h : List.Forall₂ AlikeEntries es es') (ws : List (Value × Value)) :
    Value.entriesIn ws es' = Value.entriesIn ws es := by
  induction ws with
  | nil => rfl
  | cons w ws ih =>
    have hfound := find?_alike h w.1
    simp only [Value.entriesIn, ih]
    generalize es.find? (fun e => w.1.eq e.1) = found, es'.find? (fun e => w.1.eq e.1) = found'
      at hfound
    cases hfound with
    | none => rfl
    | some he => simp only [he.value.eq_right]

/-- Dicts with entries that are alike are alike, whatever their identities. -/
theorem Value.Alike.dict (h : List.Forall₂ AlikeEntries es es') (i j : Identity) :
    (Value.dict i es).Alike (.dict j es') where
  typeName := rfl
  text := by rw [Value.text_dict, Value.text_dict, entryTexts_alike h]
  hash := rfl
  eq_left w := by
    cases w with
    | dict k ws => simp only [Value.eq, entriesIn_alike_left h, h.length_eq]
    | _ => rfl
  eq_right w := by
    cases w with
    | dict k ws => simp only [Value.eq, entriesIn_alike_right h, h.length_eq]
    | _ => rfl

end

/-! ## Values that can be written -/

/-- Values with a text that is a source for them. -/
inductive Value.Plain : Value → Prop
  | none : Plain .none
  | bool (b : Bool) : Plain (.bool b)
  | int {n : Int64} (h : n.toInt ≠ -9223372036854775808) : Plain (.int n)
  | str {s : String} (h : ∀ c ∈ s.toList, isControl c = true → c = '\n' ∨ c = '\t' ∨ c = '\r') :
      Plain (.str s)
  | tuple {id : Identity} {items : List Value} (h : ∀ v ∈ items, Plain v) : Plain (.tuple id items)
  | list {id : Identity} {items : List Value} (h : ∀ v ∈ items, Plain v) : Plain (.list id items)
  | dict {id : Identity} {entries : List (Value × Value)} (hkeys : ∀ e ∈ entries, Plain e.1)
      (hvalues : ∀ e ∈ entries, Plain e.2) (hdistinct : DistinctKeys (entries.map (·.1))) :
      Plain (.dict id entries)

/-- Plain values are equal to themselves, since no float in them is a NaN. -/
theorem Value.Plain.eq_self {v : Value} (h : v.Plain) : v.eq v = true := by
  induction h with
  | none => rfl
  | bool b | int | str => simp [Value.eq, Value.number?, Number.beq, Value.same]
  | tuple _ ih | list _ ih => exact eqItems_self ih
  | dict _ _ hdistinct ihkeys ihvalues =>
    simp only [Value.eq, beq_self_eq_true, Bool.true_and]
    exact @entriesIn_self [] _ ihkeys ihvalues hdistinct

/-! ## Expressions for values -/

/-- An expression that has the text of a value and comes to one like it, whatever the realm, the
variables and the store are. -/
structure Displays (e : Expr) (v : Value) : Prop where
  text : e.text = v.text
  printed : Printed e
  value : ∀ call r scope s, ∃ v' s', eval call r scope e s = .ok v' s' ∧ v.Alike v'

/-- Expressions that display the key and the value of an entry. -/
structure DisplaysEntry (p : Expr × Expr) (e : Value × Value) : Prop where
  key : Displays p.1 e.1
  value : Displays p.2 e.2

/-- A literal displays its value if it is printed as the value is. -/
theorem Displays.literal (value : Literal) (hproper : (Expr.literal value).IsProper)
    (hreadable : (Expr.literal value).IsReadable) (htext : value.text = value.eval.text) :
    Displays (.literal value) value.eval where
  text := htext
  printed := .literal hproper hreadable
  value _ _ _ s := ⟨_, s, by unfold eval; rfl, .refl _⟩

/-- Only the least integer has no negative. -/
theorem toInt_neg_of_ne {n : Int64} (h : n.toInt ≠ -9223372036854775808) :
    (-n).toInt = -n.toInt := by
  have hle := Int64.le_toInt n
  have hlt := Int64.toInt_lt n
  have hword : -n = Int64.ofInt (-n.toInt) := by rw [Int64.ofInt_neg, Int64.ofInt_toInt]
  rw [hword, toInt_ofInt_of_inRange ⟨by omega, by omega⟩]

/-- An integer below zero is displayed as the negation of its magnitude. -/
theorem Displays.negative {n : Int64} (hn : n.toInt < 0) (hmin : n.toInt ≠ -9223372036854775808) :
    Displays (.unary .neg (.literal (.int (-n)))) (.int n) where
  text := by
    have hcompound : Literal.isCompound (.int (-n)) = false := by
      simp [Literal.isCompound, Int64.lt_iff_toInt_lt, toInt_neg_of_ne hmin, Int.le_of_lt hn]
    have hvalue : (Value.int n).text = intText n.toInt := rfl
    rw [hvalue]
    simp [Expr.text, Expr.isCompound, hcompound, bracketed, Literal.text, intText,
      UnaryOp.text, toInt_neg_of_ne hmin, hn, Int.le_of_lt hn]
  printed := by
    refine .unary (.int ?_)
    rw [toInt_neg_of_ne hmin]
    omega
  value call r scope s := by
    have hneg : Value.unaryOp .neg (.int (-n)) = .ok (.int n) := by
      have hback : - -n.toInt = n.toInt := by omega
      simp only [Value.unaryOp, Value.number?, Number.neg, toInt_neg_of_ne hmin, hback]
      rw [checkedInt_eq_ok.2 ⟨inRange_toInt n, rfl⟩]
      rfl
    refine ⟨.int n, s, ?_, .refl _⟩
    have hoperand : eval call r scope (.literal (.int (-n))) s = .ok (.int (-n)) s := by
      unfold eval
      rfl
    unfold eval
    rw [run_ok hoperand, hneg]
    rfl

/-! ## Displays of containers -/

section

variable {es : List Expr} {vs : List Value} (h : List.Forall₂ Displays es vs)

include h

/-- Displays are printed as the values are. -/
theorem texts_displays : Expr.texts es = Value.texts vs := by
  induction h with
  | nil => rfl
  | cons he _ ih => simp only [Expr.texts, Value.texts, he.text, ih]

/-- Every display is printed in a form that reads back. -/
theorem printed_displays : ∀ e ∈ es, Printed e := by
  induction h with
  | nil => simp
  | cons he _ ih => exact List.forall_mem_cons.2 ⟨he.printed, ih⟩

/-- Displays evaluate to values that are alike. -/
theorem evalItems_displays (call : RealmCaller) (r : RealmId) (scope : Scope) (s : Store) :
    ∃ vs' s', evalItems call r scope es s = .ok vs' s' ∧ List.Forall₂ Value.Alike vs vs' := by
  induction h generalizing s with
  | nil => exact ⟨[], s, by unfold evalItems; rfl, .nil⟩
  | cons he _ ih =>
    obtain ⟨v', s₁, hv, halike⟩ := he.value call r scope s
    obtain ⟨vs', s₂, hvs, halikes⟩ := ih s₁
    refine ⟨v' :: vs', s₂, ?_, .cons halike halikes⟩
    unfold evalItems
    rw [run_ok hv, run_ok hvs]
    rfl

/-- A tuple is displayed by the displays of its items. -/
theorem Displays.tuple (id : Identity) : Displays (.tuple es) (.tuple id vs) where
  text := by rw [Expr.text, Value.text_tuple, texts_displays h]
  printed := .tuple (printed_displays h)
  value call r scope s := by
    obtain ⟨vs', s', hvs, halike⟩ := evalItems_displays h call r scope s
    refine ⟨.tuple s'.fresh vs', { s' with fresh := s'.fresh + 1 }, ?_, .tuple halike _ _⟩
    unfold eval
    rw [run_ok hvs]
    rfl

/-- A list is displayed by the displays of its items. -/
theorem Displays.list (id : Identity) : Displays (.list es) (.list id vs) where
  text := by rw [Expr.text, Value.text_list, texts_displays h]
  printed := .list (printed_displays h)
  value call r scope s := by
    obtain ⟨vs', s', hvs, halike⟩ := evalItems_displays h call r scope s
    refine ⟨.list s'.fresh vs', { s' with fresh := s'.fresh + 1 }, ?_, .list halike _ _⟩
    unfold eval
    rw [run_ok hvs]
    rfl

end

section

variable {ps : List (Expr × Expr)} {es : List (Value × Value)}
  (h : List.Forall₂ DisplaysEntry ps es)

include h

/-- Entries are printed as those of the dict are. -/
theorem entryTexts_displays : Expr.entryTexts ps = Value.entryTexts es := by
  induction h with
  | nil => rfl
  | cons he _ ih => simp only [Expr.entryTexts, Value.entryTexts, he.key.text, he.value.text, ih]

theorem printed_displaysEntry : ∀ p ∈ ps, Printed p.1 ∧ Printed p.2 := by
  induction h with
  | nil => simp
  | cons he _ ih => exact List.forall_mem_cons.2 ⟨⟨he.key.printed, he.value.printed⟩, ih⟩

/-- As no two keys are equal, no entry takes the place of one put in before. -/
theorem evalEntries_displays (call : RealmCaller) (r : RealmId) (scope : Scope)
    {before before' : List (Value × Value)} (hbefore : List.Forall₂ AlikeEntries before before')
    (hdistinct : DistinctKeys ((before ++ es).map (·.1))) (s : Store) :
    ∃ es' s', evalEntries call r scope before' ps s = .ok es' s' ∧
      List.Forall₂ AlikeEntries (before ++ es) es' := by
  induction h generalizing before before' s with
  | nil => exact ⟨before', s, by unfold evalEntries; rfl, by simpa using hbefore⟩
  | @cons p e ps es he _ ih =>
    obtain ⟨k', s₁, hk, hkey⟩ := he.key.value call r scope s
    obtain ⟨v', s₂, hv, hvalue⟩ := he.value.value call r scope s₁
    obtain ⟨hash, hhash⟩ := hdistinct.hashable e.1 (by simp)
    have hunequal : ∀ e' ∈ before', e'.1.eq k' = false := by
      have hpairs := hdistinct.unequal
      rw [List.map_append, List.pairwise_append] at hpairs
      refine unequal_alike hbefore hkey fun e₀ he₀ => ?_
      exact (hpairs.2.2 e₀.1 (List.mem_map_of_mem he₀) e.1 (by simp)).1
    have happ : before ++ e :: es = (before ++ [e]) ++ es := by simp
    rw [happ] at hdistinct ⊢
    have hmore : List.Forall₂ AlikeEntries (before ++ [e]) (before' ++ [(k', v')]) :=
      List.rel_append hbefore (.cons ⟨hkey, hvalue⟩ .nil)
    obtain ⟨es', s₃, hes, halikes⟩ := ih hmore hdistinct s₂
    refine ⟨es', s₃, ?_, halikes⟩
    have hdiscard : (discard k'.hash : Eval Unit) s₁ = .ok () s₁ := by
      rw [hkey.hash, hhash]
      rfl
    unfold evalEntries
    rw [run_ok hk, run_ok hdiscard, run_ok hv, insertEntry_of_unequal hunequal]
    exact hes

/-- A dict is displayed by the displays of its entries, since no two keys are equal. -/
theorem Displays.dict (id : Identity) (hdistinct : DistinctKeys (es.map (·.1))) :
    Displays (.dict ps) (.dict id es) where
  text := by rw [Expr.text, Value.text_dict, entryTexts_displays h]
  printed := .dict (fun p hp => (printed_displaysEntry h p hp).1)
    fun p hp => (printed_displaysEntry h p hp).2
  value call r scope s := by
    obtain ⟨es', s', hes, halike⟩ := evalEntries_displays h call r scope .nil hdistinct s
    refine ⟨.dict s'.fresh es', { s' with fresh := s'.fresh + 1 }, ?_, .dict halike _ _⟩
    unfold eval
    rw [run_ok hes]
    rfl

end

/-! ## All values -/

/-- A choice for each item is a list of choices. -/
theorem exists_forall₂ {α β : Type} {R : α → β → Prop} {bs : List β} (h : ∀ b ∈ bs, ∃ a, R a b) :
    ∃ as, List.Forall₂ R as bs := by
  induction bs with
  | nil => exact ⟨[], .nil⟩
  | cons b bs ih =>
    rw [List.forall_mem_cons] at h
    obtain ⟨a, ha⟩ := h.1
    obtain ⟨as, has⟩ := ih h.2
    exact ⟨a :: as, .cons ha has⟩

/-- A plain value has an expression that displays it. -/
theorem Value.Plain.displays {v : Value} (h : v.Plain) : ∃ e, Displays e v := by
  induction h with
  | none => exact ⟨_, Displays.literal .none trivial trivial rfl⟩
  | bool b => exact ⟨_, Displays.literal (.bool b) trivial trivial (by cases b <;> rfl)⟩
  | @int n hmin =>
    by_cases hn : n.toInt < 0
    · exact ⟨_, .negative hn hmin⟩
    · exact ⟨_, Displays.literal (.int n) (Int.not_lt.1 hn) trivial rfl⟩
  | @str s hs => exact ⟨_, Displays.literal (.str s) trivial hs rfl⟩
  | tuple _ ih =>
    obtain ⟨es, hes⟩ := exists_forall₂ ih
    exact ⟨_, .tuple hes _⟩
  | list _ ih =>
    obtain ⟨es, hes⟩ := exists_forall₂ ih
    exact ⟨_, .list hes _⟩
  | dict _ _ hdistinct ihkeys ihvalues =>
    obtain ⟨ps, hps⟩ := exists_forall₂ (R := DisplaysEntry) fun e he => by
      obtain ⟨k, hk⟩ := ihkeys e he
      obtain ⟨v, hv⟩ := ihvalues e he
      exact ⟨(k, v), hk, hv⟩
    exact ⟨_, .dict hps _ hdistinct⟩

/-- The text of a plain value is a source for a value of the same type and with the same text that
is equal to it, or it is nested too deeply. -/
theorem evalSource_text {v : Value} (hv : v.Plain) (r : RealmId) (s : Store) :
    (∃ v' s', evalSource r v.text s = .ok v' s' ∧ v'.typeName = v.typeName ∧
      v'.eq v = true ∧ v.eq v' = true ∧ v'.text = v.text) ∨
    ∃ pos, parse v.text = .error ⟨pos, .tooDeep⟩ ∧
      evalSource r v.text s = .error (.syntactic ⟨pos, .tooDeep⟩) s := by
  obtain ⟨e, he⟩ := hv.displays
  have hparse := parse_of_derives he.printed.whole.derives
  rw [he.text] at hparse
  rw [evalSource_eq]
  rcases hparse with hparse | ⟨-, pos, hparse⟩
  · obtain ⟨v', s', hrun, halike⟩ :=
      he.value (callValue ((s.atRest r).callsLeft + 1)) r [] (s.atRest r)
    have hevaluate : evaluate r e s = .ok v' s' := hrun
    refine .inl ⟨v', s', ?_, halike.typeName, ?_, ?_, halike.text⟩
    · rw [hparse]
      dsimp only
      rw [hevaluate]
      rfl
    · rw [halike.eq_left, hv.eq_self]
    · rw [halike.eq_right, hv.eq_self]
  · exact .inr ⟨pos, hparse, by rw [hparse]⟩

/-- A dict with a negative key, the key `"it's"` and a tuple of one string in it. -/
theorem evalSource_text_dict :
    ∃ v : Value, v.text = "\x7b-1: ('a\\n',), \"it's\": None\x7d" ∧ v.Plain ∧
      ∀ (r : RealmId) (s : Store),
        ∃ v' s', evalSource r v.text s = .ok v' s' ∧ v'.typeName = v.typeName ∧
          v'.eq v = true ∧ v.eq v' = true ∧ v'.text = v.text := by
  have hplain :
      (Value.dict 0 [(.int (-1), .tuple 0 [.str "a\n"]), (.str "it's", .none)]).Plain := by
    refine .dict ?_ ?_ ⟨?_, ?_⟩
    · simpa using ⟨.int (by decide), .str (by simp [isControl])⟩
    · simpa using ⟨.tuple (by simpa using .str (by simp [isControl])), .none⟩
    · simp [Value.Hashable, Value.hash]
    · simp [Value.eq, Value.number?, Value.same]
  have htext : Value.text (.dict 0 [(.int (-1), .tuple 0 [.str "a\n"]), (.str "it's", .none)]) =
      "\x7b-1: ('a\\n',), \"it's\": None\x7d" := by
    decide +kernel
  refine ⟨_, htext, hplain, fun r s => (evalSource_text hplain r s).resolve_right ?_⟩
  rintro ⟨pos, hdeep, -⟩
  -- The text is that of an expression, and too short to be nested too deeply.
  obtain ⟨e, he⟩ := hplain.displays
  have hshort : (sourceTokens e.text).length < Parser.maxNesting := by
    rw [he.text, htext]
    decide +kernel
  have hparse := parse_of_derives_short hshort he.printed.whole.derives
  rw [he.text, hdeep] at hparse
  cases hparse

end ExprLang
