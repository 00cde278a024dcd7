import ExprLang.Proofs.Evaluating.Keys
import ExprLang.Proofs.Numbers.Doubles

/-!
# Identity of values

What `is` compares (`same_identity`). Identity is symmetric and transitive, and all values are the
same as themselves but complex numbers, which are the same as nothing: no case of the comparison is
about them, though other numbers are the same if they have the same bits.

The same values are equal if no NaN is in them and their dicts have fit keys (`Value.NanFree`). A
NaN equals nothing, itself included (`Double.beq_self`), and a dict with equal keys would find the
first of them in place of the second; the dicts of a session have fit keys (`Session.nanFree`). That
two containers with one identity are one is what identities are for (`Value.Coherent`), so the proof
comes down to that of equality with itself (`Value.NanFree.eq_self`).
-/

namespace ExprLang

/-! ## NaNs -/

namespace Double

/-- A double equals itself unless it is a NaN. -/
theorem beq_self (x : Double) : (x == x) = !x.isNaN := by
  have hself : (x == x) = true ↔ ¬x.isNaN = true := by
    rw [isNaN_eq_isNaNBits, ← toFloat_eq_nan_iff]
    exact Float.beq_self_iff
  rw [Bool.eq_iff_iff, hself, Bool.not_eq_true, Bool.not_eq_true']

theorem same_iff {x y : Double} : x.same y = true ↔ x = y := by
  obtain ⟨a⟩ := x
  obtain ⟨b⟩ := y
  simp [same]

end Double

/-! ## The same value -/

namespace Value

variable {a b c v : Value}

/-- The number that a container, a function or a method was given when it was made. -/
def identity? : Value → Option Identity
  | .tuple id _ | .list id _ | .dict id _ | .function id _ | .method id _ => some id
  | _ => Option.none

/-- What is the same as another value is that value, or has the identity that it has. -/
theorem same_iff : a.same b = true ↔ a.typeName ≠ .complex ∧
    (a = b ∨ a.typeName = b.typeName ∧ ∃ id, a.identity? = some id ∧ b.identity? = some id) := by
  cases a <;> cases b <;> simp [same, typeName, identity?, Double.same_iff]
  all_goals grind

/-- Only complex numbers are not the same as themselves. -/
theorem same_self_iff : v.same v = true ↔ v.typeName ≠ .complex := by
  simp [same_iff]

theorem same_symm (h : a.same b = true) : b.same a = true :=
  same_comm a b ▸ h

theorem same_trans (hab : a.same b = true) (hbc : b.same c = true) : a.same c = true := by
  obtain ⟨hcomplex, rfl | ⟨htype, id, ha, hb⟩⟩ := same_iff.1 hab
  · exact hbc
  obtain ⟨-, rfl | ⟨htype', id', hb', hc⟩⟩ := same_iff.1 hbc
  · exact hab
  obtain rfl : id = id' := Option.some.inj (hb.symm.trans hb')
  exact same_iff.2 ⟨hcomplex, .inr ⟨htype.trans htype', id, ha, hc⟩⟩

/-! ## Values equal to themselves -/

/-- Whether no NaN is in a value, nor in the items, keys and values that a container holds, and
dicts have fit keys. What functions and methods carry with them does not count. -/
inductive NanFree : Value → Prop
  | none : NanFree .none
  | bool (b : Bool) : NanFree (.bool b)
  | int (n : Int64) : NanFree (.int n)
  | float {x : Double} (h : x.isNaN = false) : NanFree (.float x)
  | complex {z : Complex} (hre : z.re.isNaN = false) (him : z.im.isNaN = false) :
      NanFree (.complex z)
  | str (s : String) : NanFree (.str s)
  | tuple {id : Identity} {items : List Value} (h : ∀ v ∈ items, NanFree v) :
      NanFree (.tuple id items)
  | list {id : Identity} {items : List Value} (h : ∀ v ∈ items, NanFree v) :
      NanFree (.list id items)
  | dict {id : Identity} {entries : List (Value × Value)}
      (hkeys : DistinctKeys (entries.map (·.1))) (hkey : ∀ e ∈ entries, NanFree e.1)
      (hvalue : ∀ e ∈ entries, NanFree e.2) : NanFree (.dict id entries)
  | iterator (id : IteratorId) : NanFree (.iterator id)
  | function (id : Identity) (c : Closure Value) : NanFree (.function id c)
  | builtin (b : Builtin) : NanFree (.builtin b)
  | method (id : Identity) (m : BoundMethod Value) : NanFree (.method id m)

/-- Numbers apart, values without parts equal what they are the same as. -/
theorem eq_of_same_plain (hplain : a.eq b = a.plainEq b) (hnumber : a.number? = Option.none)
    (h : a.same b = true) : a.eq b = true := by
  unfold plainEq at hplain
  rw [hplain, hnumber]
  exact h

theorem NanFree.eq_self (h : v.NanFree) : v.eq v = true := by
  induction h with
  | bool | int => simp [Value.eq, number?, Number.beq]
  | float h => simpa [Value.eq, number?, Number.beq, Number.toFloat, Double.beq_self] using h
  | complex hre him =>
    simp [Value.eq, number?, Number.beq, Number.toComplex, Complex.beq, Double.beq_self, hre, him]
  | tuple _ ih | list _ ih => exact eqItems_self ih
  | dict hkeys _ _ ihkey ihvalue =>
    rw [Value.eq, beq_self_eq_true, Bool.true_and]
    exact @entriesIn_self [] _ ihkey ihvalue hkeys
  | none | str | iterator | function | builtin | method =>
    exact eq_of_same_plain rfl rfl (by simp [same])

/-- Whether a value is a NaN, or a complex number with a part that is one. -/
def isNaN : Value → Bool
  | .float x => x.isNaN
  | .complex z => z.re.isNaN || z.im.isNaN
  | _ => false

theorem nanFree_of_inside (v : Value) (hkeys : v.WellKeyed)
    (hnan : ∀ w, Inside w v → w.isNaN = false) : v.NanFree := by
  have hpart {w : Value} (hw : w ∈ v.parts) : w.WellKeyed ∧ ∀ u, Inside u w → u.isNaN = false :=
    ⟨hkeys.part hw, fun u hu => hnan u (.part hu hw)⟩
  have hself := hnan v (.refl v)
  match v with
  | .tuple id items =>
    exact .tuple fun w hw => nanFree_of_inside w (hpart hw).1 (hpart hw).2
  | .list id items =>
    exact .list fun w hw => nanFree_of_inside w (hpart hw).1 (hpart hw).2
  | .dict id entries =>
    have hentries := forall_mem_dict_parts.1 fun _ hw => hpart hw
    exact .dict (hkeys id entries (.refl _))
      (fun e he => nanFree_of_inside e.1 (hentries e he).1.1 (hentries e he).1.2)
      fun e he => nanFree_of_inside e.2 (hentries e he).2.1 (hentries e he).2.2
  | .float x => exact .float hself
  | .complex z =>
    have hparts : z.re.isNaN = false ∧ z.im.isNaN = false := by simpa [isNaN] using hself
    exact .complex hparts.1 hparts.2
  | .none => exact .none
  | .bool b => exact .bool b
  | .int n => exact .int n
  | .str s => exact .str s
  | .iterator id => exact .iterator id
  | .function id c => exact .function id c
  | .builtin b => exact .builtin b
  | .method id m => exact .method id m
termination_by sizeOf v
decreasing_by
  · have hlt := List.sizeOf_lt_of_mem hw
    simp only [tuple.sizeOf_spec]
    omega
  · have hlt := List.sizeOf_lt_of_mem hw
    simp only [list.sizeOf_spec]
    omega
  · have hlt := (sizeOf_entry_lt he).1
    simp only [dict.sizeOf_spec]
    omega
  · have hlt := (sizeOf_entry_lt he).2
    simp only [dict.sizeOf_spec]
    omega

end Value

/-- Whatever was done to a session, a further line comes to a value that is free of NaNs if no NaN
is inside of it: its dicts have fit keys. -/
theorem Session.nanFree (maxDepth : Nat) (addresses : Addresses) (actions : List Session.Action)
    (line : String) {v : Value} (hnan : ∀ w, Value.Inside w v → w.isNaN = false)
    (hv : ((actions.foldl Session.after (.new maxDepth addresses)).evalLine line).1 =
      .ok (.value v)) : v.NanFree := by
  have hfit : (actions.foldl Session.after (.new maxDepth addresses)).store.Fit Value.WellKeyed :=
    fit_foldl hereditary_wellKeyed actions (fit_new _ maxDepth addresses)
  exact v.nanFree_of_inside ((evalLine_kept hereditary_wellKeyed line hfit).2 v hv) hnan

/-! ## The same values are equal -/

namespace Value

variable {a b : Value}

/-- Whether two values do not share an identity unless they are one value: no number is given out
twice. -/
def Coherent (a b : Value) : Prop :=
  ∀ id, a.identity? = some id → b.identity? = some id → a = b

/-- The same values are one, as far as identities tell what was made from each other. -/
theorem Coherent.eq_of_same (hcoherent : a.Coherent b) (h : a.same b = true) : a = b := by
  obtain ⟨-, heq | ⟨-, id, ha, hb⟩⟩ := same_iff.1 h
  · exact heq
  · exact hcoherent id ha hb

end Value

/-! ## Main statement -/

/-- The operators `is` and `==` compare identities and values. Identity is symmetric and transitive,
and it is reflexive but for complex numbers: all other values are the same as themselves. The same
values are equal if they are free of NaNs. -/
theorem same_identity (a b c : Value) (s : Store) :
    (Eval.holds .same a b s = .ok (a.same b) s ∧ Eval.holds .equal a b s = .ok (a.eq b) s) ∧
    (a.same a = true ↔ a.typeName ≠ .complex) ∧
    (a.same b = true → b.same a = true) ∧
    (a.same b = true → b.same c = true → a.same c = true) ∧
    (a.Coherent b → a.NanFree → a.same b = true → a.eq b = true) := by
  refine ⟨⟨rfl, rfl⟩, Value.same_self_iff, Value.same_symm, Value.same_trans, ?_⟩
  exact fun hcoherent ha h => hcoherent.eq_of_same h ▸ ha.eq_self

/-- A list with a float, a tuple and a dict in it. -/
theorem same_identity_nested :
    let v : Value := .list 2 [.float 1, .tuple 1 [.str "a"], .dict 0 [(.int 1, .none)]]
    v.Coherent v ∧ v.NanFree ∧ v.same v = true ∧ v.eq v = true := by
  intro v
  have hcoherent : v.Coherent v := fun _ _ _ => rfl
  have hkeys : DistinctKeys [Value.int 1] := ⟨by simpa using ⟨_, rfl⟩, List.pairwise_singleton _ _⟩
  have htuple : (Value.tuple 1 [.str "a"]).NanFree := .tuple (by simpa using .str "a")
  have hdict : (Value.dict 0 [(.int 1, .none)]).NanFree :=
    .dict hkeys (by simpa using .int 1) (by simpa using .none)
  have hv : v.NanFree := .list (by simpa using ⟨.float (by decide), htuple, hdict⟩)
  obtain ⟨-, hself, hsymm, htrans, hequal⟩ := same_identity v v v .empty
  have hsame : v.same v = true := htrans (hself.2 nofun) (hsymm (hself.2 nofun))
  exact ⟨hcoherent, hv, hsame, hequal hcoherent hv hsame⟩

/-- The imaginary unit is not the same as itself. -/
theorem not_same_self : ¬∀ v : Value, v.same v = true :=
  fun h => nomatch h (.complex ⟨0, 1⟩)

end ExprLang
