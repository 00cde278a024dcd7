import ExprLang.Builtin.Method
import ExprLang.Proofs.Evaluating.Entering
import ExprLang.Proofs.Running
import ExprLang.Proofs.Values.Slicing

/-!
# Searching a string

`split`, `replace`, `count`, `find` and the operator `in` look for a part of a string, each in a
loop of its own. They find the same occurrences (`searches_agree`): the parts that `split` makes,
joined by the separator, are the string, and joined by something else they are what `replace` makes
of it. There is one part more than `count` counts, or than the limit allows. `find` gives the least
place at which a slice of the string is what is looked for, if `in` says that there is one.

All of them cut the string at the first occurrence and go on with the rest, so each loop is compared
with that of `split` by induction on the number of cuts that it may make. A string has no more
occurrences of a part than characters, unless the part is empty, so from there on a limit is none
(`countAtMost_eq_min`). `find` knows a place by the bytes before it, and `charIndex_append` says how
many characters they are.
-/

namespace ExprLang

variable {sep new pattern before rest cs : List Char} {limit : Nat}

/-! ## The first occurrence -/

/-- A pattern is found at the start of a text if it is a prefix of it. -/
theorem afterStart?_isSome_iff : (afterStart? pattern cs).isSome ↔ pattern <+: cs := by
  rw [Option.isSome_iff_exists]
  exact exists_congr fun rest => afterStart?_eq_some.trans eq_comm

/-- Before the place of a cut the pattern does not begin anywhere. -/
theorem not_prefix_of_cutAt?_eq_some (h : cutAt? pattern cs = some (before, rest)) :
    ∀ i < before.length, ¬pattern <+: cs.drop i := by
  induction cs generalizing before rest with
  | nil =>
    obtain ⟨r, hr, heq⟩ := Option.map_eq_some_iff.1 h
    obtain ⟨rfl, rfl⟩ := Prod.mk.injEq .. ▸ heq
    simp
  | cons c cs ih =>
    rw [cutAt?] at h
    split at h
    · obtain ⟨rfl, rfl⟩ := Prod.mk.injEq .. ▸ Option.some.inj h
      simp
    · next hstart =>
      obtain ⟨⟨b, r⟩, hcut, heq⟩ := Option.map_eq_some_iff.1 h
      obtain ⟨rfl, rfl⟩ := Prod.mk.injEq .. ▸ heq
      rintro (_ | i) hi
      · rw [List.drop_zero, ← afterStart?_isSome_iff, hstart]
        simp
      · exact ih hcut i (by simpa using hi)

theorem byteLength_cons (c : Char) (cs : List Char) :
    byteLength (c :: cs) = c.utf8Size + byteLength cs :=
  rfl

/-- As many characters stand before the byte at which a text begins as stand before the text. -/
theorem charIndex_append (before rest : List Char) :
    charIndex (byteLength before) (before ++ rest) = before.length := by
  induction before with
  | nil => cases rest <;> rfl
  | cons c before ih =>
    have hpos := c.utf8Size_pos
    rw [byteLength_cons, List.cons_append, charIndex, if_neg (by omega), Nat.add_sub_cancel_left,
      ih, List.length_cons]

/-- Where a pattern is found is how long the text in front of it is. -/
theorem indexOf?_eq (pattern cs : List Char) :
    indexOf? pattern cs = (cutAt? pattern cs).map fun cut => cut.1.length := by
  unfold indexOf? byteOffset?
  cases hcut : cutAt? pattern cs with
  | none => rfl
  | some cut =>
    obtain ⟨before, rest⟩ := cut
    simp [cutAt?_eq_some hcut, charIndex_append]

/-- The place that is found is the first at which the pattern begins. -/
theorem first_of_indexOf? {i : Nat} (h : indexOf? pattern cs = some i) :
    i + pattern.length ≤ cs.length ∧ (cs.drop i).take pattern.length = pattern ∧
      ∀ j < i, (cs.drop j).take pattern.length ≠ pattern := by
  rw [indexOf?_eq] at h
  obtain ⟨⟨before, rest⟩, hcut, rfl⟩ := Option.map_eq_some_iff.1 h
  have hfirst := not_prefix_of_cutAt?_eq_some hcut
  have hcs := cutAt?_eq_some hcut
  refine ⟨by simp [hcs], by simp [hcs], fun j hj hslice => hfirst j hj ?_⟩
  exact hslice ▸ List.take_prefix _ _

/-- A pattern occurs if it is found. -/
theorem occursIn_eq_isSome (pattern cs : List Char) :
    occursIn pattern cs = (indexOf? pattern cs).isSome := by
  rw [indexOf?_eq, Option.isSome_map]
  rfl

/-! ## Every occurrence -/

theorem splitAtMost_ne_nil : splitAtMost sep limit cs ≠ [] := by
  cases limit with
  | zero => simp [splitAtMost]
  | succ limit =>
    rw [splitAtMost]
    split <;> simp

/-- One more part in front, with the glue behind it. -/
theorem intercalate_cons (glue part : List Char) {parts : List (List Char)} (h : parts ≠ []) :
    glue.intercalate (part :: parts) = part ++ glue ++ glue.intercalate parts := by
  obtain ⟨p, ps, rfl⟩ := List.exists_cons_of_ne_nil h
  simp [List.intercalate]

/-- The parts of a text with the separator between them are the text. -/
theorem intercalate_splitAtMost (sep : List Char) (limit : Nat) (cs : List Char) :
    sep.intercalate (splitAtMost sep limit cs) = cs := by
  induction limit generalizing cs with
  | zero => simp [splitAtMost, List.intercalate]
  | succ limit ih =>
    rw [splitAtMost]
    split
    · simp [List.intercalate]
    · next hcut => rw [intercalate_cons _ _ splitAtMost_ne_nil, ih, ← cutAt?_eq_some hcut]

/-- Replacing puts something else between the parts. -/
theorem exchange_eq (old new : List Char) (limit : Nat) (cs : List Char) :
    exchange old new limit cs = new.intercalate (splitAtMost old limit cs) := by
  induction limit generalizing cs with
  | zero => simp [exchange, splitAtMost, List.intercalate]
  | succ limit ih =>
    rw [exchange, splitAtMost]
    split
    · simp [List.intercalate]
    · rw [intercalate_cons _ _ splitAtMost_ne_nil, ih]

/-- There is one part more than there are cuts. -/
theorem length_splitAtMost (sep : List Char) (limit : Nat) (cs : List Char) :
    (splitAtMost sep limit cs).length = countAtMost sep limit cs + 1 := by
  induction limit generalizing cs with
  | zero => rfl
  | succ limit ih =>
    rw [splitAtMost, countAtMost]
    split
    · rfl
    · rw [List.length_cons, ih]

theorem countAtMost_le (sep : List Char) (limit : Nat) (cs : List Char) :
    countAtMost sep limit cs ≤ limit := by
  induction limit generalizing cs with
  | zero => rfl
  | succ limit ih =>
    rw [countAtMost]
    split
    · omega
    · exact Nat.succ_le_succ (ih _)

/-- With a limit, those occurrences are counted that it allows. -/
theorem countAtMost_eq_min (hsep : sep ≠ []) {fuel : Nat} (hfuel : cs.length ≤ fuel) :
    countAtMost sep limit cs = min limit (countAtMost sep fuel cs) := by
  induction limit generalizing cs fuel with
  | zero => simp [countAtMost]
  | succ limit ih =>
    cases hcut : cutAt? sep cs with
    | none => cases fuel <;> simp [countAtMost, hcut]
    | some cut =>
      obtain ⟨before, rest⟩ := cut
      have hlt := length_lt_of_cutAt? hcut hsep
      obtain ⟨fuel, rfl⟩ : ∃ n, fuel = n + 1 := ⟨fuel - 1, by omega⟩
      simp only [countAtMost, hcut]
      rw [ih (show rest.length ≤ fuel by omega), Nat.add_min_add_right]

/-- All occurrences are counted, up to the limit. -/
theorem countAtMost_eq_countOf (hsep : sep ≠ []) (limit : Nat) (cs : List Char) :
    countAtMost sep limit cs = min limit (countOf sep cs) :=
  countAtMost_eq_min hsep le_rfl

/-- A limit that is no less than the length of the text is none. -/
theorem splitAtMost_eq_splitOn (hsep : sep ≠ []) (hlimit : cs.length ≤ limit) :
    splitAtMost sep limit cs = splitOn sep cs := by
  unfold splitOn
  generalize hfuel : cs.length = fuel at hlimit
  replace hfuel : cs.length ≤ fuel := hfuel.le
  induction fuel generalizing cs limit with
  | zero =>
    obtain rfl := List.eq_nil_of_length_eq_zero (Nat.le_zero.1 hfuel)
    have hnone : cutAt? sep [] = none := by
      cases sep with
      | nil => exact absurd rfl hsep
      | cons => rfl
    cases limit <;> simp [splitAtMost, hnone]
  | succ fuel ih =>
    obtain ⟨limit, rfl⟩ : ∃ n, limit = n + 1 := ⟨limit - 1, by omega⟩
    rw [splitAtMost, splitAtMost]
    split
    · rfl
    · next hcut =>
      have hlt := length_lt_of_cutAt? hcut hsep
      rw [ih (by omega) (by omega)]

/-! ## Runs -/

/-- The limit that a list of further arguments sets on cuts or replacements, none if it is empty. -/
inductive SetsLimit : List Value → Option Nat → Prop
  | none : SetsLimit [] none
  | some {v : Value} {k : Int64} (hv : v.int? = some k) (hk : 0 ≤ k.toInt) :
      SetsLimit [v] (some k.toInt.toNat)

/-- The parts of a text that a limit leaves. -/
def partsOf (limit : Option Nat) (sep cs : List Char) : List (List Char) :=
  match limit with
  | some limit => splitAtMost sep limit cs
  | none => splitOn sep cs

/-- A limit that is not negative is as it is given. -/
theorem limitOf_eq {v : Value} {k : Int64} (hv : v.int? = some k) (hk : 0 ≤ k.toInt) :
    limitOf (some v) = .ok (some k.toInt.toNat) := by
  have hinteger : v.asInteger = .ok k := by
    unfold Value.asInteger
    rw [hv]
  have hnot : ¬k < 0 := by
    rw [Int64.lt_iff_toInt_lt, Int64.toInt_zero]
    omega
  show v.asInteger.map _ = _
  rw [hinteger, Except.map, if_neg hnot]

section

variable {args : List Value} {limit : Option Nat} (hlimit : SetsLimit args limit)

include hlimit

theorem limitOf_of_setsLimit : limitOf args.head? = .ok limit := by
  cases hlimit with
  | none => rfl
  | some hv hk => exact limitOf_eq hv hk

theorem splitParts_eq (m : Method) (cs : List Char) {sep : String} (hsep : sep.toList ≠ []) :
    splitParts m cs (.str sep) args.head? = .ok (partsOf limit sep.toList cs) := by
  have hne : sep.toList.isEmpty = false := List.isEmpty_eq_false_iff.2 hsep
  unfold splitParts partsOf
  rw [limitOf_of_setsLimit hlimit]
  cases limit <;> simp [Value.isNone, Method.asText, bind, Except.bind, hne] <;> rfl

theorem run_split {sep : String} (hsep : sep.toList ≠ []) (s : String) (r : RealmId) (st : Store) :
    Method.split.run r (.str s) (.ofList (.str sep :: args)) st =
      .ok (.list st.fresh ((partsOf limit sep.toList s.toList).map Value.ofChars))
        { st with fresh := st.fresh + 1 } := by
  have hrun : Method.split.run r (.str s) (.ofList (.str sep :: args)) st =
      (do
        let parts ← liftM (splitParts .split s.toList (.str sep) args.head?)
        Eval.newList (parts.map Value.ofChars) : Eval Value) st := by
    cases hlimit <;> rfl
  rw [hrun, splitParts_eq hlimit .split _ hsep]
  rfl

theorem run_replace {old : String} (hold : old.toList ≠ []) (s new : String) (r : RealmId)
    (st : Store) : Method.replace.run r (.str s) (.ofList (.str old :: .str new :: args)) st =
      .ok (.ofChars (new.toList.intercalate (partsOf limit old.toList s.toList))) st := by
  have hrun : Method.replace.run r (.str s) (.ofList (.str old :: .str new :: args)) st =
      (do
        match ← limitOf args.head? with
        | some limit => return .ofChars (replaceAtMost old.toList new.toList limit s.toList)
        | none => return .ofChars (replaceAll old.toList new.toList s.toList) : Eval Value) st := by
    cases hlimit <;> rfl
  have hne : old.toList.isEmpty = false := List.isEmpty_eq_false_iff.2 hold
  rw [hrun, limitOf_of_setsLimit hlimit]
  cases limit with
  | some limit =>
    show EStateM.Result.ok (Value.ofChars (replaceAtMost _ _ _ _)) st = _
    rw [replaceAtMost, hne, exchange_eq]
    rfl
  | none =>
    show EStateM.Result.ok (Value.ofChars (replaceAll _ _ _)) st = _
    rw [replaceAll, replaceAtMost, hne, exchange_eq, splitAtMost_eq_splitOn hold (by omega)]
    rfl

end

theorem joinParts_eq {r : RealmId} {st : Store} (hquiet : (st.realm r).interrupted = false)
    (front parts : List (List Char)) :
    joinParts r front (parts.map Value.ofChars) st = .ok (front.reverse ++ parts) st := by
  induction parts generalizing front with
  | nil =>
    rw [List.append_nil]
    rfl
  | cons part parts ih =>
    have hpoll : Eval.poll r st = .ok () st := by
      rw [Eval.poll_eq, hquiet]
      rfl
    have hnext := ih (part :: front)
    rw [List.reverse_cons, List.append_assoc, List.singleton_append] at hnext
    show (Eval.poll r >>= fun _ =>
      joinParts r ((String.ofList part).toList :: front) (parts.map Value.ofChars)) st = _
    rw [run_ok hpoll, String.toList_ofList, hnext]

theorem run_join {r : RealmId} {st : Store} (hquiet : (st.realm r).interrupted = false)
    (glue : String) (id : Identity) (parts : List (List Char)) :
    Method.join.run r (.str glue) (.ofList [.list id (parts.map Value.ofChars)]) st =
      .ok (.ofChars (glue.toList.intercalate parts)) st := by
  show (joinParts r [] (parts.map Value.ofChars) >>= fun parts =>
    pure (Value.ofChars (glue.toList.intercalate parts)) : Eval Value) st = _
  rw [run_ok (joinParts_eq hquiet [] parts)]
  rfl

theorem run_count {sep : String} (hsep : sep.toList ≠ []) (s : String) (r : RealmId) (st : Store) :
    Method.count.run r (.str s) (.ofList [.str sep]) st =
      .ok (.int (Int64.ofNat (countOf sep.toList s.toList))) st := by
  have hne : sep.toList.isEmpty = false := List.isEmpty_eq_false_iff.2 hsep
  show EStateM.Result.ok (Value.int (Int64.ofNat (if sep.toList.isEmpty then _ else _))) st = _
  rw [hne]
  rfl

theorem run_find (s sub : String) (r : RealmId) (st : Store) :
    Method.find.run r (.str s) (.ofList [.str sub]) st =
      .ok (.int ((indexOf? sub.toList s.toList).elim (-1) Int64.ofNat)) st := by
  show (match indexOf? sub.toList s.toList with
    | some i => pure (Value.int (Int64.ofNat i))
    | none => pure (Value.int (-1)) : Eval Value) st = _
  cases indexOf? sub.toList s.toList <;> rfl

/-! ## Slices -/

/-- Between two places, a slice has the items there. -/
theorem isSlice_middle {α : Type} (items : List α) {i n : Nat} (h : i + n ≤ items.length) :
    IsSlice items (startPlace items.length 1 (some i)) (stopPlace items.length 1 (some (i + n))) 1
      ((items.drop i).take n) := by
  have hstart : startPlace items.length 1 (some i) = i := by
    simp only [startPlace, Option.elim_some, boundPlace, if_pos Int.one_pos]
    omega
  have hstop : stopPlace items.length 1 (some (i + n)) = i + n := by
    simp only [stopPlace, Option.elim_some, boundPlace, if_pos Int.one_pos]
    omega
  have hlength : ((items.drop i).take n).length = n := by
    rw [List.length_take, List.length_drop]
    omega
  rw [hstart, hstop]
  refine ⟨fun j hj => ⟨i + j, by omega, ?_, by omega, ?_⟩, ?_⟩
  · unfold IsBefore
    rw [if_pos Int.one_pos]
    omega
  · rw [List.getElem?_take_of_lt (by omega), List.getElem?_drop]
  · unfold IsBefore
    rw [if_pos Int.one_pos, hlength]
    omega

/-- A slice of a string between two places is a given string if the characters there are. -/
theorem getSlice_eq_iff {s sub : String} {i stop : Int64} {place : Nat} (hi : i.toInt = place)
    (hstop : stop.toInt = i.toInt + sub.length) (hle : place + sub.length ≤ s.length)
    (id : Identity) : Value.getSlice id (.str s) (.int i) (.int stop) .none = .ok (.str sub) ↔
      (s.toList.drop place).take sub.toList.length = sub.toList := by
  rw [← String.length_toList, ← String.length_toList] at hle
  have hlower : (Value.int i).sliceBound = .ok (some (place : Int)) := by
    rw [← hi]
    rfl
  have hupper : (Value.int stop).sliceBound = .ok (some (place + sub.toList.length : Int)) := by
    rw [← hi, String.length_toList, ← hstop]
    rfl
  obtain ⟨taken, hget, htaken⟩ := getSlice_str hlower hupper sliceBound_none one_ne_zero s id
    (stepsFit_of_le_one le_rfl)
  rw [hget, htaken.unique (isSlice_middle s.toList hle), Except.ok.injEq, Value.str.injEq,
    ← String.toList_inj, String.toList_ofList]

/-- Whether `i` is the least place of a string at which a slice is `sub`. -/
structure IsFirstSlice (s sub : String) (i : Int64) : Prop where
  slice : ∃ stop : Int64, stop.toInt = i.toInt + sub.length ∧
    ∀ id, Value.getSlice id (.str s) (.int i) (.int stop) .none = .ok (.str sub)
  least : ∀ j stop : Int64, 0 ≤ j.toInt → j.toInt < i.toInt → stop.toInt = j.toInt + sub.length →
    ∀ id, Value.getSlice id (.str s) (.int j) (.int stop) .none ≠ .ok (.str sub)

/-- The index that is found is that of the first slice. -/
theorem isFirstSlice_of_indexOf? {s sub : String} (hlen : s.length < 2 ^ 63) {i : Nat}
    (h : indexOf? sub.toList s.toList = some i) :
    (Int64.ofNat i).toInt = i ∧ IsFirstSlice s sub (Int64.ofNat i) := by
  obtain ⟨hle, hslice, hleast⟩ := first_of_indexOf? h
  rw [String.length_toList, String.length_toList] at hle
  have hi : (Int64.ofNat i).toInt = i := Int64.toInt_ofNat_of_lt (by omega)
  have hstop : (Int64.ofNat (i + sub.length)).toInt = (Int64.ofNat i).toInt + sub.length := by
    rw [Int64.toInt_ofNat_of_lt (by omega), hi]
    rfl
  refine ⟨hi, ⟨_, hstop, fun id => (getSlice_eq_iff hi hstop hle id).2 hslice⟩, ?_⟩
  intro j stop hj hlt hend id heq
  obtain ⟨place, hplace⟩ := Int.eq_ofNat_of_zero_le hj
  exact hleast place (by omega) ((getSlice_eq_iff hplace hend (by omega) id).1 heq)

/-- A text is in another if it is found. -/
theorem holds_isIn (s sub : String) (st : Store) :
    Eval.holds .isIn (.str sub) (.str s) st =
      .ok (indexOf? sub.toList s.toList).isSome st := by
  have hrun : Eval.holds .isIn (.str sub) (.str s) st =
      .ok (occursIn sub.toList s.toList == true) st := rfl
  rw [hrun, beq_true, occursIn_eq_isSome]

/-! ## Main statement -/

/-- What `split` makes of a string, and what `join` makes of that: with further arguments that set a
limit, `split` gives the parts; joined by the separator, they are the string, and joined by anything
else, what `replace` makes of the string under the same limit. -/
structure SplitsInto (r : RealmId) (s sep : String) (args parts : List Value) : Prop where
  split : ∀ st, Method.split.run r (.str s) (.ofList (.str sep :: args)) st =
    .ok (.list st.fresh parts) { st with fresh := st.fresh + 1 }
  join : ∀ {st : Store}, (st.realm r).interrupted = false → ∀ id,
    Method.join.run r (.str sep) (.ofList [.list id parts]) st = .ok (.str s) st
  replace : ∀ {st : Store}, (st.realm r).interrupted = false → ∀ (id : Identity) (new : String),
    ∃ text, Method.replace.run r (.str s) (.ofList (.str sep :: .str new :: args)) st =
        .ok (.str text) st ∧
      Method.join.run r (.str new) (.ofList [.list id parts]) st = .ok (.str text) st

/-- A split at a separator goes into its parts. -/
theorem splitsInto {args : List Value} {limit : Option Nat} (hlimit : SetsLimit args limit)
    {sep : String} (hsep : sep.toList ≠ []) (r : RealmId) (s : String) :
    SplitsInto r s sep args ((partsOf limit sep.toList s.toList).map Value.ofChars) where
  split := run_split hlimit hsep s r
  join := by
    intro st hquiet id
    have hwhole : sep.toList.intercalate (partsOf limit sep.toList s.toList) = s.toList := by
      cases limit <;> exact intercalate_splitAtMost _ _ _
    rw [run_join hquiet, hwhole, Value.ofChars, String.ofList_toList]
  replace := fun hquiet id new =>
    ⟨_, run_replace hlimit hsep s new r _, run_join hquiet new id _⟩

/-- The methods of a string that look for a part of it agree. Split by a separator, it has one part
more than the separator is counted, or than the limit allows, and joining the parts undoes the
splitting or does what replacing does. A part is in the string if and only if it is found, and then
at the least place at which a slice of the string is that part. -/
theorem searches_agree (s : String) {sep : String} (hsep : sep ≠ "") (r : RealmId) :
    ∃ (n : Nat) (c : Int64),
      (∀ st, Method.count.run r (.str s) (.ofList [.str sep]) st = .ok (.int c) st) ∧
      (s.length < 2 ^ 63 → c.toInt = n) ∧
      (∃ parts, SplitsInto r s sep [] parts ∧ parts.length = n + 1) ∧
      (∀ {v : Value} {k : Int64}, v.int? = some k → 0 ≤ k.toInt →
        ∃ parts, SplitsInto r s sep [v] parts ∧ parts.length = min k.toInt n + 1) ∧
      ∀ (sub : String) (st : Store), s.length < 2 ^ 63 → ∃ (found : Bool) (i : Int64),
        Eval.holds .isIn (.str sub) (.str s) st = .ok found st ∧
        Method.find.run r (.str s) (.ofList [.str sub]) st = .ok (.int i) st ∧
        (found = true ↔ 0 ≤ i.toInt) ∧ (found = true → IsFirstSlice s sub i) := by
  have hne : sep.toList ≠ [] := fun h => hsep (String.toList_eq_nil_iff.1 h)
  refine ⟨countOf sep.toList s.toList, Int64.ofNat (countOf sep.toList s.toList),
    run_count hne s r, ?count, ?all, ?some, ?find⟩
  case count =>
    intro hlen
    have hle : countOf sep.toList s.toList ≤ s.length := by
      rw [← String.length_toList]
      exact countAtMost_le _ _ _
    exact Int64.toInt_ofNat_of_lt (by omega)
  case all =>
    refine ⟨_, splitsInto .none hne r s, ?_⟩
    rw [List.length_map]
    exact length_splitAtMost _ _ _
  case some =>
    intro v k hv hk
    refine ⟨_, splitsInto (.some hv hk) hne r s, ?_⟩
    have hparts := length_splitAtMost sep.toList k.toInt.toNat s.toList
    rw [countAtMost_eq_countOf hne] at hparts
    rw [List.length_map, partsOf, hparts]
    omega
  case find =>
    intro sub st hlen
    refine ⟨_, _, holds_isIn s sub st, run_find s sub r st, ?_⟩
    cases hindex : indexOf? sub.toList s.toList with
    | none => exact ⟨by decide, by simp⟩
    | some i =>
      obtain ⟨hi, hfirst⟩ := isFirstSlice_of_indexOf? hlen hindex
      refine ⟨iff_of_true rfl ?_, fun _ => hfirst⟩
      show 0 ≤ (Int64.ofNat i).toInt
      omega

/-- A part that overlaps itself, in a string of more bytes than characters. -/
theorem searches_agree_overlapping : "aa" ≠ "" ∧ ∃ parts,
    SplitsInto 0 "éaaaa" "aa" [.int 1] parts ∧ parts.length = 2 ∧
    Method.join.run 0 (.str "aa") (.ofList [.list 0 parts]) .empty = .ok (.str "éaaaa") .empty ∧
    Method.find.run 0 (.str "éaaaa") (.ofList [.str "aa"]) .empty = .ok (.int 1) .empty ∧
    IsFirstSlice "éaaaa" "aa" 1 := by
  have hne : "aa" ≠ "" := by decide
  have hlen : "éaaaa".length < 2 ^ 63 := by decide
  obtain ⟨n, c, hcount, hn, -, hsome, hfind⟩ := searches_agree "éaaaa" hne 0
  obtain rfl : c = 2 := Value.int.inj (ok_unique (hcount .empty) rfl)
  obtain rfl : n = 2 := by
    have htwo : (2 : Int64).toInt = 2 := by decide
    have hcounted := hn hlen
    omega
  obtain ⟨parts, hsplits, hlength⟩ := hsome (rfl : (Value.int 1).int? = some 1) (by decide)
  obtain ⟨found, i, hin, hrun, -, hfirst⟩ := hfind "aa" .empty hlen
  obtain rfl : i = 1 := Value.int.inj (ok_unique hrun rfl)
  obtain rfl : found = true := ok_unique hin rfl
  exact ⟨hne, parts, hsplits, Int.ofNat_inj.1 hlength, hsplits.join rfl 0, hrun, hfirst rfl⟩

end ExprLang
