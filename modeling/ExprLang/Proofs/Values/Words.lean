import ExprLang.Proofs.Printing.Lexing
import ExprLang.Proofs.Values.Searching
import Mathlib.Data.List.TakeWhile

/-!
# Splitting a string at its blanks

`split_words` : without a separator, `split` gives the longest runs of characters that are not blank
(`AreRuns`), in order. With a limit it gives that many of them, and then, if one is left, the string
from where the next one starts, with the blanks at its end.

The runs are told by where they start and stop in the string. A string is blank, or it has blanks, a
word, and then a text that starts with a blank if it is not empty; the runs are those of that text,
moved, and the word (`AreRuns.cons`). The loop of `split` cuts the string up in the same way.
-/

namespace ExprLang

variable {blank : Char → Bool} {front gap word rest cs : List Char} {runs : List (Nat × Nat)}
  {i j limit : Nat}

/-! ## Runs -/

/-- The characters from `i` up to `j` are not blank, and on either side of them there is a blank or
none. -/
structure IsRun (blank : Char → Bool) (cs : List Char) (i j : Nat) : Prop where
  nonempty : i < j
  within : j ≤ cs.length
  inside : ∀ k, i ≤ k → k < j → ∀ c ∈ cs[k]?, blank c = false
  before : ∀ k, k + 1 = i → ∀ c ∈ cs[k]?, blank c = true
  after : ∀ c ∈ cs[j]?, blank c = true

theorem IsRun.start_lt (h : IsRun blank cs i j) : i < cs.length :=
  Nat.lt_of_lt_of_le h.nonempty h.within

/-- A run begins with a character that is not blank. -/
theorem IsRun.first (h : IsRun blank cs i j) : ∃ c, cs[i]? = some c ∧ blank c = false :=
  ⟨_, List.getElem?_eq_getElem h.start_lt,
    h.inside i le_rfl h.nonempty _ (List.getElem?_eq_getElem h.start_lt)⟩

/-- A blank text has no runs. -/
theorem not_isRun_of_blank (h : ∀ c ∈ cs, blank c = true) : ¬IsRun blank cs i j := by
  intro hrun
  obtain ⟨c, hc, hfirst⟩ := hrun.first
  simp [h c (List.mem_of_getElem? hc)] at hfirst

/-- A text that starts with a blank has no run at its start. -/
theorem IsRun.start_pos (hrest : ∀ c ∈ rest.head?, blank c = true) (h : IsRun blank rest i j) :
    0 < i := by
  obtain ⟨c, hc, hfirst⟩ := h.first
  refine Nat.pos_of_ne_zero fun hzero => ?_
  rw [hzero, ← List.head?_eq_getElem?] at hc
  simp [hrest c hc] at hfirst

theorem getElem?_add_length (front rest : List Char) (k : Nat) :
    (front ++ rest)[k + front.length]? = rest[k]? := by
  rw [List.getElem?_append_right (Nat.le_add_left _ _), Nat.add_sub_cancel]

/-- The runs of a text that starts with a blank are runs of it behind another text. -/
theorem isRun_append_iff (hrest : ∀ c ∈ rest.head?, blank c = true) :
    IsRun blank (front ++ rest) (i + front.length) (j + front.length) ↔ IsRun blank rest i j := by
  constructor
  · intro h
    have hwithin := h.within
    rw [List.length_append] at hwithin
    refine ⟨Nat.lt_of_add_lt_add_right h.nonempty, by omega, fun k hi hj => ?_, fun k hi => ?_, ?_⟩
    · rw [← getElem?_add_length front]
      exact h.inside _ (by omega) (by omega)
    · rw [← getElem?_add_length front]
      exact h.before _ (by omega)
    · rw [← getElem?_add_length front]
      exact h.after
  · intro h
    have hwithin := h.within
    have hpos := h.start_pos hrest
    have hnonempty := h.nonempty
    refine ⟨by omega, by rw [List.length_append]; omega, fun k hi hj => ?_, fun k hi => ?_, ?_⟩
    · obtain ⟨k, rfl⟩ := Nat.exists_eq_add_of_le' (show front.length ≤ k by omega)
      rw [getElem?_add_length]
      exact h.inside k (by omega) (by omega)
    · obtain ⟨k, rfl⟩ := Nat.exists_eq_add_of_le' (show front.length ≤ k by omega)
      rw [getElem?_add_length]
      exact h.before k (by omega)
    · rw [getElem?_add_length]
      exact h.after

/-- A run does not start inside of another one. -/
theorem IsRun.start_le {i' j' : Nat} (h : IsRun blank cs i j) (h' : IsRun blank cs i' j')
    (hlt : i' < j) : i' ≤ i := by
  refine Nat.le_of_not_lt fun hi => ?_
  obtain ⟨k, rfl⟩ : ∃ k, i' = k + 1 := ⟨i' - 1, by omega⟩
  have hk : k < cs.length := by
    have := h.within
    omega
  have hblank := h'.before k rfl _ (List.getElem?_eq_getElem hk)
  simp [h.inside k (by omega) (by omega) _ (List.getElem?_eq_getElem hk)] at hblank

/-- A run does not stop inside of another one. -/
theorem IsRun.stop_le {i' j' : Nat} (h : IsRun blank cs i j) (h' : IsRun blank cs i' j')
    (hlt : i < j') : j ≤ j' := by
  refine Nat.le_of_not_lt fun hj => ?_
  have hlength : j' < cs.length := Nat.lt_of_lt_of_le hj h.within
  have hblank := h'.after _ (List.getElem?_eq_getElem hlength)
  simp [h.inside j' hlt.le hj _ (List.getElem?_eq_getElem hlength)] at hblank

/-- Runs that meet are the same. -/
theorem IsRun.eq_of_meet {i' j' : Nat} (h : IsRun blank cs i j) (h' : IsRun blank cs i' j')
    (hlt : i' < j) (hlt' : i < j') : i = i' ∧ j = j' :=
  ⟨Nat.le_antisymm (h'.start_le h hlt') (h.start_le h' hlt),
    Nat.le_antisymm (h.stop_le h' hlt') (h'.stop_le h hlt)⟩

/-! ## A word and the runs behind it -/

/-- Blanks, and a word that they and the text behind it set apart. -/
structure StartsWithWord (blank : Char → Bool) (gap word rest : List Char) : Prop where
  blanks : ∀ c ∈ gap, blank c = true
  letters : ∀ c ∈ word, blank c = false
  ne_nil : word ≠ []
  stops : ∀ c ∈ rest.head?, blank c = true

section

variable (h : StartsWithWord blank gap word rest)

include h

/-- The first word is a run. -/
theorem StartsWithWord.isRun :
    IsRun blank (gap ++ word ++ rest) gap.length (gap ++ word).length := by
  have hpos := List.length_pos_iff.2 h.ne_nil
  refine ⟨by simpa using hpos, by simp, fun k hi hj c hc => ?_, fun k hi c hc => ?_, fun c hc => ?_⟩
  · rw [List.getElem?_append_left hj, List.getElem?_append_right hi] at hc
    exact h.letters c (List.mem_of_getElem? hc)
  · rw [List.append_assoc, List.getElem?_append_left (by omega)] at hc
    exact h.blanks c (List.mem_of_getElem? hc)
  · rw [List.getElem?_append_right le_rfl, Nat.sub_self] at hc
    exact h.stops c (by rwa [List.head?_eq_getElem?])

/-- The first run is the word, and the others are those of the text behind it. -/
theorem StartsWithWord.isRun_iff : IsRun blank (gap ++ word ++ rest) i j ↔
    (i = gap.length ∧ j = (gap ++ word).length) ∨
      ∃ i' j', IsRun blank rest i' j' ∧ i = i' + (gap ++ word).length ∧
        j = j' + (gap ++ word).length := by
  constructor
  · intro hrun
    rcases Nat.lt_or_ge i (gap ++ word).length with hlt | hge
    · have hi : gap.length ≤ i := by
        obtain ⟨c, hc, hfirst⟩ := hrun.first
        refine Nat.le_of_not_lt fun hgap => ?_
        rw [List.getElem?_append_left hlt, List.getElem?_append_left hgap] at hc
        simp [h.blanks c (List.mem_of_getElem? hc)] at hfirst
      exact .inl (hrun.eq_of_meet h.isRun (Nat.lt_of_le_of_lt hi hrun.nonempty) hlt)
    · obtain ⟨i, rfl⟩ := Nat.exists_eq_add_of_le' hge
      obtain ⟨j, rfl⟩ := Nat.exists_eq_add_of_le' (hge.trans hrun.nonempty.le)
      exact .inr ⟨i, j, (isRun_append_iff h.stops).1 hrun, rfl, rfl⟩
  · rintro (⟨rfl, rfl⟩ | ⟨i', j', hrun, rfl, rfl⟩)
    · exact h.isRun
    · exact (isRun_append_iff h.stops).2 hrun

end

/-- All the runs of a text, in order. -/
structure AreRuns (blank : Char → Bool) (cs : List Char) (runs : List (Nat × Nat)) : Prop where
  exact : ∀ i j, (i, j) ∈ runs ↔ IsRun blank cs i j
  ordered : runs.Pairwise fun p q => p.2 < q.1

/-- Runs behind a text of a given length. -/
def moveRuns (n : Nat) (runs : List (Nat × Nat)) : List (Nat × Nat) :=
  runs.map fun p => (p.1 + n, p.2 + n)

/-- A blank text has no runs. -/
theorem AreRuns.nil (h : ∀ c ∈ cs, blank c = true) : AreRuns blank cs [] where
  exact _ _ := iff_of_false List.not_mem_nil (not_isRun_of_blank h)
  ordered := .nil

/-- The runs of a text are its first word and the runs of the rest. -/
theorem AreRuns.cons (h : StartsWithWord blank gap word rest) (hruns : AreRuns blank rest runs) :
    AreRuns blank (gap ++ word ++ rest)
      ((gap.length, (gap ++ word).length) :: moveRuns (gap ++ word).length runs) where
  exact i j := by
    simp only [h.isRun_iff, ← hruns.exact, List.mem_cons, Prod.mk.injEq, moveRuns, List.mem_map,
      Prod.exists]
    grind
  ordered := by
    rw [List.pairwise_cons, moveRuns, List.pairwise_map]
    refine ⟨?_, hruns.ordered.imp fun hlt => by simpa using hlt⟩
    simp only [List.forall_mem_map, Prod.forall]
    intro i j hmem
    have hpos := ((hruns.exact i j).1 hmem).start_pos h.stops
    omega

/-- A text is blank, or starts with a word. -/
theorem blank_or_startsWithWord (blank : Char → Bool) (cs : List Char) :
    (∀ c ∈ cs, blank c = true) ∨ ∃ gap word rest, StartsWithWord blank gap word rest ∧
      cs = gap ++ word ++ rest := by
  cases hdrop : cs.dropWhile blank with
  | nil => exact .inl (List.dropWhile_eq_nil_iff.1 hdrop)
  | cons c more =>
    have hc : blank c = false := by
      have := List.head?_dropWhile_not blank cs
      simpa [hdrop] using this
    refine .inr ⟨cs.takeWhile blank, c :: more.takeWhile (!blank ·), more.dropWhile (!blank ·),
      ⟨fun _ hd => List.all_eq_true.1 List.all_takeWhile _ hd, ?_, List.cons_ne_nil _ _, ?_⟩, ?_⟩
    · refine List.forall_mem_cons.2 ⟨hc, fun d hd => ?_⟩
      simpa using List.all_eq_true.1 List.all_takeWhile d hd
    · intro d hd
      have := List.head?_dropWhile_not (!blank ·) more
      simpa [show (more.dropWhile (!blank ·)).head? = some d from hd] using this
    · rw [List.append_assoc, List.cons_append, List.takeWhile_append_dropWhile, ← hdrop,
        List.takeWhile_append_dropWhile]

/-! ## Splitting -/

/-- The characters of a run. -/
def runText (cs : List Char) (p : Nat × Nat) : List Char :=
  (cs.drop p.1).take (p.2 - p.1)

/-- The texts of the first runs, as many as the limit says, and then the rest from the next run
on. -/
def runParts (limit : Nat) (cs : List Char) (runs : List (Nat × Nat)) : List (List Char) :=
  (runs.take limit).map (runText cs) ++ (runs[limit]?.map fun p => cs.drop p.1).toList

theorem drop_add_length (front rest : List Char) (n : Nat) :
    (front ++ rest).drop (n + front.length) = rest.drop n := by
  rw [Nat.add_comm, List.drop_length_add_append]

/-- A blank text has no words. -/
theorem wordsAtMost_of_blank (h : ∀ c ∈ cs, blank c = true) (limit : Nat) :
    wordsAtMost blank limit cs = [] := by
  rw [wordsAtMost, List.dropWhile_eq_nil_iff.2 h]

section

variable (h : StartsWithWord blank gap word rest)

include h

/-- At the limit, all that is left is one part. -/
theorem StartsWithWord.wordsAtMost_zero :
    wordsAtMost blank 0 (gap ++ word ++ rest) = [word ++ rest] := by
  obtain ⟨c, more, rfl⟩ := List.exists_cons_of_ne_nil h.ne_nil
  have hdrop : (gap ++ (c :: (more ++ rest))).dropWhile blank = c :: (more ++ rest) :=
    dropWhile_append_stop h.blanks (by simpa using h.letters c)
  rw [wordsAtMost, List.append_assoc, List.cons_append, hdrop]

/-- Below the limit, the first word is a part of its own. -/
theorem StartsWithWord.wordsAtMost_succ (limit : Nat) :
    wordsAtMost blank (limit + 1) (gap ++ word ++ rest)
      = word :: wordsAtMost blank limit rest := by
  obtain ⟨c, more, rfl⟩ := List.exists_cons_of_ne_nil h.ne_nil
  have hdrop : (gap ++ (c :: (more ++ rest))).dropWhile blank = c :: (more ++ rest) :=
    dropWhile_append_stop h.blanks (by simpa using h.letters c)
  have hmore : ∀ d ∈ more, (!blank d) = true := fun d hd => by
    simpa using h.letters d (List.mem_cons_of_mem _ hd)
  have hstops : ∀ d ∈ rest.head?, (!blank d) = false := fun d hd => by
    simpa using h.stops d hd
  rw [wordsAtMost, List.append_assoc, List.cons_append, hdrop]
  simp only [takeWhile_append_stop hmore hstops, dropWhile_append_stop hmore hstops]

end

/-- The text of the first run is the first word. -/
theorem runText_first (gap word rest : List Char) :
    runText (gap ++ word ++ rest) (gap.length, (gap ++ word).length) = word := by
  simp [runText]

/-- Runs that are moved have the same texts in the longer text. -/
theorem map_runText_moveRuns (front rest : List Char) (runs : List (Nat × Nat)) :
    (moveRuns front.length runs).map (runText (front ++ rest)) = runs.map (runText rest) := by
  rw [moveRuns, List.map_map]
  refine List.map_congr_left fun p _ => ?_
  simp [runText, drop_add_length, Nat.add_sub_add_right]

/-- At the limit, the text from the next run on is one part. -/
theorem runParts_cons_zero (gap word rest : List Char) (runs : List (Nat × Nat)) :
    runParts 0 (gap ++ word ++ rest) ((gap.length, (gap ++ word).length) :: runs)
      = [word ++ rest] := by
  simp [runParts]

/-- Below the limit, the next run is a part of its own. -/
theorem runParts_cons_succ (gap word rest : List Char) (runs : List (Nat × Nat)) (limit : Nat) :
    runParts (limit + 1) (gap ++ word ++ rest)
        ((gap.length, (gap ++ word).length) :: moveRuns (gap ++ word).length runs)
      = word :: runParts limit rest runs := by
  have htaken : (moveRuns (gap ++ word).length runs).take limit
      = moveRuns (gap ++ word).length (runs.take limit) := List.map_take.symm
  have hnext : (moveRuns (gap ++ word).length runs)[limit]?.map
        (fun p => (gap ++ word ++ rest).drop p.1)
      = runs[limit]?.map fun p => rest.drop p.1 := by
    rw [moveRuns, List.getElem?_map, Option.map_map]
    refine congrArg (Option.map · _) (funext fun p => ?_)
    exact drop_add_length _ _ _
  rw [runParts, List.take_succ_cons, List.map_cons, runText_first, htaken, map_runText_moveRuns,
    List.getElem?_cons_succ, hnext]
  rfl

/-- Every text has its runs, no more than characters, and splitting gives their texts. -/
theorem exists_runs (blank : Char → Bool) (cs : List Char) :
    ∃ runs, AreRuns blank cs runs ∧ runs.length ≤ cs.length ∧
      ∀ limit, wordsAtMost blank limit cs = runParts limit cs runs := by
  induction hlength : cs.length using Nat.strong_induction_on generalizing cs with
  | h n ih =>
    rcases blank_or_startsWithWord blank cs with hblank | ⟨gap, word, rest, hword, rfl⟩
    · exact ⟨[], .nil hblank, Nat.zero_le _, fun limit => by
        simp [wordsAtMost_of_blank hblank, runParts]⟩
    · have hpos := List.length_pos_iff.2 hword.ne_nil
      simp only [List.length_append] at hlength
      obtain ⟨runs, hruns, hle, hparts⟩ := ih rest.length (by omega) rest rfl
      refine ⟨_, hruns.cons hword, ?_, fun limit => ?_⟩
      · simp only [List.length_cons, moveRuns, List.length_map]
        omega
      · cases limit with
        | zero => rw [hword.wordsAtMost_zero, runParts_cons_zero]
        | succ limit => rw [hword.wordsAtMost_succ, runParts_cons_succ, hparts]

/-- There are fewer runs than characters, so no limit is met. -/
theorem words_eq (hle : runs.length ≤ cs.length)
    (hparts : ∀ limit, wordsAtMost blank limit cs = runParts limit cs runs) :
    words blank cs = runs.map (runText cs) := by
  simp [words, hparts, runParts, List.take_of_length_le hle, List.getElem?_eq_none hle]

/-! ## Main statement -/

/-- The parts of a string that a limit leaves: the runs if there are no more, or that many runs and
then the string from the next one on. -/
structure LimitedParts (cs : List Char) (runs : List (Nat × Nat)) (limit : Nat)
    (parts : List Value) : Prop where
  count : parts.length = min (limit + 1) runs.length
  firsts : parts.take (min limit runs.length)
    = (runs.take (min limit runs.length)).map fun p => Value.ofChars (runText cs p)
  last : ∀ hlimit : limit < runs.length,
    parts.getLast? = some (.ofChars (cs.drop runs[limit].1))

/-- The parts of a text by its runs. -/
theorem limitedParts (limit : Nat) (cs : List Char) (runs : List (Nat × Nat)) :
    LimitedParts cs runs limit ((runParts limit cs runs).map Value.ofChars) := by
  have htaken : ∀ more : List (List Char),
      (((runs.take limit).map (runText cs) ++ more).map Value.ofChars).take (min limit runs.length)
        = (runs.take (min limit runs.length)).map fun p => Value.ofChars (runText cs p) := by
    intro more
    rw [List.map_append, List.take_append_of_le_length (by simp), List.map_map, ← List.map_take,
      List.take_take, Nat.min_right_comm, Nat.min_self]
    rfl
  rcases Nat.lt_or_ge limit runs.length with hlt | hge
  · have hnext : runs[limit]? = some runs[limit] := List.getElem?_eq_getElem hlt
    refine ⟨?_, htaken _, fun _ => ?_⟩
    · simp only [runParts, hnext, Option.map_some, Option.toList_some, List.length_map,
        List.length_append, List.length_take, List.length_singleton]
      omega
    · simp [runParts, hnext]
  · have hnext : runs[limit]? = none := List.getElem?_eq_none hge
    refine ⟨?_, htaken _, fun hlt => absurd hlt (Nat.not_lt.2 hge)⟩
    simp only [runParts, hnext, Option.map_none, Option.toList_none, List.append_nil,
      List.length_map, List.length_take]
    omega

/-- Without a separator, the words of the string are a new list. -/
theorem run_split_of_splitParts {s : String} {args : List Value} {limit : Option Value}
    {parts : List (List Char)} {r : RealmId} {st : Store}
    (hparts : splitParts .split s.toList .none limit = .ok parts)
    (hrun : Method.split.run r (.str s) (.ofList args) st =
      (do
        let parts ← liftM (splitParts .split s.toList .none limit)
        Eval.newList (parts.map Value.ofChars) : Eval Value) st) :
    Method.split.run r (.str s) (.ofList args) st =
      .ok (.list st.fresh (parts.map Value.ofChars)) { st with fresh := st.fresh + 1 } := by
  rw [hrun, hparts]
  rfl

/-- A split without a separator gives the words. -/
theorem run_split_blanks (s : String) (r : RealmId) (st : Store) :
    Method.split.run r (.str s) (.ofList []) st =
      .ok (.list st.fresh ((words isBlank s.toList).map Value.ofChars))
        { st with fresh := st.fresh + 1 } :=
  run_split_of_splitParts (show splitParts .split s.toList .none none = _ from rfl) rfl

/-- A split without a separator and with a limit. -/
theorem run_split_blanks_limit {v : Value} {k : Int64} (hv : v.int? = some k) (hk : 0 ≤ k.toInt)
    (s : String) (r : RealmId) (st : Store) :
    Method.split.run r (.str s) (.ofList [.none, v]) st =
      .ok (.list st.fresh ((wordsAtMost isBlank k.toInt.toNat s.toList).map Value.ofChars))
        { st with fresh := st.fresh + 1 } := by
  have hparts : splitParts .split s.toList .none (some v)
      = .ok (wordsAtMost isBlank k.toInt.toNat s.toList) := by
    unfold splitParts
    rw [limitOf_eq hv hk]
    rfl
  exact run_split_of_splitParts hparts rfl

/-- Without a separator, a string is split into its longest runs of characters that are not blank,
in order. A limit leaves that many of them, and the rest of the string from the next one on. -/
theorem split_words (s : String) (r : RealmId) :
    ∃ runs, AreRuns isBlank s.toList runs ∧
      (∀ st, Method.split.run r (.str s) (.ofList []) st =
        .ok (.list st.fresh (runs.map fun p => .ofChars (runText s.toList p)))
          { st with fresh := st.fresh + 1 }) ∧
      ∀ {v : Value} {k : Int64}, v.int? = some k → 0 ≤ k.toInt →
        ∃ parts, LimitedParts s.toList runs k.toInt.toNat parts ∧
          ∀ st, Method.split.run r (.str s) (.ofList [.none, v]) st =
            .ok (.list st.fresh parts) { st with fresh := st.fresh + 1 } := by
  obtain ⟨runs, hruns, hle, hparts⟩ := exists_runs isBlank s.toList
  refine ⟨runs, hruns, fun st => ?_, fun {v k} hv hk => ⟨_, limitedParts _ _ _, fun st => ?_⟩⟩
  · rw [run_split_blanks, words_eq hle hparts, List.map_map]
    rfl
  · rw [run_split_blanks_limit hv hk, hparts]

/-- A limit of one leaves the first word, and the second with the blank behind it. -/
theorem split_words_trailing : (Value.int 1).int? = some 1 ∧ 0 ≤ (1 : Int64).toInt ∧
    ∃ runs, AreRuns isBlank "\u2003é  b ".toList runs ∧
      LimitedParts "\u2003é  b ".toList runs 1 [.str "é", .str "b "] := by
  have hv : (Value.int 1).int? = some 1 := rfl
  have hk : 0 ≤ (1 : Int64).toInt := by decide
  obtain ⟨runs, hruns, -, hlimit⟩ := split_words "\u2003é  b " 0
  obtain ⟨parts, hparts, hrun⟩ := hlimit hv hk
  have hlist : Method.split.run 0 (.str "\u2003é  b ") (.ofList [.none, .int 1]) .empty =
      .ok (.list 0 [.str "é", .str "b "]) { Store.empty with fresh := 1 } := rfl
  obtain ⟨-, rfl⟩ := Value.list.inj (ok_unique (hrun .empty) hlist)
  exact ⟨hv, hk, runs, hruns, hparts⟩

end ExprLang
