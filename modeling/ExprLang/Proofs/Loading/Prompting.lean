import ExprLang.Proofs.Loading.Composition
import Mathlib.Data.List.DropRight

/-!
# The lines of the prompt and of a loaded text

`tidy_promptLines_iff` : from the same physical lines the prompt and a loaded text put together the
same logical lines, blanks at their ends and blank lines aside, unless a blank line follows one that
ends in two backslashes, or lines of a lone backslash after such a one (`Stranded`). The loaded text
ends a logical line there. The prompt, which looks for a backslash in all that it has put together,
finds the one that is left, takes it away and goes on.

Before that both have the same pending (`promptStep_text`). And wherever the prompt finds a
backslash that is not in the line itself, it ends up with fewer characters
(`weights_promptLines_lt`).
-/

namespace ExprLang

variable {line : List Char} {lines : List (List Char)}

/-! ## Ends of lines -/

/-- Whether all of a text is blank. -/
def AllBlank (cs : List Char) : Prop :=
  ∀ c ∈ cs, isBlank c = true

/-- Whether the last of a text, blanks aside, is a backslash. -/
def GoesOn (cs : List Char) : Prop :=
  (stripEnd isBlank cs).getLast? = some '\\'

/-- What is kept of a physical line. -/
def keptOf (line : List Char) : List Char :=
  (stripContinuation line).1

/-- Only blanks are stripped to nothing. -/
theorem stripEnd_eq_nil_iff {cs : List Char} : stripEnd isBlank cs = [] ↔ AllBlank cs :=
  List.rdropWhile_eq_nil_iff

theorem stripEnd_stripEnd (cs : List Char) :
    stripEnd isBlank (stripEnd isBlank cs) = stripEnd isBlank cs :=
  List.rdropWhile_idempotent isBlank cs

theorem stripEnd_append_blank (cs : List Char) {ds : List Char} (h : AllBlank ds) :
    stripEnd isBlank (cs ++ ds) = stripEnd isBlank cs := by
  have hds : ds.reverse.dropWhile isBlank = [] :=
    List.reverse_eq_nil_iff.1 (stripEnd_eq_nil_iff.2 h)
  unfold stripEnd
  rw [List.reverse_append, List.dropWhile_append, hds]
  rfl

/-- Blanks in front of text stay. -/
theorem stripEnd_append_text (cs : List Char) {ds : List Char} (h : ¬AllBlank ds) :
    stripEnd isBlank (cs ++ ds) = cs ++ stripEnd isBlank ds := by
  have hds : (ds.reverse.dropWhile isBlank).isEmpty = false := by
    rw [List.isEmpty_eq_false_iff, ← List.reverse_ne_nil_iff]
    exact fun hnil => h (stripEnd_eq_nil_iff.1 hnil)
  unfold stripEnd
  rw [List.reverse_append, List.dropWhile_append, hds]
  simp

/-- A line that goes on loses its backslash. -/
theorem stripContinuation_of_goesOn (h : GoesOn line) :
    stripContinuation line = ((stripEnd isBlank line).dropLast, true) :=
  if_pos h

/-- A line that does not go on loses its blanks. -/
theorem stripContinuation_of_not_goesOn (h : ¬GoesOn line) :
    stripContinuation line = (stripEnd isBlank line, false) :=
  if_neg h

/-- A line that goes on has its backslash, so it is not blank. -/
theorem GoesOn.not_allBlank (h : GoesOn line) : ¬AllBlank line := by
  intro hblank
  rw [GoesOn, stripEnd_eq_nil_iff.2 hblank] at h
  cases h

/-- Blanks do not matter for whether a line goes on. -/
theorem goesOn_append_blank (cs : List Char) {ds : List Char} (h : AllBlank ds) :
    GoesOn (cs ++ ds) ↔ GoesOn cs := by
  rw [GoesOn, stripEnd_append_blank cs h, GoesOn]

/-- The last text decides whether a line goes on. -/
theorem goesOn_append_text (cs : List Char) {ds : List Char} (h : ¬AllBlank ds) :
    GoesOn (cs ++ ds) ↔ GoesOn ds := by
  have hne : stripEnd isBlank ds ≠ [] := fun hnil => h (stripEnd_eq_nil_iff.1 hnil)
  rw [GoesOn, stripEnd_append_text cs h, List.getLast?_append_of_ne_nil _ hne, GoesOn]

/-! ## One step -/

/-- A line that is not blank is stripped alike whether it is by itself or after something. -/
theorem promptStep_text (pending : List Char) (h : ¬AllBlank line) :
    promptStep pending line = (pending ++ keptOf line, (stripContinuation line).2) := by
  have hne : stripEnd isBlank line ≠ [] := fun hnil => h (stripEnd_eq_nil_iff.1 hnil)
  unfold promptStep keptOf
  by_cases hgoes : GoesOn line
  · rw [stripContinuation_of_goesOn hgoes,
      stripContinuation_of_goesOn ((goesOn_append_text pending h).2 hgoes),
      stripEnd_append_text pending h, List.dropLast_append_of_ne_nil hne]
  · rw [stripContinuation_of_not_goesOn hgoes,
      stripContinuation_of_not_goesOn fun hboth => hgoes ((goesOn_append_text pending h).1 hboth),
      stripEnd_append_text pending h]

/-- A blank line has what is pending stripped once more. -/
theorem promptStep_blank (pending : List Char) (h : AllBlank line) :
    promptStep pending line = stripContinuation pending := by
  unfold promptStep stripContinuation
  rw [stripEnd_append_blank pending h]

/-- Nothing is kept of a blank line. -/
theorem keptOf_blank (h : AllBlank line) : keptOf line = [] := by
  rw [keptOf, stripContinuation_of_not_goesOn fun hgoes => hgoes.not_allBlank h]
  exact stripEnd_eq_nil_iff.2 h

/-! ## Logical lines -/

/-- The logical lines of a text to load, after what is pending, without their numbers. -/
def loadedLines (pending : List Char) : List (List Char) → List (List Char)
  | [] => if pending.isEmpty then [] else [pending]
  | line :: lines =>
    if (stripContinuation line).2 then loadedLines (pending ++ keptOf line) lines
    else (pending ++ keptOf line) :: loadedLines [] lines

/-- The texts of logical lines, whatever their numbers. -/
theorem text_withPending (number : Nat) (pending : LogicalLine) (lines : List (List Char)) :
    (withPending (logicalLines number pending lines)).map (·.text) =
      loadedLines pending.text lines := by
  induction lines generalizing number pending with
  | nil =>
    unfold logicalLines loadedLines withPending
    cases pending.text.isEmpty <;> rfl
  | cons line lines ih =>
    unfold logicalLines loadedLines keptOf
    cases hline : stripContinuation line with
    | mk kept continues =>
      cases continues with
      | true => exact ih _ ⟨_, _⟩
      | false =>
        have hrest := fun first => ih (number + 1) ⟨first, []⟩
        exact (congrArg _ (withPending_append [_] _ _)).trans (congrArg _ (hrest _))

/-- Lines without the blanks at their ends, and without those that are blank. -/
def tidy (lines : List (List Char)) : List (List Char) :=
  (lines.map (stripEnd isBlank)).filter (!·.isEmpty)

/-- Blank lines are left out, and others are stripped. -/
theorem tidy_cons (line : List Char) (lines : List (List Char)) :
    tidy (line :: lines) =
      if (stripEnd isBlank line).isEmpty then tidy lines
      else stripEnd isBlank line :: tidy lines := by
  unfold tidy
  rw [List.map_cons, List.filter_cons]
  cases (stripEnd isBlank line).isEmpty <;> rfl

/-- Lines that begin with a blank one, or with a lone backslash and then such lines. -/
inductive OpensBlank : List (List Char) → Prop
  | blank {line : List Char} {lines : List (List Char)} : AllBlank line → OpensBlank (line :: lines)
  | bare {line : List Char} {lines : List (List Char)} : GoesOn line → AllBlank (keptOf line) →
    OpensBlank lines → OpensBlank (line :: lines)

/-- Lines of which one ends in two backslashes, and is followed by a blank line, with nothing but
lone backslashes in between. -/
inductive Stranded : List (List Char) → Prop
  | here {line : List Char} {lines : List (List Char)} : GoesOn line → GoesOn (keptOf line) →
    OpensBlank lines → Stranded (line :: lines)
  | later {line : List Char} {lines : List (List Char)} : Stranded lines → Stranded (line :: lines)

/-- Whether a backslash is found that is not in the line itself, with something pending. -/
def Strands (pending : List Char) (lines : List (List Char)) : Prop :=
  Stranded lines ∨ GoesOn pending ∧ OpensBlank lines

theorem not_goesOn_nil : ¬GoesOn [] :=
  fun h => h.not_allBlank nofun

/-- With nothing pending, only the lines decide. -/
theorem strands_nil_iff : Strands [] lines ↔ Stranded lines :=
  or_iff_left fun h => not_goesOn_nil h.1

/-- A line that goes on strands if what it leaves pending does. -/
theorem strands_cons_of_goesOn {pending : List Char} (h : GoesOn line) :
    Strands pending (line :: lines) ↔ Strands (pending ++ keptOf line) lines := by
  constructor
  · rintro (hstranded | ⟨hpending, hopens⟩)
    · cases hstranded with
      | here _ hkept hopens =>
        exact .inr ⟨(goesOn_append_text _ hkept.not_allBlank).2 hkept, hopens⟩
      | later hstranded => exact .inl hstranded
    · cases hopens with
      | blank hblank => exact absurd hblank h.not_allBlank
      | bare _ hkept hopens => exact .inr ⟨(goesOn_append_blank _ hkept).2 hpending, hopens⟩
  · rintro (hstranded | ⟨hpending, hopens⟩)
    · exact .inl (.later hstranded)
    · by_cases hkept : AllBlank (keptOf line)
      · exact .inr ⟨(goesOn_append_blank _ hkept).1 hpending, .bare h hkept hopens⟩
      · exact .inl (.here h ((goesOn_append_text _ hkept).1 hpending) hopens)

/-- A line that ends is taken with what is pending, and the rest stands on its own. -/
theorem strands_cons_of_ends {pending : List Char} (hline : ¬AllBlank line) (h : ¬GoesOn line) :
    Strands pending (line :: lines) ↔ Strands [] lines := by
  rw [strands_nil_iff]
  constructor
  · rintro (hstranded | ⟨-, hopens⟩)
    · cases hstranded with
      | here hgoes => exact absurd hgoes h
      | later hstranded => exact hstranded
    · cases hopens with
      | blank hblank => exact absurd hblank hline
      | bare hgoes => exact absurd hgoes h
  · exact fun hstranded => .inl (.later hstranded)

/-- A blank line strands what goes on still. -/
theorem strands_cons_of_blank {pending : List Char} (hline : AllBlank line) :
    Strands pending (line :: lines) ↔ GoesOn pending ∨ Strands [] lines := by
  rw [strands_nil_iff]
  constructor
  · rintro (hstranded | ⟨hpending, -⟩)
    · cases hstranded with
      | here hgoes => exact absurd hline hgoes.not_allBlank
      | later hstranded => exact .inr hstranded
    · exact .inl hpending
  · rintro (hpending | hstranded)
    · exact .inr ⟨hpending, .blank hline⟩
    · exact .inl (.later hstranded)

/-! ## The same lines -/

/-- Where nothing is stranded, the prompt has the same pending as the loaded text, and ends its
lines where that does. -/
theorem tidy_promptLines {pending : Option (List Char)}
    (h : ¬Strands (pending.getD []) lines) :
    tidy (promptLines pending lines) = tidy (loadedLines (pending.getD []) lines) := by
  induction lines generalizing pending with
  | nil =>
    cases pending with
    | none => rfl
    | some text => cases text <;> rfl
  | cons line lines ih =>
    unfold promptLines loadedLines
    by_cases hline : AllBlank line
    · rw [strands_cons_of_blank hline, not_or] at h
      have hends : ¬GoesOn line := fun hgoes => hgoes.not_allBlank hline
      rw [promptStep_blank _ hline, stripContinuation_of_not_goesOn h.1,
        stripContinuation_of_not_goesOn hends, keptOf_blank hline, List.append_nil]
      have hrest := @ih none h.2
      simp [tidy_cons, stripEnd_stripEnd, hrest]
    · rw [promptStep_text _ hline]
      by_cases hgoes : GoesOn line
      · rw [strands_cons_of_goesOn hgoes] at h
        rw [stripContinuation_of_goesOn hgoes]
        exact @ih (some _) h
      · rw [strands_cons_of_ends hline hgoes] at h
        rw [stripContinuation_of_not_goesOn hgoes]
        have hrest := @ih none h
        simp [tidy_cons, hrest]

/-! ## How much is left -/

/-- The number of characters in a text that are not blank. -/
def weight (cs : List Char) : Nat :=
  cs.countP (!isBlank ·)

/-- The number of characters in some lines that are not blank. -/
def weights (lines : List (List Char)) : Nat :=
  weight lines.flatten

theorem weight_append (cs ds : List Char) : weight (cs ++ ds) = weight cs + weight ds :=
  List.countP_append

theorem weights_cons (line : List Char) (lines : List (List Char)) :
    weights (line :: lines) = weight line + weights lines :=
  weight_append line lines.flatten

theorem weight_stripEnd (cs : List Char) : weight (stripEnd isBlank cs) = weight cs := by
  have hblank : weight (cs.reverse.takeWhile isBlank).reverse = 0 := by
    refine List.countP_eq_zero.2 fun c hc => ?_
    rw [List.mem_takeWhile_imp (List.mem_reverse.1 hc)]
    exact Bool.false_ne_true
  conv_rhs => rw [← stripEnd_append isBlank cs, weight_append, hblank]
  rfl

theorem weights_tidy (lines : List (List Char)) : weights (tidy lines) = weights lines := by
  induction lines with
  | nil => rfl
  | cons line lines ih =>
    rw [tidy_cons, weights_cons, ← weight_stripEnd line]
    split
    case isTrue hempty =>
      rw [List.isEmpty_iff.1 hempty, ih]
      exact (Nat.zero_add _).symm
    case isFalse => rw [weights_cons, ih]

/-- A line that goes on loses its backslash, and no other character but blanks. -/
theorem weight_keptOf_of_goesOn (h : GoesOn line) : weight (keptOf line) + 1 = weight line := by
  have hsplit : (stripEnd isBlank line).dropLast ++ ['\\'] = stripEnd isBlank line :=
    List.dropLast_append_getLast? _ h
  rw [keptOf, stripContinuation_of_goesOn h, ← weight_stripEnd line, ← hsplit, weight_append]
  simp only [List.dropLast_concat]
  rfl

/-- A line that ends keeps its weight. -/
theorem weight_keptOf_of_not_goesOn (h : ¬GoesOn line) : weight (keptOf line) = weight line := by
  rw [keptOf, stripContinuation_of_not_goesOn h]
  exact weight_stripEnd line

/-- A line that goes on loses that of its backslash. -/
theorem weight_keptOf_le (line : List Char) : weight (keptOf line) ≤ weight line := by
  by_cases h : GoesOn line
  · exact (weight_keptOf_of_goesOn h) ▸ Nat.le_succ _
  · exact (weight_keptOf_of_not_goesOn h).le

/-- Loading keeps the weight of all that is kept of the lines. -/
theorem weights_loadedLines (pending : List Char) (lines : List (List Char)) :
    weights (loadedLines pending lines) = weight pending + weights (lines.map keptOf) := by
  induction lines generalizing pending with
  | nil =>
    cases pending with
    | nil => rfl
    | cons c cs => exact weights_cons (c :: cs) []
  | cons line lines ih =>
    unfold loadedLines
    rw [List.map_cons, weights_cons, ← Nat.add_assoc, ← weight_append]
    split
    · exact ih _
    · rw [weights_cons, ih]
      exact congrArg _ (Nat.zero_add _)

theorem weight_promptStep_le (pending line : List Char) :
    weight (promptStep pending line).1 ≤ weight (pending ++ keptOf line) := by
  by_cases h : AllBlank line
  · rw [promptStep_blank pending h, keptOf_blank h, List.append_nil]
    exact weight_keptOf_le pending
  · rw [promptStep_text pending h]

/-- What bounds the lines to come, with whatever is pending, bounds those of one line more. -/
theorem weights_promptLines_cons_le {bound : Nat} (pending : Option (List Char)) (line : List Char)
    (hrest : ∀ p, weights (promptLines p lines) ≤ weight (p.getD []) + bound) :
    weights (promptLines pending (line :: lines)) ≤
      weight (promptStep (pending.getD []) line).1 + bound := by
  unfold promptLines
  cases promptStep (pending.getD []) line with
  | mk kept continues =>
    cases continues with
    | true => exact hrest (some kept)
    | false =>
      refine (weights_cons _ _).trans_le (Nat.add_le_add_left ?_ _)
      exact (hrest none).trans_eq (Nat.zero_add _)

/-- The lines that the prompt passes on weigh no more than what is kept of the physical ones. -/
theorem weights_promptLines_le (pending : Option (List Char)) (lines : List (List Char)) :
    weights (promptLines pending lines) ≤
      weight (pending.getD []) + weights (lines.map keptOf) := by
  induction lines generalizing pending with
  | nil =>
    cases pending with
    | none => exact Nat.le_refl 0
    | some text => exact (weights_cons text []).le
  | cons line lines ih =>
    have hstep := weight_promptStep_le (pending.getD []) line
    rw [weight_append] at hstep
    rw [List.map_cons, weights_cons, ← Nat.add_assoc]
    exact (weights_promptLines_cons_le pending line ih).trans (Nat.add_le_add_right hstep _)

/-- A backslash that is stranded is lost to the prompt. -/
theorem weights_promptLines_lt {pending : Option (List Char)}
    (h : Strands (pending.getD []) lines) : weights (promptLines pending lines) <
      weight (pending.getD []) + weights (lines.map keptOf) := by
  induction lines generalizing pending with
  | nil => obtain h | ⟨-, h⟩ := h <;> cases h
  | cons line lines ih =>
    rw [List.map_cons, weights_cons, ← Nat.add_assoc, ← weight_append]
    by_cases hline : AllBlank line
    · rw [keptOf_blank hline, List.append_nil]
      by_cases hpending : GoesOn (pending.getD [])
      · -- The loss is here, whatever becomes of the lines that follow.
        have hrest := weights_promptLines_cons_le pending line
          fun p => weights_promptLines_le p lines
        rw [promptStep_blank _ hline] at hrest
        have hloss := weight_keptOf_of_goesOn hpending
        exact hrest.trans_lt (Nat.add_lt_add_right (Nat.lt_of_succ_le hloss.le) _)
      · have hrest := @ih none (((strands_cons_of_blank hline).1 h).resolve_left hpending)
        unfold promptLines
        rw [promptStep_blank _ hline, stripContinuation_of_not_goesOn hpending]
        simp only [Bool.false_eq_true, if_false, weights_cons, weight_stripEnd]
        exact Nat.add_lt_add_left (hrest.trans_eq (Nat.zero_add _)) _
    · unfold promptLines
      rw [promptStep_text _ hline]
      by_cases hgoes : GoesOn line
      · rw [stripContinuation_of_goesOn hgoes]
        exact @ih (some _) ((strands_cons_of_goesOn hgoes).1 h)
      · have hrest := @ih none ((strands_cons_of_ends hline hgoes).1 h)
        rw [stripContinuation_of_not_goesOn hgoes]
        simp only [Bool.false_eq_true, if_false, weights_cons]
        exact Nat.add_lt_add_left (hrest.trans_eq (Nat.zero_add _)) _

/-- The prompt and a loaded text make the same of physical lines, blanks at the ends of logical
lines and blank ones aside, unless a blank line strands a backslash. -/
theorem tidy_promptLines_iff (lines : List (List Char)) :
    tidy (promptLines none lines) = tidy ((⟨lines, none⟩ : LineSource).logicalLines.map (·.text)) ↔
      ¬Stranded lines := by
  have hloaded : (⟨lines, none⟩ : LineSource).logicalLines.map (·.text) = loadedLines [] lines :=
    text_withPending 1 ⟨1, []⟩ lines
  rw [hloaded, ← strands_nil_iff]
  refine ⟨fun hsame hstrands => ?_, fun h => @tidy_promptLines _ none h⟩
  have hlost := @weights_promptLines_lt _ none hstrands
  rw [← weights_loadedLines, ← weights_tidy, ← weights_tidy (loadedLines _ _)] at hlost
  exact Nat.ne_of_lt hlost (congrArg weights hsame)

/-- A line that ends in two backslashes, a blank line, and one more. The prompt joins all three. -/
theorem not_tidy_promptLines :
    tidy (promptLines none ["1 # \\\\".toList, [], "2".toList]) = ["1 # 2".toList] ∧
    tidy ((⟨["1 # \\\\".toList, [], "2".toList], none⟩ : LineSource).logicalLines.map (·.text)) =
      ["1 # \\".toList, "2".toList] := by
  decide

end ExprLang
