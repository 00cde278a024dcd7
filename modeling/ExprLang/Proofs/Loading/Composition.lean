import ExprLang.Session

/-!
# Loading one text after another

`Session.load_append` : a text that ends in a newline, its last line not going on with the next, may
be loaded by itself. Loading it together with what follows is loading the one and then the other, as
long as nothing fails.

Between lines a text to load keeps what is pending and where that began. A line that does not go on
leaves nothing pending (`text_logicalLines_of_ended`), and where nothing is pending it does not
matter where that began (`withPending_logicalLines_congr`). So the logical lines of the two texts
are those of the one and those of the other, counted from further ahead
(`logicalLines_ofText_append`).
-/

namespace ExprLang

/-! ## Physical lines -/

/-- A newline ends the lines in front of it. -/
theorem splitLinesFrom_append {α : Type} [BEq α] [LawfulBEq α] {newline ret : α} {cs : List α}
    (h : cs.getLast? = some newline) (start ds : List α) :
    splitLinesFrom newline ret start (cs ++ ds)
      = splitLinesFrom newline ret start cs ++ splitLinesFrom newline ret [] ds := by
  induction cs generalizing start with
  | nil => simp at h
  | cons c cs ih =>
    cases cs with
    | nil =>
      obtain rfl : c = newline := by simpa using h
      simp [splitLinesFrom]
    | cons d cs =>
      have hlast : (d :: cs).getLast? = some newline := by simpa using h
      simp only [List.cons_append, splitLinesFrom] at ih ⊢
      split
      · rw [ih hlast, List.cons_append]
      · rw [ih hlast]

/-- A text whose last line is ended by a newline shares no line with what follows. -/
theorem splitLines_append {cs : List Char} (h : cs = [] ∨ cs.getLast? = some '\n')
    (ds : List Char) : splitLines (cs ++ ds) = splitLines cs ++ splitLines ds := by
  rcases h with rfl | h
  · rfl
  · exact splitLinesFrom_append h [] ds

/-! ## Logical lines -/

/-- A logical line, counted from `n` lines further ahead. -/
def LogicalLine.later (n : Nat) (line : LogicalLine) : LogicalLine :=
  { line with number := n + line.number }

/-- Logical lines, and as one more what is pending at the end, if anything is. -/
def withPending (lines : List LogicalLine × LogicalLine) : List LogicalLine :=
  if !lines.2.text.isEmpty then lines.1 ++ [lines.2] else lines.1

theorem withPending_of_text_eq_nil {lines : List LogicalLine × LogicalLine}
    (h : lines.2.text = []) : withPending lines = lines.1 := by
  simp [withPending, h]

/-- Lines in front of what is pending. -/
theorem withPending_append (xs ys : List LogicalLine) (left : LogicalLine) :
    withPending (xs ++ ys, left) = xs ++ withPending (ys, left) := by
  simp only [withPending]
  split <;> simp

theorem withPending_later (n : Nat) (lines : List LogicalLine × LogicalLine) :
    withPending (lines.1.map (.later n), lines.2.later n) = (withPending lines).map (.later n) := by
  have htext : (lines.2.later n).text = lines.2.text := rfl
  simp only [withPending, htext]
  split <;> simp

theorem logicalLines_ofText (t : String) : (LineSource.ofText t).logicalLines
    = withPending (logicalLines 1 ⟨1, []⟩ (splitLines t.toList)) := rfl

variable {number : Nat} {pending : LogicalLine} {lines : List (List Char)}

/-- Logical lines are put together from left to right. -/
theorem logicalLines_append (as bs : List (List Char)) :
    logicalLines number pending (as ++ bs) =
      let (complete, left) := logicalLines number pending as
      let (more, left) := logicalLines (number + as.length) left bs
      (complete ++ more, left) := by
  induction as generalizing number pending with
  | nil => rfl
  | cons line as ih =>
    simp only [List.cons_append, logicalLines, List.length_cons, ← Nat.add_assoc,
      Nat.add_right_comm number as.length 1]
    split
    · exact ih
    · rw [ih]
      rfl

/-- Lines that come later are numbered later. -/
theorem logicalLines_later (n : Nat) :
    logicalLines (n + number) (pending.later n) lines =
      ((logicalLines number pending lines).1.map (.later n),
        (logicalLines number pending lines).2.later n) := by
  induction lines generalizing number pending with
  | nil => rfl
  | cons line lines ih =>
    have hfirst : (if (pending.later n).text.isEmpty then n + number else (pending.later n).number)
        = n + if pending.text.isEmpty then number else pending.number := by
      unfold LogicalLine.later
      split <;> rfl
    simp only [logicalLines, hfirst, Nat.add_assoc]
    split
    · exact @ih _ ⟨_, _⟩
    · have hfresh : ∀ first, (⟨n + first, []⟩ : LogicalLine) = .later n ⟨first, []⟩ := fun _ => rfl
      rw [hfresh, ih]
      rfl

/-- Where nothing is pending it does not matter where that began. -/
theorem withPending_logicalLines_congr {pending' : LogicalLine} (h : pending.text = [])
    (h' : pending'.text = []) :
    withPending (logicalLines number pending lines) =
      withPending (logicalLines number pending' lines) := by
  cases lines with
  | nil => simp [logicalLines, withPending, h, h']
  | cons line lines => simp [logicalLines, h, h']

/-- Nothing is pending after a line that does not go on. -/
theorem text_logicalLines_of_ended (hpending : pending.text = [])
    (hlast : ∀ line ∈ lines.getLast?, (stripEnd isBlank line).getLast? ≠ some '\\') :
    (logicalLines number pending lines).2.text = [] := by
  rcases lines.eq_nil_or_concat with rfl | ⟨before, last, rfl⟩
  · exact hpending
  · rw [List.concat_eq_append] at hlast ⊢
    have hends : stripContinuation last = (stripEnd isBlank last, false) :=
      if_neg (hlast last (by simp))
    simp [logicalLines_append, logicalLines, hends]

/-- The logical lines of two texts, the first of which ends in a line of its own. -/
theorem logicalLines_ofText_append {t t' : String} (hends : t = "" ∨ t.toList.getLast? = some '\n')
    (hlast : ∀ line ∈ (splitLines t.toList).getLast?,
      (stripEnd isBlank line).getLast? ≠ some '\\') :
    (LineSource.ofText (t ++ t')).logicalLines = (LineSource.ofText t).logicalLines ++
      (LineSource.ofText t').logicalLines.map (.later (splitLines t.toList).length) := by
  have hchars : t.toList = [] ∨ t.toList.getLast? = some '\n' :=
    hends.imp_left fun h => by simp [h]
  have hleft : (logicalLines 1 ⟨1, []⟩ (splitLines t.toList)).2.text = [] :=
    text_logicalLines_of_ended rfl hlast
  generalize hn : (splitLines t.toList).length = n
  calc (LineSource.ofText (t ++ t')).logicalLines
    _ = withPending (logicalLines 1 ⟨1, []⟩ (splitLines t.toList ++ splitLines t'.toList)) := by
      rw [logicalLines_ofText, String.toList_append, splitLines_append hchars]
    _ = (logicalLines 1 ⟨1, []⟩ (splitLines t.toList)).1 ++ withPending (logicalLines (1 + n)
          (logicalLines 1 ⟨1, []⟩ (splitLines t.toList)).2 (splitLines t'.toList)) := by
      rw [logicalLines_append, hn, withPending_append]
    _ = (LineSource.ofText t).logicalLines ++ withPending (logicalLines (n + 1)
          (LogicalLine.later n ⟨1, []⟩) (splitLines t'.toList)) := by
      have hfresh : (LogicalLine.later n ⟨1, []⟩).text = [] := rfl
      rw [withPending_logicalLines_congr hleft hfresh, Nat.add_comm, logicalLines_ofText,
        withPending_of_text_eq_nil hleft]
    _ = _ := by rw [logicalLines_later, withPending_later, ← logicalLines_ofText]

/-! ## Loading -/

/-- The fault of a text, with its lines counted from `n` lines further ahead. -/
def LoadFault.later (n : Nat) : LoadFault → LoadFault
  | .unreadable fault => .unreadable fault
  | .line number failure => .line (n + number) failure

variable {r : RealmId}

/-- Lines are loaded one by one, up to the first that fails. -/
theorem loadLines_append (xs ys : List LogicalLine) (s : Store) :
    loadLines r (xs ++ ys) s =
      match loadLines r xs s with
      | (⟨printed, some fault⟩, s) => (⟨printed, some fault⟩, s)
      | (⟨printed, none⟩, s) =>
        let (rest, s) := loadLines r ys s
        (⟨printed ++ rest.printed, rest.fault⟩, s) := by
  induction xs generalizing s with
  | nil => simp [loadLines]
  | cons line xs ih =>
    simp only [List.cons_append, loadLines]
    cases evalLine r (String.ofList line.text) s with
    | error e s => rfl
    | ok outcome s =>
      simp only [ih s]
      split <;> simp_all [String.append_assoc]

theorem loadLines_later (n : Nat) (lines : List LogicalLine) (s : Store) :
    loadLines r (lines.map (.later n)) s =
      let (loaded, s) := loadLines r lines s
      (⟨loaded.printed, loaded.fault.map (.later n)⟩, s) := by
  induction lines generalizing s with
  | nil => rfl
  | cons line lines ih =>
    simp only [List.map_cons, loadLines, LogicalLine.later]
    cases evalLine r (String.ofList line.text) s with
    | error e s => rfl
    | ok outcome s => simp only [ih s]

theorem load_ofText (t : String) (s : Store) :
    load r (.ofText t) s = loadLines r (LineSource.ofText t).logicalLines s := by
  unfold load
  simp [LineSource.ofText]


/-- Loading two texts as one: if the first is loaded to its end, the second goes on from there, and
its lines are counted behind those of the first. -/
theorem Session.load_append (session : Session) {t t' : String}
    (hends : t = "" ∨ t.toList.getLast? = some '\n')
    (hlast : ∀ line ∈ (splitLines t.toList).getLast?,
      (stripEnd isBlank line).getLast? ≠ some '\\') :
    session.load (.ofText (t ++ t')) =
      match session.load (.ofText t) with
      | (⟨printed, some fault⟩, session) => (⟨printed, some fault⟩, session)
      | (⟨printed, none⟩, session) =>
        let (rest, session) := session.load (.ofText t')
        (⟨printed ++ rest.printed, rest.fault.map (.later (splitLines t.toList).length)⟩,
          session) := by
  unfold Session.load
  simp only [load_ofText, logicalLines_ofText_append hends hlast, loadLines_append, loadLines_later]
  split <;> simp_all

/-- A definition that goes over two lines, and a use of it. -/
theorem Session.load_append_definition :
    let session := Session.new defaultMaxDepth
    let t := "n = \\\n  20\n"
    let t' := "n +\n"
    (t = "" ∨ t.toList.getLast? = some '\n') ∧
      (∀ line ∈ (splitLines t.toList).getLast?, (stripEnd isBlank line).getLast? ≠ some '\\') ∧
      session.load (.ofText (t ++ t')) =
        match session.load (.ofText t) with
        | (⟨printed, some fault⟩, session) => (⟨printed, some fault⟩, session)
        | (⟨printed, none⟩, session) =>
          let (rest, session) := session.load (.ofText t')
          (⟨printed ++ rest.printed, rest.fault.map (.later (splitLines t.toList).length)⟩,
            session) := by
  intro session t t'
  have hends : t = "" ∨ t.toList.getLast? = some '\n' := .inr (by decide)
  have hlast : ∀ line ∈ (splitLines t.toList).getLast?,
      (stripEnd isBlank line).getLast? ≠ some '\\' := by decide
  exact ⟨hends, hlast, session.load_append hends hlast⟩

end ExprLang
