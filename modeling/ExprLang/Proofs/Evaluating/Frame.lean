import ExprLang.Proofs.Evaluating.Lines
import ExprLang.Proofs.Evaluating.Mirrors

/-!
# What evaluation leaves alone

Evaluation leaves a store as it was but for few things (`Store.Frame`): the calls in progress and
all definitions are as before, and the iterators that were there have at most lost items from the
front. So a line changes definitions only where it makes one (`evalLine_globals`).

In between more calls are in progress, but never more than a realm allows. To say so, calls are
watched: an alarm of any kind may go off when a realm has too many calls in progress, or when a call
that is over was never counted (`Eval.withinWatched`). It never does (`watched_eq`).
-/

namespace ExprLang

variable {α : Type}

/-! ## The frame -/

/-- Whether a store differs from one before only as an evaluation may change it. -/
structure Store.Frame (s s' : Store) : Prop where
  counts : s'.counts = s.counts
  globals : s'.globals = s.globals
  size : s.iterators.size ≤ s'.iterators.size
  items : ∀ id < s.iterators.size, s'.itemsLeft id <:+ s.itemsLeft id

namespace Store.Frame

theorem refl (s : Store) : s.Frame s :=
  ⟨rfl, rfl, Nat.le_refl _, fun _ _ => List.suffix_rfl⟩

theorem trans {s s' s'' : Store} (h : s.Frame s') (h' : s'.Frame s'') : s.Frame s'' where
  counts := h'.counts.trans h.counts
  globals := h'.globals.trans h.globals
  size := Nat.le_trans h.size h'.size
  items id hid := (h'.items id (Nat.lt_of_lt_of_le hid h.size)).trans (h.items id hid)

/-- A change of a realm that is no definition. -/
theorem modifyRealm {s : Store} {r : RealmId} {f : Realm → Realm}
    (hcounts : (s.modifyRealm r f).counts = s.counts)
    (hglobals : ∀ realm, (f realm).globals = realm.globals) : s.Frame (s.modifyRealm r f) where
  counts := hcounts
  globals := globals_modifyRealm_of_same hglobals
  size := Nat.le_refl _
  items _ _ := List.suffix_rfl

/-- Items taken from the front of an iterator. -/
theorem drop (s : Store) (id : IteratorId) {f : List Value → List Value}
    (hf : ∀ items, f items <:+ items) :
    s.Frame { s with iterators := s.iterators.modify id f } where
  counts := rfl
  globals := rfl
  size := by simp
  items i _ := by
    unfold itemsLeft
    rw [Array.getElem?_modify]
    split
    · cases s.iterators[i]? with
      | none => exact List.suffix_rfl
      | some items => exact hf items
    · exact List.suffix_rfl

/-- A new iterator. -/
theorem push (s : Store) (items : List Value) :
    s.Frame { s with iterators := s.iterators.push items } where
  counts := rfl
  globals := rfl
  size := by simp
  items id hid := by
    have hsame : (s.iterators.push items)[id]? = s.iterators[id]? := by
      rw [Array.getElem?_push, if_neg (by omega)]
    unfold itemsLeft
    exact hsame ▸ List.suffix_rfl

theorem step {x : Eval α} {P : Value → Prop} {Q : α → Prop} (h : Step P x Q) (s : Store) :
    s.Frame (storeAfter (x s)) := by
  cases h with
  | freshId => exact ⟨rfl, rfl, Nat.le_refl _, fun _ _ => List.suffix_rfl⟩
  | addresses => exact .refl s
  | newIterator => exact push s _
  | takeAll _ => exact drop s _ fun _ => List.nil_suffix
  | takeNext? _ => exact drop s _ fun _ => List.tail_suffix _

/-- A call counts while it runs and not after, and changes nothing else by that. -/
theorem left {s : Store} {r : RealmId} {s' : Store} (h : (s.entered r).Frame s') :
    s.Frame (Eval.left r s') where
  counts := Eval.counts_left h.counts
  globals :=
    calc (Eval.left r s').globals
      _ = s'.globals := globals_modifyRealm_of_same fun _ => rfl
      _ = (s.entered r).globals := h.globals
      _ = s.globals := globals_modifyRealm_of_same fun _ => rfl
  size := h.size
  items := h.items

end Store.Frame

theorem moves_frame : Moves Store.Frame fun s _ s' => s.Frame s' where
  refl := .refl
  trans := .trans
  fail := .trans
  throw s _ := .refl s
  step h s := .step h s
  obey _ := .modifyRealm (Store.counts_lower _ _) fun _ => rfl
  left := .left
  leftError := .left

/-! ## The watch -/

/-- An evaluation as a call of a realm `r`, with a watch over a realm `w`. An alarm goes off if `w`
has more calls in progress than it allows, when the call has begun or when it is over, and if a call
that is over was not counted. -/
def Eval.withinWatched (w : RealmId) (alarm : Eval α) (r : RealmId) (act : Eval α) : Eval α := do
  enter r
  fun s =>
    if (s.realm w).maxDepth < (s.realm w).depth then alarm s
    else
      let result := act s
      let s' := storeAfter result
      if (s'.realm w).maxDepth < (s'.realm w).depth ∨ (s'.realm r).depth = 0 then alarm s'
      else mapStore (left r) result

/-- A realm that is within its limit is still so after a call has begun. -/
theorem Store.entered_inLimit {s : Store} {r w : RealmId}
    (hroom : ¬(s.realm r).maxDepth < (s.realm r).depth + 1)
    (hw : (s.realm w).depth ≤ (s.realm w).maxDepth) :
    ((s.entered r).realm w).depth ≤ ((s.entered r).realm w).maxDepth := by
  rw [realm_entered hroom]
  split
  · next hr =>
    subst hr
    show (s.realm r).depth + 1 ≤ (s.realm r).maxDepth
    omega
  · exact hw

theorem Eval.withinWatched_eq {w r : RealmId} {s : Store} {x y : Eval α} (alarm : Eval α)
    (hw : (s.realm w).depth ≤ (s.realm w).maxDepth)
    (hx : ∀ s, (storeAfter (x s)).counts = s.counts)
    (hsame : ∀ s, (s.realm w).depth ≤ (s.realm w).maxDepth → y s = x s) :
    withinWatched w alarm r y s = within r x s := by
  rw [within_eq]
  refine (enter_bind r _ s).trans ?_
  split
  · rfl
  · split
    · rfl
    · next hroom =>
      have hbegun := Store.entered_inLimit hroom hw
      have hover := Store.realm_of_counts (hx (s.entered r))
      have hcounted : ((s.entered r).realm r).depth = (s.realm r).depth + 1 := by
        rw [Store.realm_entered hroom, if_pos rfl]
      rw [if_neg (by omega), hsame _ hbegun]
      dsimp only
      rw [(hover w).1, (hover w).2, (hover r).2, if_neg (by omega)]

/-- Under the watch calls run as they do without, from a store within the limit. -/
theorem mirror_watched (w : RealmId) (alarm : Eval Value) :
    Mirror (fun _ => True) id (fun _ _ => False)
      (fun s => (s.realm w).depth ≤ (s.realm w).maxDepth) (Eval.withinWatched w alarm) where
  kept := lasting_of_counts fun hcounts hw => by
    have hsame := Store.realm_of_counts hcounts w
    omega
  globals _ _ _ _ := rfl
  poll s r := .inr (mapStore_mapRealms_id _).symm
  within hw hx hsame := by
    refine .inr ((Eval.withinWatched_eq alarm hw hx fun s hs => ?_).trans
      (mapStore_mapRealms_id _).symm)
    exact ((hsame s hs).resolve_left nofun).trans (mapStore_mapRealms_id _)

/-- An expression evaluated under the watch over a realm. -/
def Expr.runWatched (w : RealmId) (alarm : Eval Value) (r : RealmId) (scope : Scope) (e : Expr) :
    Eval Value := fun s =>
  eval (callThrough (Eval.withinWatched w alarm) (s.callsLeft + 1)) r scope e s

/-- No alarm ever goes off. -/
theorem runWatched_eq {s : Store} {w : RealmId} (hw : (s.realm w).depth ≤ (s.realm w).maxDepth)
    (alarm : Eval Value) (r : RealmId) (scope : Scope) (e : Expr) :
    e.runWatched w alarm r scope s = e.run r scope s := by
  have hmirrored := (mirror_watched w alarm).eval .any (s.callsLeft + 1) r
    (fun b (_ : b ∈ scope) => trivial) e.fit_any hw
  exact (hmirrored.resolve_left nofun).trans (mapStore_mapRealms_id _)

theorem run_frame (r : RealmId) (scope : Scope) (e : Expr) (s : Store) :
    s.Frame (storeAfter (e.run r scope s)) :=
  moved_iff.1 (moves_frame.eval (s.callsLeft + 1) r scope e s)

/-! ## Lines -/

theorem globals_evaluate {r : RealmId} {e : Expr} {s : Store}
    {result : EStateM.Result RuntimeError Store Value} (hrun : evaluate r e s = result) :
    (storeAfter result).globals = s.globals := by
  rw [← hrun, evaluate_eq]
  calc (storeAfter (e.run r [] (s.atRest r))).globals
    _ = (s.atRest r).globals := (run_frame r [] e (s.atRest r)).globals
    _ = s.globals := Store.globals_modifyRealm_of_same fun _ => rfl

/-- Whether a line that defined a name bound it to the value that its expression has, and left all
other definitions as they were. -/
def DefinesOnly (r : RealmId) (line : String) (s : Store) (name : String) (after : Store) : Prop :=
  ∃ e v s', parseLine line = .ok (.definition name e) ∧ evaluate r e s = .ok v s' ∧
    after.globals = (s.modifyRealm r (·.define name v)).globals

/-- The definitions after a line: those from before, and the one that the line made. -/
theorem evalLine_globals (r : RealmId) (line : String) (s : Store) :
    match evalLine r line s with
    | .ok (.defined name) s' => DefinesOnly r line s name s'
    | .ok _ s' | .error _ s' => s'.globals = s.globals := by
  have hruns := lineRuns_evalLine r line s
  cases hline : evalLine r line s with
  | ok outcome s' =>
    rw [hline] at hruns
    cases hruns with
    | blank => rfl
    | @defined name e v s' hparsed hrun =>
      refine ⟨e, v, s', hparsed, hrun, ?_⟩
      rw [Store.globals_define, Store.globals_define]
      exact congrArg _ (globals_evaluate hrun)
    | value _ hrun => exact globals_evaluate hrun
  | error e s' =>
    rw [hline] at hruns
    cases hruns with
    | unread => rfl
    | failed hrun => exact globals_evaluate hrun

/-- Evaluation, to a value or to an error, leaves the calls in progress, the definitions and the
items of iterators in their frame, and a realm that is within its limit is so all the time. A line
changes definitions only by the one that it makes, which has the value of the line's expression. -/
theorem evaluation_frame :
    (∀ (s : Store) (r : RealmId) (scope : Scope) (e : Expr),
      s.Frame (storeAfter (e.run r scope s)) ∧
      ∀ w, (s.realm w).depth ≤ (s.realm w).maxDepth →
        ∀ alarm, e.runWatched w alarm r scope s = e.run r scope s) ∧
    ∀ (session : Session) (line : String),
      match session.evalLine line with
      | (.ok (.defined name), after) =>
        DefinesOnly Session.realm line session.store name after.store
      | (_, after) => after.store.globals = session.store.globals := by
  refine ⟨fun s r scope e => ⟨run_frame r scope e s, fun w hw alarm => ?_⟩, fun session line => ?_⟩
  · exact runWatched_eq hw alarm r scope e
  · have hglobals := evalLine_globals Session.realm line session.store
    unfold Session.evalLine
    cases hline : evalLine Session.realm line session.store with
    | ok outcome s =>
      rw [hline] at hglobals
      cases outcome <;> exact hglobals
    | error e s =>
      rw [hline] at hglobals
      exact hglobals

/-- The function `lambda x: x` called where one call is allowed, and a line that defines a name. -/
theorem evaluation_frame_identity :
    let session := Session.new 1
    let e : Expr := .call (.lambda ⟨[⟨"x", none⟩], none, [], none⟩ (.var "x"))
      [.positional (.literal (.int 1))]
    (session.store.realm 0).depth ≤ (session.store.realm 0).maxDepth ∧
      e.runWatched 0 (throw .exhausted) 0 [] session.store = e.run 0 [] session.store ∧
      (session.evalLine "n = 1").2.store.globals = [[("n", .int 1)]] := by
  intro session e
  refine ⟨by decide, (evaluation_frame.1 session.store 0 [] e).2 0 (by decide) _, ?_⟩
  have hparsed : parseLine "n = 1" = .ok (.definition "n" (.literal (.int 1))) := by
    with_unfolding_all rfl
  have hdefined : (session.evalLine "n = 1").1 = .ok (.defined "n") := by
    unfold Session.evalLine
    rw [evalLine_eq, hparsed]
    rfl
  have hline := evaluation_frame.2 session "n = 1"
  cases hresult : session.evalLine "n = 1" with
  | mk outcome after =>
    rw [hresult] at hline hdefined
    obtain rfl : outcome = .ok (.defined "n") := hdefined
    obtain ⟨_, v, s', hparsed', hrun, hglobals⟩ := hline
    cases hparsed.symm.trans hparsed'
    cases hrun
    exact hglobals

end ExprLang
