import ExprLang.Value

/-!
# Binding arguments to parameters

A call hands over values in order and values by keyword. `Signature.bind` gives them to the
parameters of a builtin function, and `Closure.bind` to those of a lambda, where extra values
may be collected by a `*` and a `**` parameter. Of several faults in a call the one reported is
the first of: too many values, a keyword that cannot be taken (in order), a required parameter
left without a value, a required keyword-only parameter left without one.
-/

namespace ExprLang

/-- Values by keyword. -/
abbrev Keywords := List (String × Value)

/-- The values that a call hands over. -/
structure Arguments where
  positional : List Value
  keywords : Keywords

/-- Values in order and none by keyword. -/
def Arguments.ofList (values : List Value) : Arguments :=
  ⟨values, []⟩

/-! ## Slots -/

/-- A parameter, the value it has without an argument, and the argument given for it. -/
structure Slot where
  name : String
  fallback : Option Value
  given : Option Value

/-- The value a parameter ends up with. -/
def Slot.value? (slot : Slot) : Option Value :=
  slot.given <|> slot.fallback

/-- Slots for parameters to which nothing has been given. -/
def Slot.ofParams (params : List (Param Expr)) (fallbacks : List (Option Value)) : List Slot :=
  List.zipWith (fun p fallback => ⟨p.name, fallback, none⟩) params fallbacks

/-- Slots filled in order. -/
def Slot.fill : List Slot → List Value → List Slot
  | slot :: slots, v :: vs => { slot with given := some v } :: Slot.fill slots vs
  | slots, _ => slots

/-- Slots with a value given by name. -/
def Slot.give (name : String) (value : Value) (slots : List Slot) : List Slot :=
  slots.map fun slot => if slot.name == name then { slot with given := some value } else slot

/-- The names of slots left without a value. -/
def Slot.missing (slots : List Slot) : List String :=
  (slots.filter (·.value?.isNone)).map (·.name)

/-- Names and values of slots. -/
def Slot.entries (slots : List Slot) : Scope :=
  slots.filterMap fun slot => slot.value?.map fun v => (slot.name, v)

/-! ## Builtin functions -/

/-- The parameters of a builtin function, of which the first few are required. -/
structure Signature where
  function : String
  params : List String
  required : Nat

/-- The slots of a signature after a keyword. -/
def Signature.giveKeyword (sig : Signature) (slots : List Slot) (keyword : String × Value) :
    Except RuntimeError (List Slot) :=
  match slots.find? (·.name == keyword.1) with
  | none => .error (.type (.unexpectedKeyword sig.function keyword.1))
  | some slot =>
    if slot.given.isSome then .error (.type (.multipleValues sig.function keyword.1))
    else .ok (Slot.give keyword.1 keyword.2 slots)

/-- The value for each parameter of a signature. -/
def Signature.bind (sig : Signature) (args : Arguments) :
    Except RuntimeError (List (Option Value)) := do
  if sig.params.length < args.positional.length then
    throw (.type (.tooManyArguments sig.function sig.params.length args.positional.length))
  let slots := Slot.fill (sig.params.map fun name => ⟨name, none, none⟩) args.positional
  let slots ← args.keywords.foldlM sig.giveKeyword slots
  match (slots.take sig.required).findIdx? (·.given.isNone) with
  | some i => throw (.type (.missingArgument sig.function (sig.params[i]?.getD "") (i + 1)))
  | none => return slots.map (·.given)

/-! ## Lambdas -/

/-- The name of a lambda in messages. -/
def lambdaName : String := "<lambda>"

/-- The parameters of a lambda in the course of a call, with the keywords that a `**`
parameter collects. -/
structure Filling where
  positional : List Slot
  keywordOnly : List Slot
  collected : Keywords

/-- The parameters after a keyword. -/
def Filling.giveKeyword (collects : Bool) (f : Filling) (keyword : String × Value) :
    Except RuntimeError Filling :=
  match f.positional.find? (·.name == keyword.1) with
  | some slot =>
    if slot.given.isSome then .error (.type (.multipleValues lambdaName keyword.1))
    else .ok { f with positional := Slot.give keyword.1 keyword.2 f.positional }
  | none =>
    if f.keywordOnly.any (·.name == keyword.1) then
      .ok { f with keywordOnly := Slot.give keyword.1 keyword.2 f.keywordOnly }
    else if collects then .ok { f with collected := f.collected ++ [keyword] }
    else .error (.type (.unexpectedKeyword lambdaName keyword.1))

/-- The defaults that there are of positional parameters, in their order. -/
def Closure.defaultValues {ν : Type} (c : Closure ν) : List ν :=
  c.defaults.filterMap id

/-- The number of positional parameters without a default. -/
def Closure.requiredCount {ν : Type} (c : Closure ν) : Nat :=
  c.params.positional.length - c.defaultValues.length

/-- The default of the positional parameter at a place. The defaults that there are belong to the
last parameters. -/
def Closure.default? {ν : Type} (c : Closure ν) (i : Nat) : Option ν :=
  if c.requiredCount ≤ i then c.defaultValues[i - c.requiredCount]? else none

/-- The default, or none, of each positional parameter. -/
def Closure.fallbacks {ν : Type} (c : Closure ν) : List (Option ν) :=
  (List.range c.params.positional.length).map c.default?

/-- The variables that a call gives a lambda: its parameters with their values. The tuple of
extra values and the dict of extra keywords are known by the two identities. -/
def Closure.bind (c : Closure Value) (tupleId dictId : Identity) (args : Arguments) :
    Except RuntimeError Scope := do
  let params := c.params
  let extra := args.positional.drop params.positional.length
  if params.varargs.isNone && !extra.isEmpty then
    throw (.type (.tooManyPositional c.requiredCount params.positional.length
      args.positional.length))
  let start : Filling :=
    { positional := Slot.fill (Slot.ofParams params.positional c.fallbacks) args.positional
      keywordOnly := Slot.ofParams params.keywordOnly c.keywordDefaults
      collected := [] }
  let filled ← args.keywords.foldlM (Filling.giveKeyword params.kwargs.isSome) start
  let missing := Slot.missing filled.positional
  if !missing.isEmpty then throw (.type (.missingPositional missing))
  let missing := Slot.missing filled.keywordOnly
  if !missing.isEmpty then throw (.type (.missingKeywordOnly missing))
  let extraTuple := params.varargs.map fun name => (name, Value.tuple tupleId extra)
  let extraDict := params.kwargs.map fun name =>
    (name, Value.dict dictId (filled.collected.map fun (key, v) => (.str key, v)))
  return Slot.entries filled.positional ++ extraTuple.toList ++ Slot.entries filled.keywordOnly
    ++ extraDict.toList

end ExprLang
