import ExprLang.SipHash
import ExprLang.Value

/-!
# Equality and hashes of values

Numbers are equal across their types, containers item by item, dicts as maps, whatever the order
of their entries; other values only to themselves. Equal values that have a hash have the same:
a number that is whole hashes to itself, a text and any other float by its bytes, and a value that
is known by its identity to its address, wherever that is (`Addresses`). Lists and dicts have none,
so they are no keys of a dict. The entries of a dict are looked up by equality of keys
(`valueUnder?`), and inserting under an equal key keeps the key that was there (`insertEntry`).
-/

namespace ExprLang

/-! ## Equality -/

mutual
/-- Whether two values are equal. -/
def Value.eq : Value → Value → Bool
  | .tuple _ a, .tuple _ b => Value.eqItems a b
  | .list _ a, .list _ b => Value.eqItems a b
  | .dict _ a, .dict _ b => a.length == b.length && Value.entriesIn a b
  | a, b =>
    match a.number?, b.number? with
    | some x, some y => x.beq y
    | _, _ => a.same b

/-- Whether two lists of values have the same length and equal items. -/
def Value.eqItems : List Value → List Value → Bool
  | [], [] => true
  | a :: as, b :: bs => a.eq b && Value.eqItems as bs
  | _, _ => false

/-- Whether every entry of the first list has a partner in the second: the first entry there
with an equal key has an equal value. -/
def Value.entriesIn : List (Value × Value) → List (Value × Value) → Bool
  | [], _ => true
  | (k, v) :: es, b =>
    (match b.find? fun e => k.eq e.1 with
      | .some e => v.eq e.2
      | .none => false) && Value.entriesIn es b
end

/-! ## Entries -/

/-- The value under the first key equal to `key`. -/
def valueUnder? (entries : List (Value × Value)) (key : Value) : Option Value :=
  (entries.find? fun e => e.1.eq key).map (·.2)

/-- The entries with `value` under `key`: in the place of the first entry with an equal key, which
keeps its key, or at the end. -/
def insertEntry (key value : Value) : List (Value × Value) → List (Value × Value)
  | [] => [(key, value)]
  | e :: es => if e.1.eq key then (e.1, value) :: es else e :: insertEntry key value es

/-- The entries of `a` with those of `b` put in one by one. -/
def mergeEntries (a b : List (Value × Value)) : List (Value × Value) :=
  b.foldl (fun es e => insertEntry e.1 e.2 es) a

/-! ## Hashes -/

/-- The hash of a text: of its bytes, with a byte at the end that is in no text. -/
def textHash (s : String) : Int64 :=
  (sipHash (s.toByteArray.toList ++ [0xFF])).toInt64

/-- The hash of a float: the integer it is, if it is one below 9.2 quintillion, else that of its
bytes. -/
def floatHash (x : Double) : Int64 :=
  match floatParts? x with
  | some p =>
    if p.isWhole && p.truncate.natAbs < 92 * Nat.pow 10 17 then Int64.ofInt p.truncate
    else (sipHash (wordBytes x.bits)).toInt64
  | none => (sipHash (wordBytes x.bits)).toInt64

/-- Where in memory the values are that are known by their identity. Nothing is known of it. -/
structure Addresses where
  ofIdentity : Identity → Int64
  ofIterator : IteratorId → Int64

/-- A hash, which may depend on where values are. -/
abbrev Hash := Addresses → Int64

mutual
/-- The hash of a value, if its type has one. -/
def Value.hash : Value → Except RuntimeError Hash
  | .none => .ok fun _ => 0x5f3759df
  | .bool b => .ok fun _ => Value.boolInt b
  | .int n => .ok fun _ => n
  | .float x => .ok fun _ => floatHash x
  | .complex z => .ok fun _ => floatHash z.re + floatHash z.im * 1000003
  | .str s => .ok fun _ => textHash s
  | .tuple _ items =>
    (Value.hashItems (fun _ => 0x345678) items).map fun h addresses =>
      h addresses ^^^ Int64.ofNat items.length
  | .list .. => .error (.type (.unhashable .list))
  | .dict .. => .error (.type (.unhashable .dict))
  | .iterator id => .ok fun addresses => addresses.ofIterator id
  | .function id _ => .ok fun addresses => addresses.ofIdentity id
  | .builtin b => .ok fun _ => textHash b.name
  | .method id _ => .ok fun addresses => addresses.ofIdentity id

/-- The hashes of items, worked into `acc`. -/
def Value.hashItems (acc : Hash) : List Value → Except RuntimeError Hash
  | [] => .ok acc
  | v :: vs => do
    let h ← v.hash
    Value.hashItems (fun addresses => (acc addresses ^^^ h addresses) * 1000003) vs
end

end ExprLang
