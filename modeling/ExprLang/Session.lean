import ExprLang.Source
import ExprLang.Text.Lines
import ExprLang.Text.Names

/-!
# Sessions

A session evaluates lines one after the other, with the definitions they make, in a realm of
its own. It loads whole texts: each logical line in turn, printing values, up to the first that
fails. A text that cannot be read to its end is loaded as far as it can.
-/

namespace ExprLang

/-! ## Texts to load -/

/-- Why the reading of a text ended early. -/
inductive ReadFault where
  | missing
  | denied
  | notFolder
  | isFolder
  | nameTooLong
  | nullInName
  | badEncoding
  deriving DecidableEq, Repr

/-- The fault in words. -/
def ReadFault.message : ReadFault → String
  | .missing => "No such file or directory (os error 2)"
  | .denied => "Permission denied (os error 13)"
  | .notFolder => "Not a directory (os error 20)"
  | .isFolder => "Is a directory (os error 21)"
  | .nameTooLong => "File name too long (os error 36)"
  | .nullInName => "file name contained an unexpected NUL byte"
  | .badEncoding => "stream did not contain valid UTF-8"

/-- The physical lines that could be read of a text, and what ended the reading early. -/
structure LineSource where
  lines : List (List Char)
  fault : Option ReadFault

/-- A text that is at hand. -/
def LineSource.ofText (text : String) : LineSource :=
  ⟨splitLines text.toList, none⟩

/-- A text of which nothing can be read. -/
def LineSource.unreadable (fault : ReadFault) : LineSource :=
  ⟨[], some fault⟩

/-- A line given in bytes, if they encode one. -/
def decodeLine? (bytes : List UInt8) : Option (List Char) :=
  (String.fromUTF8? (ByteArray.mk bytes.toArray)).map String.toList

/-- The lines before the first that is not encoded properly. -/
def LineSource.ofByteLines : List (List UInt8) → LineSource
  | [] => ⟨[], none⟩
  | line :: lines =>
    match decodeLine? line with
    | none => ⟨[], some .badEncoding⟩
    | some text =>
      let rest := LineSource.ofByteLines lines
      ⟨text :: rest.lines, rest.fault⟩

/-- A text given in bytes. -/
def LineSource.ofBytes (bytes : List UInt8) : LineSource :=
  LineSource.ofByteLines (splitByteLines bytes)

/-! ## Loading -/

/-- Why a text was not loaded to its end. -/
inductive LoadFault where
  | unreadable (fault : ReadFault)
  | line (number : Nat) (failure : Failure)
  deriving DecidableEq, Repr

/-- The fault as it is reported to a user. -/
def LoadFault.report : LoadFault → String
  | .unreadable fault => fault.message
  | .line number failure => "line " ++ Nat.repr number ++ ": " ++ failure.report

/-- The panic that a fault is, if it is one. -/
def LoadFault.panic? : LoadFault → Option Panic
  | .unreadable _ => none
  | .line _ failure => failure.panic?

/-- What loading a text printed, and what ended it early. -/
structure Loaded where
  printed : String
  fault : Option LoadFault

/-- What the prompt and a loaded text show of a line. -/
def Outcome.printed : Outcome → String
  | .value v => v.text ++ "\n"
  | .defined _ => ""
  | .nothing => ""

/-- Evaluates logical lines up to the first that fails. -/
def loadLines (r : RealmId) : List LogicalLine → Store → Loaded × Store
  | [], s => (⟨"", none⟩, s)
  | line :: lines, s =>
    match evalLine r (String.ofList line.text) s with
    | .error e s => (⟨"", some (.line line.number e)⟩, s)
    | .ok outcome s =>
      let (rest, s) := loadLines r lines s
      (⟨outcome.printed ++ rest.printed, rest.fault⟩, s)

/-- The logical lines of a text. What is pending at the end is a line too, if the end was
reached. -/
def LineSource.logicalLines (source : LineSource) : List LogicalLine :=
  let (complete, pending) := ExprLang.logicalLines 1 ⟨1, []⟩ source.lines
  if source.fault.isNone && !pending.text.isEmpty then complete ++ [pending] else complete

/-- Evaluates the lines of a text. -/
def load (r : RealmId) (source : LineSource) (s : Store) : Loaded × Store :=
  let (loaded, s) := loadLines r source.logicalLines s
  (⟨loaded.printed, loaded.fault <|> source.fault.map .unreadable⟩, s)

/-! ## Sessions -/

/-- A session: a store with one realm in it. -/
structure Session where
  store : Store

namespace Session

/-- The realm of a session. -/
def realm : RealmId := 0

/-- A session without definitions. -/
def new (maxDepth : Nat) (addresses : Addresses := .apart) : Session :=
  ⟨((Store.empty addresses).addRealm maxDepth).2⟩

/-- Evaluates a line. -/
def evalLine (session : Session) (line : String) : Except Failure Outcome × Session :=
  match ExprLang.evalLine realm line session.store with
  | .ok outcome s => (.ok outcome, ⟨s⟩)
  | .error e s => (.error e, ⟨s⟩)

/-- Evaluates the lines of a text. -/
def load (session : Session) (source : LineSource) : Loaded × Session :=
  let (loaded, s) := ExprLang.load realm source session.store
  (loaded, ⟨s⟩)

/-- The session with its realm changed. -/
def modify (session : Session) (f : Realm → Realm) : Session :=
  ⟨session.store.modifyRealm realm f⟩

/-! ## Definitions -/

/-- The definition of a name. -/
def definition? (session : Session) (name : String) : Option Value :=
  (session.store.realm realm).globals.lookup name

/-- The defined names, sorted. -/
def definedNames (session : Session) : List String :=
  sortNames ((session.store.realm realm).globals.map (·.1))

/-- The defined and builtin names that start with a text, sorted. -/
def namesWith (session : Session) (start : String) : List String :=
  let names := session.definedNames ++ Builtin.all.map (·.name)
  sortedNames (names.filter (·.startsWith start))

/-- Forgets every definition. -/
def reset (session : Session) : Session :=
  session.modify ({ · with globals := [] })

/-! ## Interrupts -/

/-- Asks for an interrupt, or takes the wish back. -/
def setInterrupt (session : Session) (interrupted : Bool) : Session :=
  session.modify ({ · with interrupted := interrupted })

/-- Whether an interrupt has been asked for and not been obeyed yet. -/
def interrupted (session : Session) : Bool :=
  (session.store.realm realm).interrupted

end Session

end ExprLang
