import ExprLang.CommandLine.Command
import ExprLang.CommandLine.Options
import ExprLang.Session

/-!
# The program

What the program does with its arguments, its input and the files around it. Whatever it reads
and writes goes through a `Host`, so that a run is the same function of its surroundings for any
of them. Files come first; then the input is loaded like a file, or read by the prompt, where a
failing line is reported and the next one is read. A line that panics ends the run (`Guarded`).
-/

namespace ExprLang

/-- The surroundings of the program. -/
structure Host (m : Type → Type) where
  /-- The lines of a file. -/
  fileLines : String → m LineSource
  /-- The lines of the input. -/
  inputLines : m LineSource
  /-- Writes to the output. -/
  out : String → m Unit
  /-- Writes a message. -/
  err : String → m Unit

/-- A part of a run, which a panic may end. -/
abbrev Guarded (m : Type → Type) := ExceptT Panic m

/-- The exit code of a run that a panic ended. -/
def panicCode : Nat := 101

variable {m : Type → Type} [Monad m] (host : Host m)

/-- The exit code of a run, which reports the panic if one ended it. -/
def Host.guard (run : Guarded m Nat) : m Nat := do
  match ← run.run with
  | .ok code => return code
  | .error cause =>
    host.err ("panicked: " ++ cause.message ++ "\n")
    return panicCode

/-! ## Loading -/

/-- Loads a text into a session, and whether it went well. -/
def Host.load (name : String) (source : LineSource) (session : Session) :
    Guarded m (Bool × Session) := do
  let (loaded, session) := session.load source
  host.out loaded.printed
  match loaded.fault with
  | none => return (true, session)
  | some fault =>
    if let some cause := fault.panic? then throw cause
    host.err ("failed to load file '" ++ name ++ "': " ++ fault.report ++ "\n")
    return (false, session)

/-- Loads a file into a session. -/
def Host.loadFile (name : String) (session : Session) : Guarded m (Bool × Session) := do
  host.load name (← host.fileLines name) session

/-- Loads files up to the first that fails. -/
def Host.loadFiles : List String → Session → Guarded m (Bool × Session)
  | [], session => return (true, session)
  | name :: names, session => do
    let (loaded, session) ← host.loadFile name session
    if loaded then Host.loadFiles names session else return (false, session)

/-! ## Lines of the prompt -/

/-- The listing of all definitions. -/
def Session.listing (session : Session) : String :=
  String.join <| session.definedNames.map fun name =>
    match session.definition? name with
    | some v => name ++ " = " ++ v.text ++ "\n"
    | none => ""

/-- Carries out a command. -/
def Host.command (c : Command) (argument : String) (session : Session) : Guarded m Session := do
  match c with
  | .help =>
    host.out usageText
    return session
  | .load => return (← host.loadFile argument session).2
  | .vars =>
    host.out session.listing
    return session
  | .reset => return session.reset

/-- The name and the argument in a command line, cut at the first space. -/
def commandWords (line : List Char) : String × String :=
  (String.ofList (line.takeWhile (· != ' ')), String.ofList (trim (line.dropWhile (· != ' '))))

/-- Carries out a line that follows a colon. -/
def Host.commandLine (line : List Char) (session : Session) : Guarded m Session := do
  let (name, argument) := commandWords line
  match Command.ofName? name with
  | none =>
    host.err ("unknown command ':" ++ name ++ "', try ':help'\n")
    return session
  | some c =>
    if c.needsArgument && argument.isEmpty then
      host.err ("command ':" ++ c.longName ++ "' expects an argument\n")
      return session
    else if !c.needsArgument && !argument.isEmpty then
      host.err ("command ':" ++ c.longName ++ "' takes no argument\n")
      return session
    else host.command c argument session

/-- Carries out a line of the prompt. An interrupt asked for before it does not count. -/
def Host.promptLine (session : Session) (line : List Char) : Guarded m Session := do
  match line with
  | [] => return session
  | ':' :: rest => host.commandLine rest (session.setInterrupt false)
  | line =>
    match (session.setInterrupt false).evalLine (String.ofList line) with
    | (.ok outcome, session) =>
      host.out outcome.printed
      return session
    | (.error e, session) =>
      if let some cause := e.panic? then throw cause
      host.err (e.report ++ "\n")
      return session

/-! ## Runs -/

/-- The prompt over given physical lines. -/
def Host.prompt (lines : List (List Char)) (session : Session) : Guarded m Session :=
  (promptLines none lines).foldlM host.promptLine session

/-- Loads the files of a run, and its input if it asks for that, and says whether a prompt is to
follow. The exit code counts if none does. -/
def Host.start (options : Options) : Guarded m (Nat × Option Session) := do
  let (loaded, session) ← host.loadFiles options.files (Session.new options.maxDepth)
  if !loaded then return (1, none)
  else if options.interactive then return (0, some session)
  else if !options.files.isEmpty then return (0, none)
  else
    let (loaded, _) ← host.load "stdin" (← host.inputLines) session
    return (if loaded then 0 else 1, none)

/-- What the program does before a prompt. -/
def Host.begin (args : List String) : Guarded m (Nat × Option Session) := do
  match Options.default.read args with
  | .ok .usage =>
    host.out usageText
    return (0, none)
  | .ok (.run options) => host.start options
  | .error fault =>
    host.err (fault.message ++ "\ntry 'lambded --help'.\n")
    return (0, none)

/-- A run of the program on its whole input. The result is the exit code. -/
def Host.run (args : List String) : m Nat :=
  host.guard do
    let (code, session) ← host.begin args
    match session with
    | none => return code
    | some session =>
      let input ← host.inputLines
      discard <| host.prompt input.lines session
      return code

end ExprLang
