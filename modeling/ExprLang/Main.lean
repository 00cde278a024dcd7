import ExprLang.CommandLine.Prompt

/-!
# The command line

The program on the files and streams of the system. The prompt reads its input line by line.
-/

namespace ExprLang

/-- All bytes that a stream still holds. -/
partial def readAll (stream : IO.FS.Stream) (bytes : ByteArray) : IO ByteArray := do
  let more ← stream.read 65536
  if more.isEmpty then return bytes else readAll stream (bytes ++ more)

/-- Why the system could not read the file of a name. -/
def ReadFault.ofSystem (name : String) : IO.Error → ReadFault
  | .permissionDenied .. => .denied
  | .inappropriateType _ code _ => if code == 21 then .isFolder else .notFolder
  | .invalidArgument .. => if name.contains '\x00' then .nullInName else .nameTooLong
  | _ => .missing

/-- The lines of a file of the system. -/
def readSystemFile (name : String) : IO LineSource := do
  try
    let bytes ← IO.FS.readBinFile name
    return LineSource.ofBytes bytes.toList
  catch e => return LineSource.unreadable (ReadFault.ofSystem name e)

/-- The system as the surroundings of the program. -/
def systemHost : Host IO where
  fileLines := readSystemFile
  inputLines := do
    return LineSource.ofBytes (← readAll (← IO.getStdin) ByteArray.empty).toList
  out text := IO.print text
  err text := IO.eprint text

/-- The prompt, with a line pending that goes on. -/
partial def promptLoop (input : IO.FS.Stream) (pending : Option (List Char)) (session : Session) :
    Guarded IO Unit := do
  let line ← input.getLine
  if line.isEmpty then
    discard <| (promptLines pending []).foldlM systemHost.promptLine session
  else
    let (kept, continues) := promptStep (pending.getD []) line.toList
    if continues then promptLoop input (some kept) session
    else promptLoop input none (← systemHost.promptLine session kept)

end ExprLang

def main (args : List String) : IO UInt32 := do
  let code ← ExprLang.systemHost.guard do
    let (code, session) ← ExprLang.systemHost.begin args
    if let some session := session then
      ExprLang.promptLoop (← IO.getStdin) none session
    return code
  return UInt32.ofNat code
