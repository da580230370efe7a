import ShiftReduce.CommandLine.Run

/-! # The program — reading files and lines, printing answers

    Everything that is said and decided is said and decided by
    `CommandLine.run` and `Session.eval`.  What is left is to read the files
    that a command line or a command names, and to print.  A file need not be
    UTF-8: the bytes that are not are kept in its text and printed as they
    were. -/

namespace ShiftReduce

namespace Program

/-- Prints a text, and the bytes that are kept in it as bytes. -/
def put (stream : IO.FS.Stream) (s : String) : IO Unit :=
  stream.write ⟨(Bytes.ofKept s).toArray⟩

/-- Reads a file.  Its text keeps every byte, so that two terminals that differ in
    the file differ in the grammar. -/
def readPath (path : String) : IO FileReply := do
  try
    return .text (Bytes.toKept (← IO.FS.readBinFile path).toList)
  catch e =>
    match e with
    | .inappropriateType _ 21 _ => return .directory []
    | .inappropriateType .. => return .blocked
    | .invalidArgument _ 22 _ => return .invalid
    | .invalidArgument .. => return .tooLong
    | _ => return .missing

/-- Looks for configuration files in a directory at home.  Only files with one
    of the usual names are found. -/
def settingsIn (home directory : String) : IO (List (String × FileReply)) := do
  let found ← Settings.usualNames.filterMapM fun name => do
    match ← readPath (home ++ "/" ++ directory ++ "/" ++ name) with
    | .text content => return some (name, FileReply.text content)
    | _ => return none
  return (directory, .directory (found.map fun f => f.1))
    :: found.map fun f => (directory ++ "/" ++ f.1, f.2)

/-- Reads the configuration files and the grammar of a command line. -/
def readerFor (path : Option String) : IO (String → FileReply) := do
  let home := (← IO.getEnv "HOME").getD "."
  let settings ← Settings.directories.mapM (settingsIn home)
  let grammar ← path.toList.mapM fun p => do
    return (p, ← readPath p)
  return fun p => (((grammar ++ settings.flatten).lookup p).getD .missing)

/-- The file that a line asks for. -/
def pathOf (line : String) : Option String :=
  (Session.Command.ofLine line).bind Session.Command.path?

/-- Evaluates lines; gives the session afterwards, unless it is to end. -/
def evalLines (stdout : IO.FS.Stream) (s : Session) : List String → IO (Option Session)
  | [] => return some s
  | line :: lines => do
    let reply ← match pathOf line with
      | some path => readPath path
      | none => pure .missing
    let (after, answer) := s.eval (fun _ => reply) line
    put stdout answer.output
    if let some e := answer.error then put stdout (Report.error e.message)
    stdout.flush
    if answer.quit then return none
    evalLines stdout after lines

/-- Evaluates lines as they are typed. -/
partial def converse (stdin stdout : IO.FS.Stream) (s : Session) : IO Unit := do
  stdout.putStr "slrsim> "
  stdout.flush
  let text ← stdin.getLine
  if text.isEmpty then return
  match ← evalLines stdout s (Session.typed [text]) with
  | some after => converse stdin stdout after
  | none => return

end Program

end ShiftReduce

open ShiftReduce in
/-- Carries out a command line. -/
def main (words : List String) : IO UInt32 := do
  let stdout ← IO.getStdout
  let job := CommandLine.job? words
  let read ← Program.readerFor (job.bind fun t => t.2.arguments.head?)
  match job with
  | some (.repl, o) =>
    let opening := CommandLine.openSession read (CommandLine.roundLimit read o) {} o.arguments.head?
    Program.put stdout opening.output
    match opening.error with
    | some e =>
      Program.put stdout (Report.error e.message)
      return 1
    | none =>
      Program.converse (← IO.getStdin) stdout opening.session
      (← IO.getStderr).putStr "Good bye!\n"
      return 0
  | _ =>
    let outcome := CommandLine.run read {} words []
    Program.put stdout outcome.written
    Program.put stdout outcome.shown
    return if outcome.error.isSome then 1 else 0
