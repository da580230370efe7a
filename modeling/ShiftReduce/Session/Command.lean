import ShiftReduce.Text.Blank

/-! # Commands — lines of an interactive session -/

namespace ShiftReduce

namespace Session

/-- A command of the user. -/
inductive Command where
  | quit
  | help
  | load (arguments : List String)
  | parse (input : String)
  | resume (input : String)
  | grammar
  | first
  | states
  | table
  | next
  | previous
  | firstStep
  | last
  | step (arguments : List String)
  | trace
  | tree
  | unknown (name : String)
  deriving DecidableEq, Repr

/-- The command with a name, its arguments and all that follows the name. -/
def Command.ofWords (name : String) (arguments : List String) (rest : String) : Command :=
  match name with
  | "quit" | "q" => .quit
  | "help" | "?" => .help
  | "load" => .load arguments
  | "parse" => .parse rest
  | "resume" => .resume rest
  | "grammar" => .grammar
  | "first" => .first
  | "states" => .states
  | "table" => .table
  | "next" | "n" => .next
  | "prev" | "p" => .previous
  | "first-step" => .firstStep
  | "last" => .last
  | "step" => .step arguments
  | "trace" => .trace
  | "tree" => .tree
  | _ => .unknown name

/-- The command on a line; a blank line has none. -/
def Command.ofLine (line : String) : Option Command :=
  match Text.words line.toList with
  | [] => none
  | name :: arguments =>
    let rest := Text.trim (Text.dropLeading name (Text.trim line.toList))
    some (.ofWords (String.ofList name) (arguments.map String.ofList) (String.ofList rest))

/-- The file that a command asks for. -/
def Command.path? : Command → Option String
  | .load [path] => some path
  | _ => none

/-- The explanation of the commands. -/
def helpText : String :=
  "load <file>       load a grammar\n"
    ++ "grammar           print the rules of the grammar\n"
    ++ "first             print FIRST and FOLLOW sets\n"
    ++ "states            print the states of the CFSM\n"
    ++ "table             print the SLR(1) tables\n"
    ++ "parse <input>     parse input and display the first step\n"
    ++ "next, prev        move to the next or previous step\n"
    ++ "first-step, last  move to the first or last step\n"
    ++ "step <number>     move to a step\n"
    ++ "trace             print all steps of the parse\n"
    ++ "tree              print the parse forest of the current step\n"
    ++ "resume <input>    continue parsing from the current step with new input\n"
    ++ "quit              leave\n"

end Session

end ShiftReduce
