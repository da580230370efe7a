import ShiftReduce.CommandLine.Arguments

/-! # Manuals — what the program says about its commands

    A manual describes a command and says how to write it, with examples, the
    commands below it and its flags.  In lists everything on the right begins
    in one column. -/

namespace ShiftReduce

namespace CommandLine

/-- The manual of a command. -/
structure Manual where
  /-- The words that name the command. -/
  path : String
  description : String
  /-- The form of the command line, unless something has to follow the path. -/
  form : Option String
  examples : Option String := none
  /-- The commands below this one and what they are for. -/
  commands : List (String × String) := []
  /-- The flags of this command alone. -/
  flags : List Flag
  /-- Whether the command has the shared flags from the one above it. -/
  inherits : Bool := true
  deriving DecidableEq, Repr

namespace Manual

/-! ## Lists -/

/-- A text filled up with blanks to a length. -/
def padded (length : Nat) (s : String) : String :=
  s ++ String.ofList (List.replicate (length - s.length) ' ')

/-- How a flag is written. -/
def flagForm (f : Flag) : String :=
  let value := match f with
    | .trace => " string"
    | .maxIterations => " int"
    | _ => ""
  (if f.letter?.isSome then "  " else "      ") ++ f.title ++ value

/-- What a flag is for. -/
def flagPurpose (command : String) : Flag → String
  | .trace => "trace level [Debug|Info|Error] (default \"Error\")"
  | .maxIterations => "iteration ceiling of the parser loop"
  | .dot => "output the CFSM in GraphViz DOT format"
  | .html => "output the tables in HTML format"
  | .quiet => "do not print the trace, only the result"
  | .help => "help for " ++ command
  | .terse => "disable completion descriptions"

/-- A list of flags. -/
def flagLines (command : String) (flags : List Flag) : String :=
  let length := (flags.map fun f => (flagForm f).length).foldl max 0
  "\n".intercalate (flags.map fun f => padded (length + 3) (flagForm f) ++ flagPurpose command f)

/-- A list of commands. -/
def commandLines (commands : List (String × String)) : String :=
  String.join (commands.map fun c => "\n  " ++ padded 11 c.1 ++ " " ++ c.2)

/-! ## Manuals as text -/

/-- The last word of the path. -/
def command (m : Manual) : String :=
  String.ofList (m.path.toList.reverse.takeWhile fun c => c != ' ').reverse

/-- The text of a manual. -/
def text (m : Manual) : String :=
  let isGroup := !m.commands.isEmpty
  m.description ++ "\n\nUsage:"
    ++ (m.form.elim "" fun form => "\n  " ++ form)
    ++ (if isGroup then "\n  " ++ m.path ++ " [command]" else "")
    ++ (m.examples.elim "" fun examples => "\n\nExamples:\n" ++ examples)
    ++ (if isGroup then "\n\nAvailable Commands:" ++ commandLines m.commands else "")
    ++ "\n\nFlags:\n" ++ flagLines m.command m.flags
    ++ (if m.inherits then
        "\n\nGlobal Flags:\n" ++ flagLines m.command [.maxIterations, .trace] else "")
    ++ (if isGroup then
        "\n\nUse \"" ++ m.path ++ " [command] --help\" for more information about a command."
      else "")
    ++ "\n"

/-! ## The manuals -/

/-- What a command is for. -/
def purpose : Verb → String
  | .first => "Print the rules of a grammar and its FIRST and FOLLOW sets"
  | .parse => "Trace the moves of the SLR(1) parser for an input"
  | .repl => "Step interactively through SLR(1) parses"
  | .states => "Print the states of the LR(0) CFSM of a grammar"
  | .table => "Print the SLR(1) ACTION and GOTO tables of a grammar"
  | .help => "Help about any command"
  | .completion => "Generate the autocompletion script for the specified shell"
  | .script shell => "Generate the autocompletion script for " ++ shell.name
  | .suggest => "Request shell completion choices for the specified command-line"

/-- The manual of the program. -/
def program : Manual :=
  { path := "slrsim"
    description := "slrsim reads a context-free grammar and\n"
      ++ "- computes FIRST and FOLLOW sets,\n"
      ++ "- constructs the LR(0) CFSM and the SLR(1) parse tables, reporting conflicts,\n"
      ++ "- traces the moves of an SLR(1) parser for an input, step by step."
    form := none
    commands := [("completion", purpose .completion), ("first", purpose .first),
      ("help", purpose .help), ("parse", purpose .parse), ("repl", purpose .repl),
      ("states", purpose .states), ("table", purpose .table)]
    flags := [.help, .maxIterations, .trace]
    inherits := false }

/-- How to have a shell complete command lines. -/
def shellNotes : Shell → String
  | .bash => "Generate the autocompletion script for the bash shell.\n\n"
    ++ "This script depends on the 'bash-completion' package.\n"
    ++ "If it is not installed already, you can install it via your OS's package manager.\n\n"
    ++ "To load completions in your current shell session:\n\n"
    ++ "\tsource <(slrsim completion bash)\n\n"
    ++ "To load completions for every new session, execute once:\n\n"
    ++ "#### Linux:\n\n"
    ++ "\tslrsim completion bash > /etc/bash_completion.d/slrsim\n\n"
    ++ "#### macOS:\n\n"
    ++ "\tslrsim completion bash > $(brew --prefix)/etc/bash_completion.d/slrsim\n\n"
    ++ "You will need to start a new shell for this setup to take effect."
  | .fish => "Generate the autocompletion script for the fish shell.\n\n"
    ++ "To load completions in your current shell session:\n\n"
    ++ "\tslrsim completion fish | source\n\n"
    ++ "To load completions for every new session, execute once:\n\n"
    ++ "\tslrsim completion fish > ~/.config/fish/completions/slrsim.fish\n\n"
    ++ "You will need to start a new shell for this setup to take effect."
  | .powershell => "Generate the autocompletion script for powershell.\n\n"
    ++ "To load completions in your current shell session:\n\n"
    ++ "\tslrsim completion powershell | Out-String | Invoke-Expression\n\n"
    ++ "To load completions for every new session, add the output of the above command\n"
    ++ "to your powershell profile."
  | .zsh => "Generate the autocompletion script for the zsh shell.\n\n"
    ++ "If shell completion is not already enabled in your environment you will need\n"
    ++ "to enable it.  You can execute the following once:\n\n"
    ++ "\techo \"autoload -U compinit; compinit\" >> ~/.zshrc\n\n"
    ++ "To load completions in your current shell session:\n\n"
    ++ "\tsource <(slrsim completion zsh)\n\n"
    ++ "To load completions for every new session, execute once:\n\n"
    ++ "#### Linux:\n\n"
    ++ "\tslrsim completion zsh > \"$\x7bfpath[1]\x7d/_slrsim\"\n\n"
    ++ "#### macOS:\n\n"
    ++ "\tslrsim completion zsh > $(brew --prefix)/share/zsh/site-functions/_slrsim\n\n"
    ++ "You will need to start a new shell for this setup to take effect."

/-- The manual of a command. -/
def ofVerb : Verb → Manual
  | .first =>
    { path := "slrsim first"
      description := purpose .first
      form := "slrsim first <grammar file path> [flags]"
      examples := "  slrsim first expr.bnf"
      flags := [.help] }
  | .parse =>
    { path := "slrsim parse"
      description := "Input is split into terminals of the grammar, using longest match.\n"
        ++ "White space between terminals is optional."
      form := "slrsim parse <grammar file path> <input>... [flags]"
      examples := "  slrsim parse expr.bnf 'id * ( id + id )'"
      flags := [.help, .quiet] }
  | .repl =>
    { path := "slrsim repl"
      description := "repl starts an interactive session. Enter \"help\" for a list of commands.\n"
        ++ "Quit with <ctrl>D."
      form := "slrsim repl [grammar file path] [flags]"
      examples := "  slrsim repl expr.bnf"
      flags := [.help] }
  | .states =>
    { path := "slrsim states"
      description := purpose .states
      form := "slrsim states <grammar file path> [flags]"
      examples := "  slrsim states expr.bnf\n"
        ++ "  slrsim states --dot expr.bnf | dot -Tsvg > cfsm.svg"
      flags := [.dot, .help] }
  | .table =>
    { path := "slrsim table"
      description := purpose .table
      form := "slrsim table <grammar file path> [flags]"
      examples := "  slrsim table expr.bnf\n"
        ++ "  slrsim table --html expr.bnf > tables.html"
      flags := [.help, .html] }
  | .help =>
    { path := "slrsim help"
      description := "Help provides help for any command in the application.\n"
        ++ "Simply type slrsim help [path to command] for full details."
      form := "slrsim help [command] [flags]"
      flags := [.help] }
  | .completion =>
    { path := "slrsim completion"
      description :=
        "Generate the autocompletion script for slrsim for the specified shell.\n"
          ++ "See each sub-command's help for details on how to use the generated script."
      form := none
      commands := Shell.all.map fun shell => (shell.name, purpose (.script shell))
      flags := [.help] }
  | .script shell =>
    { path := "slrsim completion " ++ shell.name
      description := shellNotes shell
      form := "slrsim completion " ++ shell.name ++ (if shell = .bash then "" else " [flags]")
      flags := [.help, .terse] }
  | .suggest =>
    { path := "slrsim __complete"
      description := purpose .suggest
      form := "slrsim __complete [command-line]"
      flags := [.help] }

/-- The manual that words ask for, if they name a command.  The command that
    answers shells is not for users. -/
def find? (words : List String) : Option Manual :=
  match request words with
  | .ok (.usage _) => some program
  | .ok (.run .suggest _) => none
  | .ok (.run v _) => some (ofVerb v)
  | .error _ => none

end Manual

end CommandLine

end ShiftReduce
