import ShiftReduce.Automaton.Dot
import ShiftReduce.CommandLine.Manual
import ShiftReduce.Session.Basic
import ShiftReduce.Session.Typing
import ShiftReduce.Settings
import ShiftReduce.Table.Html

/-! # The commands of the workbench -/

namespace ShiftReduce

namespace CommandLine

/-- What a command comes to: an error, what is shown and what is written for
    other programs, and the cache afterwards. -/
structure Outcome where
  error : Option String := none
  shown : String := ""
  written : String := ""
  cache : Compilation.Cache
  deriving Repr

/-- Ends a command with an error, which is shown too. -/
def Outcome.fail (o : Outcome) (message : String) : Outcome :=
  { o with error := some message, shown := o.shown ++ Report.error message }

/-- The paths of the configuration files in a directory. -/
def settingsPaths (read : String → FileReply) (directory : String) : List String :=
  match read directory with
  | .directory names => (Settings.choose names).map fun name => directory ++ "/" ++ name
  | _ => []

/-- The settings in the first place that has configuration files. -/
def findSettings (read : String → FileReply) : Settings :=
  let found := (Settings.directories.map (settingsPaths read)).find? fun paths => !paths.isEmpty
  Settings.ofTexts ((found.getD []).filterMap fun path =>
    match read path with
    | .text content => some content
    | _ => none)

/-- The number of rounds that a run may have. -/
def roundLimit (read : String → FileReply) (o : Options) : Nat :=
  Simulator.limitFrom [o.maxIterations, (findSettings read).maxIterations]

/-- Compiles the grammar at a path and goes on with it. -/
def withGrammar (read : String → FileReply) (cache : Compilation.Cache) (path : String)
    (next : Compilation → Outcome → Outcome) : Outcome :=
  match loadGrammar read path with
  | .error e => Outcome.fail { cache } e.message
  | .ok g =>
    match cache.compile g with
    | .error e => Outcome.fail { cache } e.message
    | .ok (c, cache) => next c { cache }

/-- Parses input and shows the trace and the tree. -/
def parseCommand (limit : Nat) (quiet : Bool) (input : String) (c : Compilation) (o : Outcome) :
    Outcome :=
  let r := (Simulator.make (some c.grammar) (some c.table) limit).parse (Bytes.ofText input) none
  let traced := { o with
    shown := Session.warning c ++ (if quiet then "" else Report.trace r.steps) }
  if r.accepted then
    { traced with
      shown := traced.shown ++ Report.success "input accepted" ++ Report.forest r.forest }
  else
    traced.fail (r.lastKind.text ++ ": "
      ++ ((r.last?.map fun s => s.move.explanation).getD ""))

/-- Begins an interactive session, with a grammar if a path is given, and
    welcomes the user. -/
def openSession (read : String → FileReply) (limit : Nat) (cache : Compilation.Cache)
    (path : Option String) : Session.Outcome :=
  match path with
  | none => Session.say { limit, cache } Session.welcome
  | some p =>
    let o := Session.load read { limit, cache } p
    if o.error.isSome then o else { o with output := o.output ++ Session.welcome }

/-- An interactive session in which the user types the given lines. -/
def replCommand (read : String → FileReply) (limit : Nat) (cache : Compilation.Cache)
    (path : Option String) (lines : List String) : Outcome :=
  let opening := openSession read limit cache path
  match opening.error with
  | some e => Outcome.fail { cache } e.message
  | none =>
    let (final, output) := opening.session.converse read (Session.typed lines)
    { shown := opening.output ++ output, cache := final.cache }

/-- Carries out a command. -/
def perform (read : String → FileReply) (cache : Compilation.Cache) (lines : List String)
    (v : Verb) (o : Options) : Outcome :=
  let path := o.arguments.headD ""
  match v with
  | .first => withGrammar read cache path fun c out =>
    { out with shown := Report.grammar c.grammar ++ Report.sets c.analysis }
  | .states => withGrammar read cache path fun c out =>
    if o.dot then { out with written := c.automaton.toDot }
    else { out with shown := Report.states c.automaton }
  | .table => withGrammar read cache path fun c out =>
    if o.html then { out with written := c.table.actionHtml ++ c.table.gotoHtml }
    else { out with shown := Report.table c.table }
  | .parse => withGrammar read cache path
    (parseCommand (roundLimit read o) o.quiet (" ".intercalate (o.arguments.drop 1)))
  | .repl => replCommand read (roundLimit read o) cache o.arguments.head? lines
  | .help => { cache, written := ((Manual.find? o.arguments).map Manual.text).getD "" }
  | .completion => { cache, written := (Manual.ofVerb v).text }
  | .script _ | .suggest => { cache }

/-- The command with its options, if a command line has one that is to be
    carried out. -/
def job? (words : List String) : Option (Verb × Options) :=
  match request words with
  | .ok (.run v rest) =>
    match options v rest with
    | .ok o => if o.help then none else some (v, o)
    | .error _ => none
  | _ => none

/-- Carries out a command line.  The lines are what the user types in an
    interactive session. -/
def run (read : String → FileReply) (cache : Compilation.Cache) (words lines : List String) :
    Outcome :=
  match request words with
  | .error e => Outcome.fail { cache } e.message
  | .ok (.usage rest) =>
    match Options.words (Flag.shared ++ [.help]) rest.length {} rest with
    | .error e => Outcome.fail { cache } e.message
    | .ok _ => { cache, written := Manual.program.text }
  | .ok (.run v rest) =>
    match options v rest with
    | .error e => Outcome.fail { cache } e.message
    | .ok o =>
      if o.help then { cache, written := (Manual.ofVerb v).text }
      else perform read cache lines v o

end CommandLine

end ShiftReduce
