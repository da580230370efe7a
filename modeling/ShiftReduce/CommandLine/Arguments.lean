import ShiftReduce.Text.LetterCase
import ShiftReduce.Text.Numeral
import ShiftReduce.Text.Quoted
import ShiftReduce.Text.Switch

/-! # Command lines — commands, flags and arguments

    A command line names a command; flags may stand anywhere.  A long flag
    starts with two dashes, a short one with a single dash, and several short
    ones may share it.  A flag that takes a value takes it behind an equals
    sign or from the next word.  Two dashes alone end the flags. -/

namespace ShiftReduce

namespace CommandLine

/-- The shells that can complete command lines. -/
inductive Shell where
  | bash
  | fish
  | powershell
  | zsh
  deriving DecidableEq, Repr

/-- The name of a shell. -/
def Shell.name : Shell → String
  | .bash => "bash"
  | .fish => "fish"
  | .powershell => "powershell"
  | .zsh => "zsh"

/-- All shells. -/
def Shell.all : List Shell :=
  [.bash, .fish, .powershell, .zsh]

/-- The commands. -/
inductive Verb where
  | first
  | parse
  | repl
  | states
  | table
  /-- Explains the other commands. -/
  | help
  /-- Explains how to have command lines completed. -/
  | completion
  /-- Prints what makes a shell complete command lines. -/
  | script (shell : Shell)
  /-- Answers a shell that completes a command line. -/
  | suggest
  deriving DecidableEq, Repr

/-- The commands that are suggested for a mistyped name, with their names. -/
def Verb.listed : List (String × Verb) :=
  [("first", .first), ("parse", .parse), ("repl", .repl), ("states", .states), ("table", .table),
    ("completion", .completion)]

/-- The commands that a command line may begin with, with their names. -/
def Verb.named : List (String × Verb) :=
  Verb.listed ++ [("help", .help), ("__complete", .suggest), ("__completeNoDesc", .suggest)]

/-- A flag. -/
inductive Flag where
  | trace
  | maxIterations
  | dot
  | html
  | quiet
  | help
  | terse
  deriving DecidableEq, Repr

namespace Flag

/-- The long name of a flag. -/
def name : Flag → String
  | .trace => "trace"
  | .maxIterations => "max-iter"
  | .dot => "dot"
  | .html => "html"
  | .quiet => "quiet"
  | .help => "help"
  | .terse => "no-descriptions"

/-- The short name of a flag. -/
def letter? : Flag → Option Char
  | .trace => some 't'
  | .quiet => some 'q'
  | .help => some 'h'
  | _ => none

/-- Whether a flag takes a value. -/
def takesValue : Flag → Bool
  | .trace | .maxIterations => true
  | _ => false

/-- How messages name a flag. -/
def title (f : Flag) : String :=
  match f.letter? with
  | some c => "-" ++ String.singleton c ++ ", --" ++ f.name
  | none => "--" ++ f.name

/-- The flags that every command has. -/
def shared : List Flag :=
  [.trace, .maxIterations]

/-- The flags of a command. -/
def ofVerb : Verb → List Flag
  | .first => shared ++ [.help]
  | .parse => shared ++ [.help, .quiet]
  | .repl => shared ++ [.help]
  | .states => shared ++ [.help, .dot]
  | .table => shared ++ [.help, .html]
  | .help => shared ++ [.help]
  | .completion => shared ++ [.help]
  | .script _ => shared ++ [.help, .terse]
  | .suggest => []

end Flag

/-- What is wrong with a command line. -/
inductive Error where
  | unknownCommand (name : String) (similar : List String)
  | unexpected (word : String) (shell : Shell)
  | badFlag (word : String)
  | unknownFlag (name : String)
  | unknownLetter (letters : String)
  | missingValue (word : String)
  | missingLetterValue (letters : String)
  | invalidNumber (value : String) (defect : Numeral.Defect)
  | invalidSwitch (value : String) (flag : Flag)
  | exactly (received : Nat)
  | atLeastOne
  | atMostOne (received : Nat)
  deriving DecidableEq, Repr

/-- A character between single quotes. -/
def quoteLetter (c : Char) : String :=
  if c == '\'' then "'\\''"
  else if c == '"' then "'\"'"
  else "'" ++ String.ofList (Text.escapeChar c) ++ "'"

/-- How messages name a short flag.  It is one byte, so of a character outside
    ASCII only the first byte is named. -/
def letterTitle (letters : String) : String :=
  match Bytes.ofText letters with
  | [] => "''"
  | b :: _ => quoteLetter (Char.ofNat b.toNat)

/-- The wording of an error. -/
def Error.message : Error → String
  | .unknownCommand name similar =>
    "unknown command " ++ Text.quote name ++ " for \"slrsim\""
      ++ (if similar.isEmpty then ""
        else "\n\nDid you mean this?\n" ++ String.join (similar.map fun s => "\t" ++ s ++ "\n"))
  | .unexpected word shell =>
    "unknown command " ++ Text.quote word ++ " for \"slrsim completion " ++ shell.name ++ "\""
  | .badFlag word => "bad flag syntax: " ++ word
  | .unknownFlag name => "unknown flag: --" ++ name
  | .unknownLetter letters =>
    "unknown shorthand flag: " ++ letterTitle letters ++ " in -" ++ letters
  | .missingValue word => "flag needs an argument: " ++ word
  | .missingLetterValue letters =>
    "flag needs an argument: " ++ letterTitle letters ++ " in -" ++ letters
  | .invalidNumber value defect =>
    "invalid argument " ++ Text.quote value ++ " for " ++ Text.quote Flag.maxIterations.title
      ++ " flag: strconv.ParseInt: parsing " ++ Text.quote value ++ ": " ++ defect.message
  | .invalidSwitch value flag =>
    "invalid argument " ++ Text.quote value ++ " for " ++ Text.quote flag.title
      ++ " flag: strconv.ParseBool: parsing " ++ Text.quote value ++ ": invalid syntax"
  | .exactly n => "accepts 1 arg(s), received " ++ toString n
  | .atLeastOne => "requires at least 1 arg(s), only received 0"
  | .atMostOne n => "accepts at most 1 arg(s), received " ++ toString n

/-! ## The command -/

/-- Whether a word names a flag and takes the next word for its value, as far
    as can be told before the command is known. -/
def takesNext (flags : List Flag) (word : String) : Bool :=
  match word.toList with
  | '-' :: '-' :: name =>
    !name.contains '='
      && !flags.any fun f => f.name == String.ofList name && !f.takesValue
  | ['-', c] =>
    c.toNat < 0x80 && c != '='
      && !flags.any fun f => f.letter? == some c && !f.takesValue
  | _ => false

/-- Whether a word begins with a dash. -/
def isFlagWord (word : String) : Bool :=
  word.toList.head? == some '-'

/-- The first word that is neither a flag nor the value of one, as far as that
    can be told before the command is known.  A value at the very end does not
    count. -/
def firstPlain? (flags : List Flag) : List String → Option String
  | [] => none
  | word :: rest =>
    if word = "--" then none
    else if takesNext flags word then
      match rest with
      | _ :: next :: more => firstPlain? flags (next :: more)
      | _ => none
    else if word != "" && !isFlagWord word then some word
    else firstPlain? flags rest

/-- The words without the one that names the command. -/
def dropCommand (flags : List Flag) (name : String) : List String → List String
  | [] => []
  | word :: rest =>
    if word = "--" then word :: rest
    else if takesNext flags word then
      match rest with
      | [] => [word]
      | value :: more => word :: value :: dropCommand flags name more
    else if !isFlagWord word && word == name then rest
    else word :: dropCommand flags name rest

/-- One row of the table of distances, counting insertions, deletions and
    replacements of bytes. -/
def distanceRow (c : UInt8) : Nat → Nat → Bytes → List Nat → List Nat
  | left, diagonal, d :: ds, up :: ups =>
    let here := min (min (left + 1) (up + 1)) (diagonal + (if c == d then 0 else 1))
    here :: distanceRow c here up ds ups
  | _, _, _, _ => []

/-- The bytes of a text with capital letters made small. -/
def smallBytes (s : String) : Bytes :=
  Bytes.ofText (String.ofList (s.toList.map Text.small))

/-- The distance of two texts, letter case apart. -/
def distance (s t : String) : Nat :=
  let target := smallBytes t
  let first := List.range (target.length + 1)
  let final := (smallBytes s).foldl
    (fun row c =>
      match row with
      | [] => []
      | d :: ups => (d + 1) :: distanceRow c (d + 1) d target ups)
    first
  final.getLastD 0

/-- The commands that a mistyped name may stand for. -/
def similar (name : String) : List String :=
  (Verb.listed.map fun v => v.1).filter fun v =>
    distance name v ≤ 2 || (smallBytes name).isPrefixOf (smallBytes v)

/-- What a command line asks for. -/
inductive Request where
  | usage (words : List String)
  | run (verb : Verb) (words : List String)
  deriving DecidableEq, Repr

/-- The shell for which completion is asked, with the words that are left. -/
def completionRequest (words : List String) : Request :=
  match firstPlain? Flag.shared words with
  | none => .run .completion words
  | some name =>
    match Shell.all.find? fun sh => sh.name == name with
    | some sh => .run (.script sh) (dropCommand Flag.shared name words)
    | none => .run .completion words

/-- Finds the command. -/
def request (words : List String) : Except Error Request :=
  match firstPlain? Flag.shared words with
  | none => .ok (.usage words)
  | some name =>
    let rest := dropCommand Flag.shared name words
    match Verb.named.lookup name with
    | some .completion => .ok (completionRequest rest)
    | some v => .ok (.run v rest)
    | none => .error (.unknownCommand name (similar name))

/-! ## Flags and arguments -/

/-- The values of the flags, and the arguments in order. -/
structure Options where
  maxIterations : Int := 0
  dot : Bool := false
  html : Bool := false
  quiet : Bool := false
  help : Bool := false
  arguments : List String := []
  deriving DecidableEq, Repr

/-- Gives a flag a value. -/
def Options.set (o : Options) (flag : Flag) (value : String) : Except Error Options :=
  let switch (f : Bool → Options) : Except Error Options :=
    match Text.switch? value with
    | some b => .ok (f b)
    | none => .error (.invalidSwitch value flag)
  match flag with
  | .trace => .ok o
  | .maxIterations =>
    match Numeral.markedInt value.toList with
    | .ok n => .ok { o with maxIterations := n }
    | .error d => .error (.invalidNumber value d)
  | .dot => switch fun b => { o with dot := b }
  | .html => switch fun b => { o with html := b }
  | .quiet => switch fun b => { o with quiet := b }
  | .help => switch fun b => { o with help := b }
  | .terse => switch fun _ => o

/-- Reads a long flag from what follows its dashes; gives the words that are
    left. -/
def Options.long (o : Options) (flags : List Flag) (word : String) (body : List Char)
    (rest : List String) : Except Error (Options × List String) :=
  let name := String.ofList (body.takeWhile fun c => c != '=')
  if name = "" || body.head? == some '-' then .error (.badFlag word)
  else match flags.find? fun f => f.name == name with
    | none => .error (.unknownFlag name)
    | some f =>
      if body.contains '=' then do
        let o ← o.set f (String.ofList ((body.dropWhile fun c => c != '=').drop 1))
        return (o, rest)
      else if !f.takesValue then do
        return (← o.set f "true", rest)
      else match rest with
        | value :: more => do
          return (← o.set f value, more)
        | [] => .error (.missingValue word)

/-- Reads short flags; gives the words that are left. -/
def Options.short (o : Options) (flags : List Flag) (rest : List String) :
    List Char → Except Error (Options × List String)
  | [] => .ok (o, rest)
  | c :: cs =>
    let letters := String.ofList (c :: cs)
    match flags.find? fun f => f.letter? == some c with
    | none => .error (.unknownLetter letters)
    | some f =>
      match cs with
      | '=' :: v :: vs => do
        return (← o.set f (String.ofList (v :: vs)), rest)
      | _ =>
        if !f.takesValue then
          match o.set f "true" with
          | .error e => .error e
          | .ok o => o.short flags rest cs
        else match cs, rest with
          | [], value :: more => do
            return (← o.set f value, more)
          | [], [] => .error (.missingLetterValue letters)
          | value, _ => do
            return (← o.set f (String.ofList value), rest)

/-- Reads the words behind a command, with fuel for as many words. -/
def Options.words (flags : List Flag) : Nat → Options → List String → Except Error Options
  | 0, o, _ => .ok o
  | _ + 1, o, [] => .ok o
  | fuel + 1, o, word :: rest =>
    match word.toList with
    | ['-', '-'] => .ok { o with arguments := o.arguments ++ rest }
    | '-' :: '-' :: body =>
      match o.long flags word body rest with
      | .error e => .error e
      | .ok (o, rest) => Options.words flags fuel o rest
    | '-' :: c :: cs =>
      match o.short flags rest (c :: cs) with
      | .error e => .error e
      | .ok (o, rest) => Options.words flags fuel o rest
    | _ => Options.words flags fuel { o with arguments := o.arguments ++ [word] } rest

/-- Whether a command can do with its arguments.  The explanation of completion
    ignores them. -/
def checkArguments (v : Verb) (arguments : List String) : Except Error Unit :=
  let n := arguments.length
  match v with
  | .first | .states | .table => if n = 1 then .ok () else .error (.exactly n)
  | .parse | .suggest => if 0 < n then .ok () else .error .atLeastOne
  | .repl => if n ≤ 1 then .ok () else .error (.atMostOne n)
  | .help | .completion => .ok ()
  | .script sh =>
    match arguments with
    | [] => .ok ()
    | word :: _ => .error (.unexpected word sh)

/-- The options of a command.  A shell that asks for completion passes a command
    line, in which nothing is taken for a flag yet. -/
def options (v : Verb) (words : List String) : Except Error Options := do
  let o ← if v = .suggest then pure { arguments := words }
    else Options.words (Flag.ofVerb v) words.length {} words
  if o.help then return o
  checkArguments v o.arguments
  return o

end CommandLine

end ShiftReduce
