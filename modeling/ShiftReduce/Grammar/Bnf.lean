import ShiftReduce.Grammar.Basic
import ShiftReduce.Text.Blank
import ShiftReduce.Text.Bytes

/-! # Grammar files — rules line by line

    Every line gives alternatives for a nonterminal:

        E -> E + T | T
        T -> T * F
           | F

    `->`, `→` or `::=` divides the head from its alternatives, a line that
    starts with `|` goes on with the previous head, and `#` starts a comment.
    An alternative that is blank, or one of `ε`, `eps` and `''`, is empty.  The
    heads are the nonterminals, all other symbols are terminals, and the first
    head is the start symbol. -/

namespace ShiftReduce

namespace Grammar

namespace Bnf

/-- What is wrong with a line. -/
inductive Fault where
  | alternativeWithoutHead
  | missingArrow
  | invalidHead (head : String)
  | reservedHead (head : String)
  | endMarker
  deriving DecidableEq, Repr

/-- The wording of a fault. -/
def Fault.message : Fault → String
  | .alternativeWithoutHead => "alternative without a head"
  | .missingArrow => "missing '->' after head"
  | .invalidHead h => "invalid head " ++ Text.quote h
  | .reservedHead h => "reserved symbol " ++ Text.quote h ++ " as head"
  | .endMarker => "end marker $ used as a symbol"

/-- Why a text is no grammar. -/
inductive Error where
  | line (number : Nat) (fault : Fault)
  | lineTooLong
  | grammar (error : Grammar.Error)
  deriving DecidableEq, Repr

/-- The wording of an error. -/
def Error.message : Error → String
  | .line n f => "syntax error in line " ++ toString n ++ ": " ++ f.message
  | .lineTooLong => "bufio.Scanner: token too long"
  | .grammar e => e.message

/-- A line has fewer bytes than this. -/
def lineLimit : Nat := 65536

/-- The lines of a text.  A carriage return before a line end belongs to the
    line end. -/
def lines (text : List Char) : List (List Char) :=
  text.splitOn '\n'

/-- A line without the carriage return at its end. -/
def dropReturn (line : List Char) : List Char :=
  if line.getLast? = some '\r' then line.dropLast else line

/-- What a line says: its comment is cut off, then blanks at both ends. -/
def content (line : List Char) : List Char :=
  Text.trim ((dropReturn line).takeWhile fun c => c != '#')

/-- Whether a written symbol stands for the empty word. -/
def isEmptyWord (s : String) : Bool :=
  s == Symbol.epsilon || s == "eps" || s == "''"

/-- The dividers between a head and its alternatives. -/
def arrows : List (List Char) :=
  [['-', '>'], ['→'], [':', ':', '=']]

/-- Cuts a line at its first arrow. -/
def cutAtArrow : List Char → Option (List Char × List Char)
  | [] => none
  | c :: cs =>
    match arrows.find? fun a => a.isPrefixOf (c :: cs) with
    | some a => some ([], (c :: cs).drop a.length)
    | none => (cutAtArrow cs).map fun (head, rest) => (c :: head, rest)

/-- What has been read: the rules so far, the heads in order of first use and
    the head that the next alternative belongs to. -/
structure State where
  rules : List (Symbol × List Symbol) := []
  heads : List Symbol := []
  current : Option Symbol := none
  deriving DecidableEq, Repr

/-- The body that an alternative denotes. -/
def body (alternative : List Char) : Except Fault (List Symbol) :=
  let symbols := (Text.words alternative).map String.ofList
  if symbols.contains Symbol.endMarker then .error .endMarker
  else .ok (symbols.filter fun s => !isEmptyWord s)

/-- Adds the alternatives of a head. -/
def State.addBodies (st : State) (head : Symbol) (alternatives : List Char) :
    Except Fault State := do
  let bodies ← (alternatives.splitOn '|').mapM body
  return { st with
    rules := st.rules ++ bodies.map fun b => (head, b)
    current := some head }

/-- The head that a text before an arrow denotes. -/
def headOf (text : List Char) : Except Fault Symbol :=
  let head := String.ofList (Text.trim text)
  if (Text.words text).length ≠ 1 then .error (.invalidHead head)
  else if isEmptyWord head || head == Symbol.endMarker then .error (.reservedHead head)
  else .ok head

/-- Reads the content of a line. -/
def State.readContent (st : State) (line : List Char) : Except Fault State :=
  match line with
  | [] => .ok st
  | '|' :: alternatives =>
    match st.current with
    | none => .error .alternativeWithoutHead
    | some head => st.addBodies head alternatives
  | _ =>
    match cutAtArrow line with
    | none => .error .missingArrow
    | some (before, alternatives) => do
      let head ← headOf before
      { st with heads := if st.heads.contains head then st.heads else st.heads ++ [head] }.addBodies
        head alternatives

/-- Reads numbered lines; the first fault ends the reading. -/
def State.readLines (st : State) : Nat → List (List Char) → Except Error State
  | _, [] => .ok st
  | n, line :: rest =>
    if lineLimit ≤ (Bytes.ofText (String.ofList line)).length then .error .lineTooLong
    else match st.readContent (content line) with
      | .error f => .error (.line n f)
      | .ok st' => st'.readLines (n + 1) rest

/-- The body symbols that are no heads, in order of first appearance. -/
def State.terminals (st : State) : List Symbol :=
  ((st.rules.flatMap Prod.snd).filter fun s => !st.heads.contains s).eraseDups

/-- The rules as productions, numbered in order. -/
def State.productions (st : State) : List Production :=
  st.rules.mapIdx fun k r => Production.ofWritten k r.1 r.2

/-- The grammar that has been read. -/
def State.grammar (st : State) (name : String) : Except Grammar.Error Grammar :=
  match st.heads with
  | [] => .error .empty
  | start :: _ => assemble name start st.terminals st.heads (st.productions.map some)

/-- Reads a grammar from a text. -/
def read (name : String) (text : String) : Except Error Grammar := do
  let st ← State.readLines {} 1 (lines text.toList)
  match st.grammar name with
  | .ok g => .ok g
  | .error e => .error (.grammar e)

end Bnf

end Grammar

end ShiftReduce
