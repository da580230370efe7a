import ShiftReduce.NestedText.Line

/-! # Documents of nested text

    A document is a text, a list or a table.  The values of lists and tables
    stand on the line of the item or the key, or below it with a deeper
    indentation.  Values that are written out have brackets around lists,
    braces around tables, and commas between parts. -/

namespace ShiftReduce

/-- A text, a list of values or a table of keys and values. -/
inductive NestedText where
  | text (value : List Char)
  | list (values : List NestedText)
  | table (entries : List (List Char × NestedText))
  deriving Repr

namespace NestedText

/-! ## Values that are written out -/

/-- Whether a character ends a plain part of a list, or of a table. -/
def endsPart (inTable : Bool) (c : Char) : Bool :=
  c == '[' || c == ']' || c == '\x7b' || c == '\x7d' || c == ',' || (inTable && c == ':')

mutual

/-- Reads a part of a list or a table, with fuel for as many calls; gives what
    is behind it too. -/
def part? (inTable : Bool) : Nat → List Char → Option (NestedText × List Char)
  | 0, _ => none
  | fuel + 1, cs =>
    match cs.dropWhile Text.isBlank with
    | '[' :: more => do
      let (value, rest) ← closedList? fuel more
      return (value, rest.dropWhile Text.isBlank)
    | '\x7b' :: more => do
      let (value, rest) ← closedTable? fuel more
      return (value, rest.dropWhile Text.isBlank)
    | more => some (.text (Text.trim (more.takeWhile fun c => !endsPart inTable c)),
        more.dropWhile fun c => !endsPart inTable c)

/-- Reads a list behind its opening bracket. -/
def closedList? : Nat → List Char → Option (NestedText × List Char)
  | 0, _ => none
  | _ + 1, ']' :: rest => some (.list [], rest)
  | fuel + 1, cs => do
    let (values, rest) ← parts? fuel cs
    return (.list values, rest)

/-- Reads the parts of a list up to its closing bracket. -/
def parts? : Nat → List Char → Option (List NestedText × List Char)
  | 0, _ => none
  | fuel + 1, cs =>
    match part? false fuel cs with
    | some (value, ']' :: rest) => some ([value], rest)
    | some (value, ',' :: more) => do
      let (values, rest) ← parts? fuel more
      return (value :: values, rest)
    | _ => none

/-- Reads a table behind its opening brace. -/
def closedTable? : Nat → List Char → Option (NestedText × List Char)
  | 0, _ => none
  | _ + 1, '\x7d' :: rest => some (.table [], rest)
  | fuel + 1, cs => do
    let (entries, rest) ← pairs? fuel cs
    return (.table entries, rest)

/-- Reads the keys and values of a table up to its closing brace. -/
def pairs? : Nat → List Char → Option (List (List Char × NestedText) × List Char)
  | 0, _ => none
  | fuel + 1, cs =>
    match part? true fuel cs with
    | some (.text key, ':' :: more) =>
      match part? true fuel more with
      | some (value, '\x7d' :: rest) => some ([(key, value)], rest)
      | some (value, ',' :: more) => do
        let (entries, rest) ← pairs? fuel more
        return ((key, value) :: entries, rest)
      | _ => none
    | _ => none

end

/-- Whether a text begins with a bracket or a brace and ends with its
    counterpart. -/
def isEnclosed (cs : List Char) : Bool :=
  match cs.head?, cs.getLast? with
  | some '[', some ']' => true
  | some '\x7b', some '\x7d' => true
  | _, _ => false

/-- Reads a value that takes up the rest of a line.  The line ends as the value
    does, but what is between the end of the value and the end of the line says
    nothing.  Every call but two reads a character. -/
def inline? (cs : List Char) : Option NestedText :=
  let line := Text.trim cs
  if isEnclosed line then (part? false (3 * line.length + 3) line).map fun p => p.1
  else none

/-! ## Blocks of lines -/

/-- The texts of the leading lines with an indentation that a tag marks, and
    the lines behind them. -/
def takeTagged (tagged : Content → Option (List Char)) (indent : Nat) :
    List Line → List (List Char) × List Line
  | [] => ([], [])
  | l :: ls =>
    match tagged l.content with
    | some t =>
      if l.indent = indent then
        let (ts, rest) := takeTagged tagged indent ls
        (t :: ts, rest)
      else ([], l :: ls)
    | none => ([], l :: ls)

/-- The text of a line of a longer text. -/
def Content.textLine? : Content → Option (List Char)
  | .textLine t => some t
  | _ => none

/-- The text of a line of a longer key. -/
def Content.keyLine? : Content → Option (List Char)
  | .keyLine t => some t
  | _ => none

/-- Lines as one text. -/
def joinLines (ts : List (List Char)) : List Char :=
  ['\n'].intercalate ts

/-- Whether the next line is indented deeper. -/
def goesDeeper (indent : Nat) (ls : List Line) : Bool :=
  match ls with
  | l :: _ => indent < l.indent
  | [] => false

mutual

/-- Reads the value that the lines begin with, with fuel for as many calls;
    gives the lines behind it too. -/
def block? : Nat → List Line → Option (NestedText × List Line)
  | 0, _ => none
  | _ + 1, [] => none
  | fuel + 1, l :: ls =>
    match l.content with
    | .inline value => (inline? value).map fun v => (v, ls)
    | .textLine _ =>
      let (ts, rest) := takeTagged Content.textLine? l.indent (l :: ls)
      some (.text (joinLines ts), rest)
    | .item _ => do
      let (values, rest) ← items? fuel l.indent (l :: ls)
      return (.list values, rest)
    | .keyLine _ | .entry _ _ => do
      let (entries, rest) ← entries? fuel l.indent (l :: ls)
      return (.table entries, rest)

/-- Reads the value below a line, or the empty text if nothing is below it. -/
def below? (fuel : Nat) (indent : Nat) (ls : List Line) : Option (NestedText × List Line) :=
  match fuel with
  | 0 => none
  | fuel + 1 => if goesDeeper indent ls then block? fuel ls else some (.text [], ls)

/-- Reads the items of a list with an indentation. -/
def items? : Nat → Nat → List Line → Option (List NestedText × List Line)
  | 0, _, _ => none
  | _ + 1, _, [] => some ([], [])
  | fuel + 1, indent, l :: ls =>
    if l.indent < indent then some ([], l :: ls)
    else if indent < l.indent then none
    else
      match l.content with
      | .item (some value) => do
        let (values, rest) ← items? fuel indent ls
        return (.text value :: values, rest)
      | .item none => do
        let (value, more) ← below? fuel indent ls
        let (values, rest) ← items? fuel indent more
        return (value :: values, rest)
      | _ => none

/-- Reads the keys and values of a table with an indentation.  The value of a
    longer key can only be below it. -/
def entries? : Nat → Nat → List Line → Option (List (List Char × NestedText) × List Line)
  | 0, _, _ => none
  | _ + 1, _, [] => some ([], [])
  | fuel + 1, indent, l :: ls =>
    if l.indent < indent then some ([], l :: ls)
    else if indent < l.indent then none
    else
      match l.content with
      | .entry key (some value) => do
        let (entries, rest) ← entries? fuel indent ls
        return ((key, .text value) :: entries, rest)
      | .entry key none => do
        let (value, more) ← below? fuel indent ls
        let (entries, rest) ← entries? fuel indent more
        return ((key, value) :: entries, rest)
      | .keyLine _ => do
        let (ts, behind) := takeTagged Content.keyLine? indent (l :: ls)
        let (value, more) ← below? fuel indent behind
        let (entries, rest) ← entries? fuel indent more
        return ((joinLines ts, value) :: entries, rest)
      | _ => none

end

/-- Reads a document.  Its outermost lines are not indented, and no line is
    left over. -/
def read? (cs : List Char) : Option NestedText := do
  let ls ← lines? cs
  if goesDeeper 0 ls then none
  else
    match ← block? (3 * ls.length + 3) ls with
    | (value, []) => some value
    | _ => none

end NestedText

end ShiftReduce
