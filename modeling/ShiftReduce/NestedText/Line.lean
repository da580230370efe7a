import ShiftReduce.Text.Blank

/-! # Lines of nested text

    A line feed, a carriage return or both together end a line.  Empty lines
    and lines that begin with `#` say nothing.  Every other line is indented by
    some blanks and then says what it is by its first characters, its *tag*:
    `- ` for an item of a list, `> ` for a line of a longer text, `: ` for a
    line of a longer key, `[` and `{` for values that are written out on the
    line; all else is a key that a colon ends.  What follows a tag and one
    blank belongs to the line as it is. -/

namespace ShiftReduce

namespace NestedText

/-- What a line says. -/
inductive Content where
  /-- An item of a list, with its value if it has one. -/
  | item (value : Option (List Char))
  /-- A line of a longer text. -/
  | textLine (line : List Char)
  /-- A line of a longer key. -/
  | keyLine (line : List Char)
  /-- A key, with its value if it has one. -/
  | entry (key : List Char) (value : Option (List Char))
  /-- A value that is written out. -/
  | inline (value : List Char)
  deriving DecidableEq, Repr

/-- A line with its indentation. -/
structure Line where
  indent : Nat
  content : Content
  deriving DecidableEq, Repr

/-- Cuts a text into lines, of which the first has begun already, from back to
    front. -/
def cutFrom (begun : List Char) : List Char → List (List Char)
  | [] => [begun.reverse]
  | '\r' :: '\n' :: cs => begun.reverse :: cutFrom [] cs
  | '\r' :: cs => begun.reverse :: cutFrom [] cs
  | '\n' :: cs => begun.reverse :: cutFrom [] cs
  | c :: cs => cutFrom (c :: begun) cs

/-- The lines of a text. -/
def cut (cs : List Char) : List (List Char) :=
  cutFrom [] cs

/-- Whether a line is empty or a comment. -/
def isIdle (cs : List Char) : Bool :=
  match cs.dropWhile fun c => c == ' ' || c == '\t' || c == '\x0c' with
  | [] => true
  | c :: _ => c == '#'

/-- What follows a tag: nothing at the end of the line, or all behind one
    blank.  Without the blank there is no tag. -/
def afterTag? : List Char → Option (Option (List Char))
  | [] => some none
  | ' ' :: value => some (some value)
  | _ => none

/-- Reads a key from what has been read of it, from back to front, on.  A colon
    ends it if it is a tag. -/
def entryFrom? (begun : List Char) : List Char → Option Content
  | [] => none
  | c :: cs =>
    match if c == ':' then afterTag? cs else none with
    | some value => some (.entry (Text.trim begun.reverse) value)
    | none => entryFrom? (c :: begun) cs

/-- Reads the content of a line. -/
def content? (cs : List Char) : Option Content :=
  match cs with
  | [] => none
  | c :: rest =>
    if c == '[' || c == '\x7b' then some (.inline cs)
    else
      match c, afterTag? rest with
      | '-', some value => some (.item value)
      | '>', some value => some (.textLine (value.getD []))
      | ':', some value => some (.keyLine (value.getD []))
      | _, _ => entryFrom? [] cs

/-- Reads a line. -/
def line? (cs : List Char) : Option Line :=
  (content? (cs.dropWhile fun c => c == ' ')).map fun content =>
    { indent := (cs.takeWhile fun c => c == ' ').length, content }

/-- The lines that say something, if all of them are well formed. -/
def lines? (cs : List Char) : Option (List Line) :=
  ((cut cs).filter fun l => !isIdle l).mapM line?

end NestedText

end ShiftReduce
