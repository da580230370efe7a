/-! # Typing — from keys to lines

    The user of a session types lines on a line editor.  A line feed and a
    carriage return end a line.  Some control characters are keys that move the
    cursor or erase what is beside it, some do nothing, and all other
    characters are inserted at the cursor.  What is being typed when the keys
    end is a line too. -/

namespace ShiftReduce

namespace Session

/-- A line in the making. -/
structure Draft where
  /-- The characters before the cursor, the nearest first. -/
  before : List Char := []
  /-- The characters behind the cursor. -/
  behind : List Char := []
  /-- What has been cut out last. -/
  clip : List Char := []
  deriving DecidableEq, Repr

namespace Draft

/-- All that has been typed. -/
def text (d : Draft) : List Char :=
  d.before.reverse ++ d.behind

/-- Whether nothing has been typed. -/
def isEmpty (d : Draft) : Bool :=
  d.before.isEmpty && d.behind.isEmpty

/-- The draft of the next line. -/
def next (d : Draft) : Draft :=
  { clip := d.clip }

/-- Inserts characters at the cursor. -/
def insert (d : Draft) (cs : List Char) : Draft :=
  { d with before := cs.reverse ++ d.before }

/-- Moves the cursor to the left. -/
def left (d : Draft) : Draft :=
  match d.before with
  | [] => d
  | c :: cs => { d with before := cs, behind := c :: d.behind }

/-- Moves the cursor to the right. -/
def right (d : Draft) : Draft :=
  match d.behind with
  | [] => d
  | c :: cs => { d with before := c :: d.before, behind := cs }

/-- Moves the cursor to the beginning. -/
def toStart (d : Draft) : Draft :=
  { d with before := [], behind := d.text }

/-- Moves the cursor to the end. -/
def toEnd (d : Draft) : Draft :=
  { d with before := d.text.reverse, behind := [] }

/-- Erases the character before the cursor. -/
def eraseLeft (d : Draft) : Draft :=
  { d with before := d.before.drop 1 }

/-- Cuts out the character behind the cursor. -/
def cutRight (d : Draft) : Draft :=
  match d.behind with
  | [] => d
  | c :: cs => { d with behind := cs, clip := [c] }

/-- Cuts out all before the cursor. -/
def cutToStart (d : Draft) : Draft :=
  if d.before.isEmpty then d else { d with before := [], clip := d.before.reverse }

/-- Cuts out all behind the cursor. -/
def cutToEnd (d : Draft) : Draft :=
  { d with behind := [], clip := d.behind }

/-- The number of characters from the cursor back to the beginning of a word,
    if there is a beginning with something before it. -/
def wordLength? : List Char → Option Nat
  | c :: b :: cs =>
    if c.isAlphanum && !b.isAlphanum then some 1
    else (wordLength? (b :: cs)).map (· + 1)
  | _ => none

/-- Cuts out the word before the cursor.  The first word of a line is erased
    for good. -/
def cutWord (d : Draft) : Draft :=
  match wordLength? d.before with
  | some n => { d with before := d.before.drop n, clip := (d.before.take n).reverse }
  | none => { d with before := [] }

end Draft

/-- What a key does. -/
inductive Keystroke where
  /-- It changes the draft. -/
  | edit (draft : Draft)
  /-- It ends the line. -/
  | enter
  /-- It ends the session. -/
  | leave
  deriving DecidableEq, Repr

/-- What a key does to a draft. -/
def keystroke (d : Draft) (c : Char) : Keystroke :=
  match c.toNat with
  | 0x0A | 0x0D => .enter
  | 0x00 => if d.isEmpty then .leave else .enter
  | 0x03 => .leave
  | 0x04 => if d.isEmpty then .leave else .edit d.cutRight
  | 0x07 | 0x09 | 0x0C => .edit d
  | 0x01 => .edit d.toStart
  | 0x02 => .edit d.left
  | 0x05 => .edit d.toEnd
  | 0x06 => .edit d.right
  | 0x08 | 0x7F => .edit d.eraseLeft
  | 0x0B => .edit d.cutToEnd
  | 0x15 => .edit d.cutToStart
  | 0x17 => .edit d.cutWord
  | 0x19 => .edit (d.insert d.clip)
  | _ => .edit (d.insert [c])

/-- The lines that keys amount to, with a draft that has been begun. -/
def typedFrom (d : Draft) : List Char → List (List Char)
  | [] => if d.isEmpty then [] else [d.text]
  | c :: cs =>
    match keystroke d c with
    | .edit e => typedFrom e cs
    | .enter => d.text :: typedFrom d.next cs
    | .leave => []

/-- The lines that the user types, of which every one is followed by the enter
    key. -/
def typed (lines : List String) : List String :=
  (typedFrom {} (lines.flatMap fun l => l.toList ++ ['\n'])).map String.ofList

end Session

end ShiftReduce
