import ShiftReduce.Display.Markup

/-! # Outlines — nested lines drawn as a tree

    The drawing begins with a line that repeats the text of the first entry;
    all entries hang below it.  The lines show which entry is the last of its
    kind and which has entries below.  The texts of the entries have a style. -/

namespace ShiftReduce

/-- A line with the lines below it. -/
inductive Outline where
  | entry (text : String) (below : List Outline)
  deriving Repr

namespace Outline

/-- The text of an entry. -/
def text : Outline → String
  | .entry text _ => text

/-- The sign before an entry. -/
def corner (isLast : Bool) : String :=
  if isLast then "└" else "├"

/-- What the lines below an entry begin with. -/
def indent (isLast : Bool) : String :=
  if isLast then "  " else "│ "

mutual

/-- Draws an entry and what is below it. -/
def draw (lead : String) (isLast : Bool) : Outline → String
  | .entry text [] => lead ++ corner isLast ++ "──" ++ Display.unstyled text ++ "\n"
  | .entry text (o :: os) =>
    lead ++ corner isLast ++ "─┬" ++ Display.unstyled text ++ "\n"
      ++ drawAll (lead ++ indent isLast) (o :: os)

/-- Draws entries under each other. -/
def drawAll (lead : String) : List Outline → String
  | [] => ""
  | o :: os => draw lead os.isEmpty o ++ drawAll lead os

end

/-- The drawing of entries. -/
def drawing (os : List Outline) : String :=
  Display.printed (Display.unstyled ((os.head?.map text).getD "") ++ "\n" ++ drawAll "" os ++ "\n")

end Outline

end ShiftReduce
