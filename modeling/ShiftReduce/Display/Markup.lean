/-! # Markup — plain text for a terminal without styles

    Text on its way to the terminal may be marked up: a style tag such as
    `<red>` lasts until the closing tag `</>`, and an escape code switches a
    style on or off.  Without styles both are taken out again, but tags only
    from a text that has a closing tag, and codes only from a text that has
    the one that ends all styles.  What is left may look like a tag or a code
    in turn.  Therefore it counts how often they are taken out: tags five times
    when a text is printed, and tags once and codes twice when it gets a
    style. -/

namespace ShiftReduce

namespace Display

/-- Whether a text contains another one. -/
def holds (part : List Char) : List Char → Bool
  | [] => part.isEmpty
  | c :: cs => part.isPrefixOf (c :: cs) || holds part cs

/-- A text without the stretches that `found` recognises at their beginning by
    giving their length, still leaving out the first `skip` characters. -/
def without (found : List Char → Option Nat) : Nat → List Char → List Char
  | _, [] => []
  | skip + 1, _ :: cs => without found skip cs
  | 0, c :: cs =>
    match found (c :: cs) with
    | some n => without found (n - 1) cs
    | none => c :: without found 0 cs

/-- The characters of a tag's name and values. -/
def isTagChar (c : Char) : Bool :=
  c.isAlphanum || c == '_' || c == '=' || c == ',' || c == ';'

/-- The length of what stands at the beginning of a text and ends with a
    character, if there are only characters of a kind before that. -/
def upTo? (kind : Char → Bool) (stop : Char) (cs : List Char) : Option Nat :=
  let n := (cs.takeWhile kind).length
  if (cs.drop n).head? = some stop then some (n + 1) else none

/-- The length of the tag that a text begins with. -/
def tag? : List Char → Option Nat
  | '<' :: '/' :: cs => (upTo? isTagChar '>' cs).map (· + 2)
  | '<' :: cs => (upTo? isTagChar '>' cs).map (· + 1)
  | _ => none

/-- The tag that ends the latest style. -/
def closingTag : List Char :=
  ['<', '/', '>']

/-- A text without its tags. -/
def untagged (cs : List Char) : List Char :=
  if holds closingTag cs then without tag? 0 cs else cs

/-- Takes tags out several times. -/
def untaggedTimes : Nat → List Char → List Char
  | 0, cs => cs
  | rounds + 1, cs => untaggedTimes rounds (untagged cs)

/-- What a text looks like when it is printed. -/
def printed (s : String) : String :=
  String.ofList (untaggedTimes 5 s.toList)

/-- What a message looks like when it is printed.  It has been printed into a
    text before. -/
def printedMessage (s : String) : String :=
  String.ofList (untaggedTimes 6 s.toList)

/-- The escape character. -/
def escape : Char :=
  Char.ofNat 0x1B

/-- Whether a character is a parameter of an escape code. -/
def isCodeChar (c : Char) : Bool :=
  c.isDigit || c == ';' || c == '?'

/-- The length of the escape code that a text begins with.  It has at least one
    parameter. -/
def code? : List Char → Option Nat
  | e :: '[' :: c :: cs =>
    if e == escape && isCodeChar c then (upTo? isCodeChar 'm' cs).map (· + 3) else none
  | _ => none

/-- A text without its escape codes. -/
def uncoded (cs : List Char) : List Char :=
  if holds ['[', '0', 'm'] cs then without code? 0 cs else cs

/-- What is left of a text in a style. -/
def unstyled (s : String) : String :=
  String.ofList (uncoded (uncoded (untagged s.toList)))

end Display

end ShiftReduce
