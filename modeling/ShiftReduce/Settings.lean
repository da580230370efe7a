import ShiftReduce.NestedText.Document
import ShiftReduce.Sorting
import ShiftReduce.Text.Fraction
import ShiftReduce.Text.Switch

/-! # Settings — the configuration files

    A configuration file is a table in nested text.  What is no such table
    counts as empty, and so does a value that does not fit its key.  There may
    be several files in one place; later ones add to and replace what earlier
    ones say. -/

namespace ShiftReduce

/-- What can be configured. -/
structure Settings where
  /-- The greatest number of rounds of a run, if it is positive. -/
  maxIterations : Int := 0
  /-- Whether runs are strict about mismatches. -/
  strict : Bool := false
  deriving DecidableEq, Repr

namespace Settings

/-! ## Finding the files -/

/-- Where the files may be.  The first place that has any counts. -/
def directories : List String :=
  [".config/slrsim", "."]

/-- What the names of configuration files begin with. -/
def stems : List String :=
  ["slrsim.", ".slrsim.", "config."]

/-- Whether a file is named for the program or called a configuration, with
    the ending of nested text. -/
def isFileName (name : String) : Bool :=
  (".nt".toList).isSuffixOf name.toList
    && stems.any fun stem => stem.toList.isPrefixOf name.toList

/-- The configuration files among the names in a directory, in order. -/
def choose (names : List String) : List String :=
  sortBy (fun a b => !decide (b < a)) (names.filter isFileName)

/-- The names that configuration files usually have. -/
def usualNames : List String :=
  ["slrsim.nt", "slrsim.local.nt", "config.nt", ".slrsim.nt"]

/-! ## Reading the files -/

/-- The number of rounds that a value stands for.  A number that does not fit
    into a word counts as none. -/
def rounds : NestedText → Int
  | .text value =>
    match Fraction.integralPart? value with
    | some n => if n < Numeral.signedLimit then n else 0
    | none => 0
  | _ => 0

/-- Whether a value switches something on. -/
def isOn : NestedText → Bool
  | .text value => (Text.switch? (String.ofList value)).getD false
  | _ => false

/-- Takes up the value of a key. -/
def take (s : Settings) (entry : List Char × NestedText) : Settings :=
  if entry.1 = "slr-max-iterations".toList then { s with maxIterations := rounds entry.2 }
  else if entry.1 = "panic-on-internal-error".toList then { s with strict := isOn entry.2 }
  else s

/-- Takes up a configuration file.  Of several values of a key the last one
    counts. -/
def takeText (s : Settings) (text : String) : Settings :=
  match NestedText.read? text.toList with
  | some (.table entries) => entries.foldl take s
  | _ => s

/-- Reads configuration files. -/
def ofTexts (texts : List String) : Settings :=
  texts.foldl takeText {}

end Settings

end ShiftReduce
