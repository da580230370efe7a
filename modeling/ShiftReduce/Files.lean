import ShiftReduce.Grammar.Bnf

/-! # Files — what a path leads to, and grammars read from there

    Reading a path gives a text, or a reason why there is none.  A snapshot of
    a directory answers for paths relative to it. -/

namespace ShiftReduce

/-- What reading a path comes to. -/
inductive FileReply where
  /-- A file with its content. -/
  | text (content : String)
  /-- A directory with the names in it. -/
  | directory (names : List String)
  /-- There is nothing at the path. -/
  | missing
  /-- The path goes on behind a file. -/
  | blocked
  /-- The path or one of its parts is longer than the system allows. -/
  | tooLong
  /-- The path has a character that no path can have. -/
  | invalid
  deriving DecidableEq, Repr

/-- Why a grammar could not be loaded from a path. -/
inductive LoadError where
  | missing (path : String)
  | blocked (path : String)
  | tooLong (path : String)
  | invalid (path : String)
  | directory (path : String)
  | malformed (path : String) (error : Grammar.Bnf.Error)
  deriving DecidableEq, Repr

/-- The wording of an error. -/
def LoadError.message : LoadError → String
  | .missing path => "open " ++ path ++ ": no such file or directory"
  | .blocked path => "open " ++ path ++ ": not a directory"
  | .tooLong path => "open " ++ path ++ ": file name too long"
  | .invalid path => "open " ++ path ++ ": invalid argument"
  | .directory path => path ++ ": read " ++ path ++ ": is a directory"
  | .malformed path e => path ++ ": " ++ e.message

namespace Path

/-- The name of the last part of a path. -/
def lastPart (path : String) : List Char :=
  ((path.toList.splitOn '/').filter fun part => !part.isEmpty).getLastD []

/-- A name without what follows its last point, the point included. -/
def dropExtension (name : List Char) : List Char :=
  if name.contains '.' then ((name.reverse.dropWhile fun c => c != '.').drop 1).reverse else name

/-- The name of the grammar in a file: the name of the file without its
    extension. -/
def grammarName (path : String) : String :=
  String.ofList (dropExtension (lastPart path))

end Path

/-- Reads the grammar at a path. -/
def loadGrammar (read : String → FileReply) (path : String) : Except LoadError Grammar :=
  match read path with
  | .missing => .error (.missing path)
  | .blocked => .error (.blocked path)
  | .tooLong => .error (.tooLong path)
  | .invalid => .error (.invalid path)
  | .directory _ => .error (.directory path)
  | .text content =>
    match Grammar.Bnf.read (Path.grammarName path) content with
    | .ok g => .ok g
    | .error e => .error (.malformed path e)

/-! ## Snapshots -/

/-- The files of a directory: relative paths and contents. -/
structure Files where
  entries : List (List String × String)
  deriving DecidableEq, Repr

namespace Files

/-- The parts of a path.  Empty parts lead nowhere. -/
def parts (path : String) : List String :=
  ((path.toList.splitOn '/').map String.ofList).filter fun p => p != ""

/-- A snapshot with the given paths. -/
def ofPaths (entries : List (String × String)) : Files :=
  { entries := entries.map fun e => ((parts e.1).filter fun p => p != ".", e.2) }

/-- The name that an entry has in a directory above it. -/
def nameBelow? (place : List String) (entry : List String × String) : Option String :=
  if place.isPrefixOf entry.1 then entry.1[place.length]? else none

/-- What stands at a place in the snapshot. -/
def at? (f : Files) (place : List String) : FileReply :=
  match f.entries.lookup place with
  | some content => .text content
  | none =>
    let names := (f.entries.filterMap (nameBelow? place)).eraseDups
    if place.isEmpty || !names.isEmpty then .directory names else .missing

/-- The greatest number of bytes in a part of a path. -/
def partLimit : Nat := 255

/-- The greatest number of bytes in a path. -/
def pathLimit : Nat := 4095

/-- The number of bytes that a text takes in a path. -/
def size (s : String) : Nat :=
  (Bytes.ofText s).length

/-- Follows the parts of a path from a place.  Above the snapshot there is
    nothing but directories. -/
def follow (f : Files) : Int → List String → List String → FileReply
  | above, place, [] => if 0 < above then .directory [] else f.at? place
  | above, place, p :: ps =>
    if 0 < above then
      if p = "." then f.follow above place ps
      else if p = ".." then f.follow (above + 1) place ps
      else if partLimit < size p then .tooLong
      else .missing
    else match f.at? place with
      | .directory _ =>
        if p = "." then f.follow 0 place ps
        else if p = ".." then
          if place.isEmpty then f.follow 1 place ps else f.follow 0 place.dropLast ps
        else if partLimit < size p then .tooLong
        else f.follow 0 (place ++ [p]) ps
      | .text _ => .blocked
      | reply => reply

/-- Reads a path outside of the snapshot, where nothing but the topmost
    directory is known. -/
def readOutside : List String → FileReply
  | [] => .directory []
  | p :: ps =>
    if p = "." || p = ".." then readOutside ps
    else if partLimit < size p then .tooLong
    else .missing

/-- Reads a path in the snapshot.  An absolute path leads out of it. -/
def read (f : Files) (path : String) : FileReply :=
  if path.toList.contains (Char.ofNat 0) then .invalid
  else if path = "" then .missing
  else if pathLimit < size path then .tooLong
  else if path.toList.head? = some '/' then readOutside (parts path)
  else match f.follow 0 [] (parts path) with
    | .text content => if path.toList.getLast? = some '/' then .blocked else .text content
    | reply => reply

end Files

end ShiftReduce
