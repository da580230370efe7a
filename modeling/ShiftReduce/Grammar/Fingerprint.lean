import ShiftReduce.Digest.Md5
import ShiftReduce.Grammar.Basic

/-! # Fingerprints — a grammar's content as a short text

    The signature of a grammar writes down its start symbol, its alphabets and
    its rules, not its name.  Symbols stand between quotes as they are.  The
    fingerprint is a digest of the signature. -/

namespace ShiftReduce

namespace Grammar

/-- A list of symbols, each between quotes. -/
def signatureList (ss : List Symbol) : String :=
  "[" ++ ",".intercalate (ss.map fun s => "\"" ++ s ++ "\"") ++ "]"

/-- A rule within a signature. -/
def signatureRule (r : Production) : String :=
  "\x7bLHS:\"" ++ r.lhs ++ "\",RHS:" ++ signatureList r.written ++ "\x7d"

/-- The content of a grammar as text. -/
def signature (g : Grammar) : String :=
  "\x7bNonTerminals:" ++ signatureList g.nonterminals
    ++ ",Rules:[" ++ ",".intercalate (g.rules.map signatureRule)
    ++ "],Start:\"" ++ g.start
    ++ "\",Terminals:" ++ signatureList g.terminals ++ "\x7d"

/-- The digest of the signature, marked with the version of the format. -/
def fingerprint (g : Grammar) : String :=
  "v1_" ++ Digest.md5 (Bytes.ofText g.signature)

end Grammar

end ShiftReduce
