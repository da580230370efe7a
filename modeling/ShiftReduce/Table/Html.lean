import ShiftReduce.Table.Basic

/-! # Tables as web pages -/

namespace ShiftReduce

namespace Table

/-- A cell; an empty one holds a blank that is not collapsed. -/
def htmlCell (content : String) : String :=
  "<td>" ++ (if content = "" then "&nbsp;" else content) ++ "</td>\n"

/-- The row of a state. -/
def htmlRow (headers : List Symbol) (cell : Nat → Symbol → String) (state : Nat) : String :=
  "<tr><td>state " ++ toString state ++ "</td>\n"
    ++ String.join (headers.map fun x => htmlCell (cell state x)) ++ "</tr>\n"

/-- A page with one table. -/
def htmlPage (title : String) (headers : List Symbol) (count stateCount : Nat)
    (cell : Nat → Symbol → String) : String :=
  "<html><body>\n"
    ++ title ++ " table of size = " ++ toString count ++ "<p>"
    ++ "<table border=1 cellspacing=0 cellpadding=5>\n"
    ++ "<tr bgcolor=#cccccc><td></td>\n"
    ++ String.join (headers.map fun x => "<td>" ++ x ++ "</td>") ++ "</tr>\n"
    ++ String.join ((List.range stateCount).map (htmlRow headers cell))
    ++ "</table></body></html>\n"

/-- The ACTION table as a page. -/
def actionHtml (t : Table) : String :=
  htmlPage "ACTION" t.terminals t.actions.count t.stateCount t.actionText

/-- The GOTO table as a page. -/
def gotoHtml (t : Table) : String :=
  htmlPage "GOTO" t.nonterminals t.gotos.count t.stateCount t.gotoText

/-- The pages of both tables; tables that are not built have empty pages. -/
def htmlPages : Option Table → List String
  | none => ["", ""]
  | some t => [t.actionHtml, t.gotoHtml]

end Table

end ShiftReduce
