import PlainSteps.Text.Columns

/-!
# Tables with borders

* `Table.lines` : a header and rows of cells as lines of text. A column is as wide as its widest
  line, a cell may have several lines, and rows are set apart by dotted lines.
-/

namespace PlainSteps.Table

def cellLines (cell : String) : List String :=
  cell.splitOn "\n"

/-- The columns of the widest line of a cell. -/
def cellWidth (cell : String) : Nat :=
  ((cellLines cell).map Text.columns).foldl max 0

/-- The width of each column of a table whose rows are as long as its header. -/
def widths (header : List String) (rows : List (List String)) : List Nat :=
  rows.foldl (fun ws row => List.zipWith max ws (row.map cellWidth)) (header.map cellWidth)

/-- `n` times a text. -/
def times (n : Nat) (s : String) : String :=
  String.join (List.replicate n s)

/-- The marks of a line between rows: its beginning, what it is drawn with, its crossings, its end. -/
structure Rule where
  opening : String
  stroke : String
  crossing : String
  closing : String

def topRule : Rule := ⟨"┌", "─", "┬", "┐"⟩

def headerRule : Rule := ⟨"╞", "═", "╪", "╡"⟩

def rowRule : Rule := ⟨"├", "╌", "┼", "┤"⟩

def bottomRule : Rule := ⟨"└", "─", "┴", "┘"⟩

/-- A line between rows, which spans each column and a blank on either side of it. -/
def Rule.line (r : Rule) (ws : List Nat) : String :=
  r.opening ++ r.crossing.intercalate (ws.map fun w => times (w + 2) r.stroke) ++ r.closing

/-- A line of a cell, filled with blanks to the width of its column. -/
def filled (width : Nat) (line : String) : String :=
  line ++ times (width - Text.columns line) " "

/-- The line of a row with a number; a cell that has fewer lines is blank there. -/
def rowLine (ws : List Nat) (cells : List (List String)) (n : Nat) : String :=
  "│ " ++ " ┆ ".intercalate (List.zipWith (fun w ls => filled w (ls[n]?.getD "")) ws cells) ++ " │"

def rowLines (ws : List Nat) (row : List String) : List String :=
  let cells := row.map cellLines
  (List.range ((cells.map List.length).foldl max 0)).map (rowLine ws cells)

def lines (header : List String) (rows : List (List String)) : List String :=
  let ws := widths header rows
  topRule.line ws :: rowLines ws header ++ [headerRule.line ws] ++
    ((rows.map (rowLines ws)).intersperse [rowRule.line ws]).flatten ++ [bottomRule.line ws]

end PlainSteps.Table
