import VectorIndex.Text.Width

/-!
# Tables

A table has a header and rows of cells. A column is as wide as its widest line and at least one
place wide, a cell may have several lines, and a row that is shorter than the widest one ends in
empty cells.
-/

namespace VectorIndex

structure Table where
  header : List String
  rows : List (List String)

namespace Table

/-- The strokes of a horizontal border. -/
structure Border where
  left : Char
  line : Char
  crossing : Char
  right : Char

def top : Border := ⟨'╭', '─', '┬', '╮'⟩
def headerRule : Border := ⟨'╞', '═', '╪', '╡'⟩
def rowRule : Border := ⟨'├', '╌', '┼', '┤'⟩
def bottom : Border := ⟨'╰', '─', '┴', '╯'⟩

def Border.draw (border : Border) (widths : List Nat) : String :=
  let runs := widths.map fun width ↦ String.ofList (List.replicate (width + 2) border.line)
  border.left.toString ++ border.crossing.toString.intercalate runs ++ border.right.toString

/-- The lines of a cell. -/
def cellLines (cell : String) : List String :=
  go [] cell.toList
where
  go (reversed : List Char) : List Char → List String
    | [] => [String.ofList reversed.reverse]
    | c :: rest =>
      if c = '\n' then String.ofList reversed.reverse :: go [] rest else go (c :: reversed) rest

def cellWidth (cell : String) : Nat := ((cellLines cell).map Text.width).foldl max 0

def columnCount (table : Table) : Nat :=
  ((table.header :: table.rows).map List.length).foldl max 0

def columnWidths (table : Table) : List Nat :=
  (List.range table.columnCount).map fun column ↦
    ((table.header :: table.rows).map fun row ↦ cellWidth (row.getD column "")).foldl max 1

def pad (width : Nat) (line : String) : String :=
  line ++ String.ofList (List.replicate (width - Text.width line) ' ')

/-- One printed line of a row. -/
def rowLine (widths : List Nat) (pieces : List String) : String :=
  "│ " ++ " ┆ ".intercalate (List.zipWith pad widths pieces) ++ " │"

/-- The printed lines of a row, as many as its tallest cell has. -/
def rowLines (widths : List Nat) (row : List String) : List String :=
  let cells := (List.range widths.length).map fun column ↦ cellLines (row.getD column "")
  let height := (cells.map List.length).foldl max 0
  (List.range height).map fun line ↦ rowLine widths (cells.map (·.getD line ""))

def lines (table : Table) : List String :=
  let widths := table.columnWidths
  let body := (table.rows.map (rowLines widths)).intersperse [rowRule.draw widths]
  [top.draw widths] ++ rowLines widths table.header ++ [headerRule.draw widths] ++
    body.flatten ++ [bottom.draw widths]

def render (table : Table) : String := "\n".intercalate table.lines

end Table
end VectorIndex
