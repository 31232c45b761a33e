import VarCensus.Text.Width

/-!
# Tables

A table has a heading and rows of cells. It is drawn with a rounded frame, a rule below the heading and
none between rows; each cell is set to the left with a space on either side. A cell may have several lines;
its row is as high as its highest cell. A column is as wide as the widest line in it, in columns of the
terminal.
-/

namespace VarCensus

/-- A heading and rows of cells below it. -/
structure Table where
  heading : List String
  rows : List (List String)
deriving DecidableEq, Repr

namespace Table

/-- The lines of a cell, split at every line feed. -/
def cellLines : List Char → List (List Char)
  | [] => [[]]
  | '\n' :: rest => [] :: cellLines rest
  | c :: rest =>
    match cellLines rest with
    | line :: more => (c :: line) :: more
    | [] => [[c]]

/-- The width of the widest line of a cell. -/
def cellWidth (cell : String) : Nat :=
  ((cellLines cell.toList).map Text.width).foldl max 0

/-- The width of each column of a table whose rows all have as many cells as the heading. -/
def columnWidths (table : Table) : List Nat :=
  table.rows.foldl (fun widths row => widths.zipWith max (row.map cellWidth)) (table.heading.map cellWidth)

/-- A line filled up to a width, with a space on either side. -/
def padded (width : Nat) (line : List Char) : List Char :=
  ' ' :: line ++ List.replicate (width - Text.width line) ' ' ++ [' ']

/-- One drawn line of a row: the line of each cell with the given number, blank where a cell has fewer. -/
def drawLine (widths : List Nat) (cells : List (List (List Char))) (i : Nat) : List Char :=
  let parts := widths.zipWith (fun width cell => padded width (cell.getD i [])) cells
  '│' :: ['│'].intercalate parts ++ ['│']

/-- The drawn lines of a row. -/
def drawRow (widths : List Nat) (row : List String) : List (List Char) :=
  let cells := row.map fun cell => cellLines cell.toList
  let height := (cells.map List.length).foldl max 1
  (List.range height).map (drawLine widths cells)

/-- A rule across the table. -/
def rule (left middle right : Char) (widths : List Nat) : List Char :=
  left :: [middle].intercalate (widths.map fun width => List.replicate (width + 2) '─') ++ [right]

/-- The drawn table; nothing at all when there are no rows. -/
def draw (table : Table) : String :=
  if table.rows.isEmpty then ""
  else
    let widths := table.columnWidths
    let lines := [rule '╭' '┬' '╮' widths] ++ drawRow widths table.heading ++ [rule '├' '┼' '┤' widths] ++
      table.rows.flatMap (drawRow widths) ++ [rule '╰' '┴' '╯' widths]
    String.ofList (['\n'].intercalate lines)

end Table
end VarCensus
