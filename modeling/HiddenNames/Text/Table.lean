import HiddenNames.Text.Columns

/-!
Tables on a terminal. A column is as wide as its widest cell and a gap, unless all columns together
are wider than the terminal: then the widest ones shrink first, and cells in them are broken into
lines and, where that does not help, cut.
-/

namespace HiddenNames.Text

structure TableColumn where
  title : String
  toRight : Bool := false
  deriving DecidableEq, Repr

structure Table where
  columns : List TableColumn
  rows : List (List String)

namespace Table

def gap : Nat := 2

def cellWidth (text : String) : Nat :=
  ((linesOf (shown text)).map Text.columns).foldl max 0

def lines (t : Table) : List (List String) := t.columns.map TableColumn.title :: t.rows

def naturalWidths (t : Table) (width : Nat) : List Nat :=
  t.columns.zipIdx.map fun (_, i) =>
    min width ((t.lines.map fun row => cellWidth (row[i]?.getD "")).foldl max 0 + gap)

/-- The quotient nearest to the exact one; of two equally near the even one. -/
def roundedQuotient (n d : Nat) : Nat :=
  let q := n / d
  let twice := 2 * (n % d)
  if twice < d then q else if d < twice then q + 1 else if q % 2 = 0 then q else q + 1

/-- Takes a total away from the chosen widths, in equal shares and at most a limit from each. -/
def reduce (limit : Nat) : Nat → Nat → List (Nat × Bool) → List Nat
  | _, _, [] => []
  | total, shares, (width, chosen) :: rest =>
    if chosen && 0 < shares then
      let share := min limit (roundedQuotient total shares)
      (width - share) :: reduce limit (total - share) (shares - 1) rest
    else width :: reduce limit total shares rest

/-- One step of shrinking: the widest columns give way, at most down to the next widest. -/
def shrinkOnce (excess : Nat) (widths : List Nat) : List Nat :=
  let widest := widths.foldl max 0
  let next := (widths.map fun w => if w = widest then 0 else w).foldl max 0
  let chosen := widths.map fun w => (w, decide (w = widest))
  reduce (min excess (widest - next)) excess (chosen.countP Prod.snd) chosen

def total (widths : List Nat) : Nat := widths.foldl Nat.add 0

/-- Shrinks widths until they fit. Each step takes away at least one column. -/
def shrink (width : Nat) : Nat → List Nat → List Nat
  | 0, widths => widths
  | fuel + 1, widths =>
    if total widths ≤ width then widths
    else shrink width fuel (shrinkOnce (total widths - width) widths)

def widths (t : Table) (width : Nat) : List Nat :=
  let natural := t.naturalWidths width
  shrink width (total natural) natural

def cellLines (column : TableColumn) (width : Nat) (text : String) : List (List Char) :=
  let inner := width - gap
  (wrap false inner (shown text)).map fun line =>
    let body :=
      if column.toRight then padStart inner (cutShort inner (dropTrailing line))
      else padEnd inner (cutShort inner line)
    body ++ blanks (width - inner)

/-- The lines of a row. A cell with fewer lines than the others is blank below. -/
def rowLines (t : Table) (widths : List Nat) (row : List String) : List String :=
  let cells := (t.columns.zip (widths.zip row)).map fun (column, width, text) =>
    (width, cellLines column width text)
  let height := (cells.map fun cell => cell.2.length).foldl max 0
  (List.range height).map fun i =>
    String.ofList (cells.flatMap fun (width, lines) => lines[i]?.getD (blanks width))

def render (t : Table) (width : Nat) : List String :=
  let widths := t.widths width
  t.lines.flatMap (t.rowLines widths)

end Table

end HiddenNames.Text
