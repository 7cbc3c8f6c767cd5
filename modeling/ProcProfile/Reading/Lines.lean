import ProcProfile.ByLine
import ProcProfile.Reading.Rows

/-!
# Line profiles

The rows of a procedure are gathered by the lines of its source.  Every line of the source gets a row,
with or without statements.  Lines end at a line feed; one carriage return before it belongs to the
line end, and what follows the last line feed is a line only if it is not empty.

Main definitions: `sourceLines`, `LineRow`, `rowsByLine`, `lineProfile`.
-/

namespace ProcProfile

/-- Takes the carriage return of a line end off a line that is held in reverse. -/
def dropReturn : List Char → List Char
  | '\r' :: rest => rest
  | line => line

/-- Splits a text into lines; `current` is the line read so far, in reverse. -/
def splitLines (current : List Char) : List Char → List (List Char)
  | [] => if current.isEmpty then [] else [current.reverse]
  | '\n' :: rest => (dropReturn current).reverse :: splitLines [] rest
  | c :: rest => splitLines (c :: current) rest

/-- The lines of a source text. -/
def sourceLines (source : String) : List String := (splitLines [] source.toList).map String.ofList

/-- One line of the source with the statements that start on it. -/
structure LineRow where
  line : Int32
  /-- The line again, if a statement starts on it. -/
  statementLine : Option Int32
  statements : Nat
  execCount : Counter
  totalTime : Counter
  /-- For each statement on the line, in source order. -/
  maxTimes : List Counter
  processedRows : List Counter
  source : String
  deriving DecidableEq, Repr

/-- Gathers rows by their lines. -/
def rowsByLine (rows : List StatementRow) : ByLine StatementRow :=
  rows.foldl (fun byLine row => byLine.push row.line row) ∅

/-- The row of one line. -/
def lineRow (byLine : ByLine StatementRow) (line : Int32) (source : String) : Except Fault LineRow := do
  let onLine := (byLine.on line).toList
  let execCount ← Counter.sum (onLine.map StatementRow.execCount)
  let totalTime ← Counter.sum (onLine.map StatementRow.totalTime)
  return { line := line
           statementLine := if onLine.isEmpty then none else some line
           statements := onLine.length
           execCount := execCount
           totalTime := totalTime
           maxTimes := onLine.map StatementRow.maxTime
           processedRows := onLine.map StatementRow.rows
           source := source }

/-- The rows of the lines `number`, `number + 1`, …. -/
def lineRows (byLine : ByLine StatementRow) (number : Nat) : List String → Except Fault (List LineRow)
  | [] => .ok []
  | source :: rest => do
    let row ← lineRow byLine (Int32.ofNat number) source
    let rest ← lineRows byLine (number + 1) rest
    return row :: rest

/-- Gathers rows by the lines of a source text. -/
def lineProfile (rows : List StatementRow) (source : String) : Except Fault (List LineRow) :=
  lineRows (rowsByLine rows) 1 (sourceLines source)

end ProcProfile
