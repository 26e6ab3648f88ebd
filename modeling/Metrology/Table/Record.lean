import Metrology.Text.Blank

/-!
# Comma-separated tables

A table is read as records of fields. A comma ends a field, and a line feed or carriage return ends
a record; lines without a character are no records. A field that begins with a quotation mark
extends to the next single quotation mark, and a doubled one stands for itself; what follows the
closing mark belongs to the field as it stands. Fields are trimmed of blanks afterwards.

The first record of a table is its header, and cells are found by the names in it.
-/

namespace Metrology.Table

/-- Where in a record the scan of a table stands. -/
inductive Position where
  | recordStart
  | fieldStart
  | plain
  | quoted
  /-- After a quotation mark inside quotation marks, which either closes them or is doubled. -/
  | closing
deriving DecidableEq, Repr

/-- The state of the scan. Everything read so far is held latest first. -/
structure Scan where
  position : Position := .recordStart
  field : List Char := []
  fields : List (List Char) := []
  records : List (List (List Char)) := []

namespace Scan

/-- The state after the end of a field. -/
def endField (scan : Scan) : Scan :=
  { scan with position := .fieldStart, field := [], fields := scan.field.reverse :: scan.fields }

/-- The state after the end of a record, which is the end of its last field too. -/
def endRecord (scan : Scan) : Scan :=
  { records := scan.endField.fields.reverse :: scan.records }

/-- The state after one more character of the current field. -/
def push (scan : Scan) (position : Position) (character : Char) : Scan :=
  { scan with position := position, field := character :: scan.field }

/-- Whether a character ends a record outside quotation marks. -/
def isLineEnd (character : Char) : Bool :=
  character == '\n' || character == '\r'

/-- The state after a character that is not within quotation marks. -/
def bare (scan : Scan) (character : Char) : Scan :=
  if character = ',' then scan.endField
  else if isLineEnd character then scan.endRecord
  else scan.push .plain character

/-- The state after a character that may begin a field. -/
def begin (scan : Scan) (character : Char) : Scan :=
  if character = '"' then { scan with position := .quoted } else scan.bare character

def next (scan : Scan) (character : Char) : Scan :=
  match scan.position with
  | .recordStart => if isLineEnd character then scan else scan.begin character
  | .fieldStart => scan.begin character
  | .plain => scan.bare character
  | .quoted =>
      if character = '"' then { scan with position := .closing }
      else scan.push .quoted character
  | .closing => if character = '"' then scan.push .quoted character else scan.bare character

/-- The records of a scan at the end of the text, which ends the record that has begun. -/
def finish (scan : Scan) : List (List (List Char)) :=
  match scan.position with
  | .recordStart => scan.records.reverse
  | _ => scan.endRecord.records.reverse

end Scan

/-- The records of a table, the header first, with every field trimmed. -/
def records (text : String) : List (List String) :=
  let scanned := (Text.dropByteOrderMark text.toList).foldl Scan.next {}
  scanned.finish.map fun fields => fields.map fun field => String.ofList (Text.trim field)

structure Record where
  header : List String
  fields : List String

namespace Record

/-- The cell in the column of a name, provided that the header has exactly one such column and the
record as many fields as the header. -/
def cell? (record : Record) (column : String) : Option String :=
  if record.fields.length = record.header.length then
    match (record.header.zip record.fields).filter fun (name, _) => name == column with
    | [(_, cell)] => some cell
    | _ => none
  else none

end Record

/-- The data records of a table under its header. -/
def dataRecords (text : String) : List Record :=
  match records text with
  | [] => []
  | header :: rows => rows.map fun fields => ⟨header, fields⟩

end Metrology.Table
