/-!
# Columns of a listing

A listing sets each entry in columns of a fixed width. Widths count characters, whatever space a
character takes on a screen or in memory, and an entry longer than its column is written in full.
-/

namespace Metrology.Text

/-- The text set against the right edge of a column. -/
def alignRight (width : Nat) (text : String) : String :=
  String.ofList (List.leftpad width ' ' text.toList)

/-- The text set against the left edge of a column. -/
def alignLeft (width : Nat) (text : String) : String :=
  String.ofList (List.rightpad width ' ' text.toList)

/-- One line of a listing: the name against the right edge of its column, two blanks, the
abbreviation against the left edge of a column of fifteen, and the rest of the line. -/
def listingLine (nameWidth : Nat) (name abbreviation rest : String) : String :=
  alignRight nameWidth name ++ "  " ++ alignLeft 15 abbreviation ++ rest

/-- Lines joined by line feeds, with none after the last. -/
def joinLines (lines : List String) : String :=
  String.intercalate "\n" lines

end Metrology.Text
