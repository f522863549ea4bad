/-!
# Columns

Left-aligned columns: a text is followed by blanks up to the width of its column.
-/

namespace Processor64.Column

/-- A text wider than its column stands as it is. -/
def left (width : Nat) (text : String) : String :=
  text ++ String.ofList (List.replicate (width - text.length) ' ')

end Processor64.Column
