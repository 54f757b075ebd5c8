/-! # Data — programs as they are read

    A program is written as nested data: texts, numbers, lists and objects.
    What a datum means depends on where it stands
    (`Strand.Language.Reading`). -/

namespace Strand.Language

/-- Nested data. -/
inductive Datum where
  | null
  | bool (b : Bool)
  /-- A number in the range of a 64-bit integer. -/
  | int (n : Int64)
  /-- Any other number. -/
  | number
  | text (s : String)
  | list (items : List Datum)
  | object (fields : List (String × Datum))
deriving Inhabited

end Strand.Language
