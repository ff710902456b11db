import VectorIndex.Bytes.Basic

/-!
# Physical lines

A line ends at a line feed, which may follow a carriage return. What follows the last line feed
is a line of its own unless it is empty.
-/

namespace VectorIndex.Text

/-- Splits behind every line feed; the lines keep their ends. -/
def splitLines (bytes : Bytes) : List Bytes := go [] bytes
where
  go (reversed : Bytes) : Bytes → List Bytes
    | [] => if reversed.isEmpty then [] else [reversed.reverse]
    | byte :: rest =>
      if byte = 10 then (byte :: reversed).reverse :: go [] rest else go (byte :: reversed) rest

/-- The line without its line feed and the carriage return in front of that. -/
def stripEnd (line : Bytes) : Bytes :=
  match line.reverse with
  | 10 :: 13 :: rest => rest.reverse
  | 10 :: rest => rest.reverse
  | _ => line

/-- The contents of the lines, in order. -/
def lines (bytes : Bytes) : List Bytes := (splitLines bytes).map stripEnd

end VectorIndex.Text
