/-
Line ends: a text read from a file ends its lines with line feeds only, whichever of the three ends it was written
with.
-/

namespace CodecCompiler.Text

/-- every carriage return, with the line feed behind it if there is one, as a line feed -/
def unifyNewlines : List Char → List Char
  | [] => []
  | '\r' :: '\n' :: rest => '\n' :: unifyNewlines rest
  | '\r' :: rest => '\n' :: unifyNewlines rest
  | c :: rest => c :: unifyNewlines rest

end CodecCompiler.Text
