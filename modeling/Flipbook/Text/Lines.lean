import Flipbook.Text.CharClass

/-!
# Lines

A text is a row of lines, each ended by a line feed, or by a carriage return and a line feed, or
by the end of the text.
-/

namespace Flipbook.Text

/-- The lines of a text, without what ends them. After the last line feed there is no line. -/
def lines : List Char → List (List Char)
  | [] => []
  | '\n' :: rest => [] :: lines rest
  | '\r' :: '\n' :: rest => [] :: lines rest
  | c :: rest =>
    match lines rest with
    | [] => [[c]]
    | line :: more => (c :: line) :: more

/-- The line without the blanks at its two ends. -/
def trim (line : List Char) : List Char :=
  ((line.dropWhile isBlank).reverse.dropWhile isBlank).reverse

end Flipbook.Text
