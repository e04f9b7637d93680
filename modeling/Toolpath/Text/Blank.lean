/-!
# Blanks and words

A blank is a character with the Unicode property `White_Space`. Words are the maximal runs of
characters that are no blanks, and a trimmed text starts and ends with none.
-/

namespace Toolpath.Text

/-- The characters with the property `White_Space`: 25 code points, of which all but six belong to
two runs. -/
def isBlank (c : Char) : Bool :=
  let n := c.toNat
  (9 ≤ n && n ≤ 13) || n == 0x20 || n == 0x85 || n == 0xA0 || n == 0x1680
    || (0x2000 ≤ n && n ≤ 0x200A) || n == 0x2028 || n == 0x2029 || n == 0x202F || n == 0x205F
    || n == 0x3000

/-- A text without the blanks at its start. -/
def trimStart (cs : List Char) : List Char := cs.dropWhile isBlank

/-- A text without the blanks at its end. -/
def trimEnd (cs : List Char) : List Char := (cs.reverse.dropWhile isBlank).reverse

/-- A text without the blanks at its two ends. -/
def trim (cs : List Char) : List Char := trimEnd (trimStart cs)

/-- The words of a text, in order. A character joins the word after it unless a blank, or the end
of the text, stands between them. -/
def words : List Char → List (List Char)
  | [] => []
  | c :: rest =>
    if isBlank c then words rest
    else
      match rest with
      | [] => [[c]]
      | d :: _ =>
        if isBlank d then [c] :: words rest
        else
          match words rest with
          | [] => [[c]]
          | w :: ws => (c :: w) :: ws

/-- The part of a text before the first character of a kind; all of it where there is none. -/
def before (stop : Char) (cs : List Char) : List Char := cs.takeWhile (· != stop)

/-! ## Columns -/

/-- A text set to the right in a column of so many characters; a longer text stays as it is. -/
def alignRight (width : Nat) (text : String) : String :=
  String.ofList (List.replicate (width - text.length) ' ') ++ text

end Toolpath.Text
