/-!
# Blank characters and letter case

A character is blank if Unicode gives it the property `White_Space`: 25 characters, listed
as ranges. Trimming drops blank characters at both ends of a text and none inside.

Keywords, function names and file extensions ignore the case of the letters `A` to `Z`
only. Letters outside that range never match another letter.
-/

namespace FormulaRules.Text

/-- The characters with the Unicode property `White_Space`. -/
def isBlank (c : Char) : Bool :=
  let n := c.toNat
  (0x09 ≤ n && n ≤ 0x0D) || n == 0x20 || n == 0x85 || n == 0xA0 || n == 0x1680 ||
    (0x2000 ≤ n && n ≤ 0x200A) || n == 0x2028 || n == 0x2029 || n == 0x202F || n == 0x205F ||
    n == 0x3000

/-- Every character that core calls whitespace is blank. -/
theorem isBlank_of_isWhitespace {c : Char} (h : c.isWhitespace = true) : isBlank c = true := by
  simp only [Char.isWhitespace, Bool.or_eq_true, decide_eq_true_eq] at h
  rcases h with ((rfl | rfl) | rfl) | rfl <;> decide

/-- Drop the blank characters before the first other one. -/
def skipBlanks (cs : List Char) : List Char := cs.dropWhile isBlank

/-- Drop the blank characters at both ends. -/
def trimBlanks (cs : List Char) : List Char := (skipBlanks (skipBlanks cs).reverse).reverse

/-- A text without the blank characters at its ends. -/
def trim (s : String) : String := String.ofList (trimBlanks s.toList)

/-- A text with the letters `A` to `Z` made small. -/
def foldCase (s : String) : String := s.map Char.toLower

/-- Whether two texts agree up to the case of the letters `A` to `Z`. -/
def sameFolded (s t : String) : Bool := foldCase s == foldCase t

/-- The text between two equal quote characters at its ends, if it has both. -/
def between? (quote : Char) (cs : List Char) : Option (List Char) :=
  match cs with
  | [] => none
  | c :: rest =>
    if c = quote then
      match rest.reverse with
      | [] => none
      | d :: inner => if d = quote then some inner.reverse else none
    else none

/-- Quoted text is read back without its quotes. -/
theorem between?_quoted (quote : Char) (cs : List Char) :
    between? quote (quote :: cs ++ [quote]) = some cs := by
  simp [between?]

end FormulaRules.Text
