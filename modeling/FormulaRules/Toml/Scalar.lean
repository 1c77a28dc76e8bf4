import FormulaRules.Toml
import FormulaRules.Toml.Quoted

/-!
# Numbers, booleans and moments in TOML documents

A number is decimal, or whole with the mark `0x`, `0o` or `0b` and without a sign. Single
underscores may stand between two digits. Decimal numbers have no leading zero. Whole
numbers fit 64 bits with a sign. A number with a point or an exponent is the nearest
double; one above the largest double is refused, one below the least is negative infinity.

A moment is a date, a time of day, or a date and a time with an optional offset. Its parts
are checked, also the day against the month and the year.
-/

namespace FormulaRules.Toml

/-- The characters of numbers, booleans and moments. -/
def isScalarChar (c : Char) : Bool :=
  c.isAlphanum || c == '_' || c == '+' || c == '-' || c == '.' || c == ':'

/-- The digits of a run, in which single underscores may stand between two digits. -/
def digits? (isDigit : Char → Bool) : List Char → Option (List Char)
  | [] => none
  | [d] => if isDigit d then some [d] else none
  | d :: '_' :: rest => if isDigit d then (digits? isDigit rest).map (d :: ·) else none
  | d :: rest => if isDigit d then (digits? isDigit rest).map (d :: ·) else none

/-- The digits of a decimal whole number, which has no leading zero. -/
def wholeDigits? (cs : List Char) : Option (List Char) := do
  match ← digits? Char.isDigit cs with
  | '0' :: _ :: _ => none
  | ds => some ds

/-- A sign at the head of a run as it is written, and the rest. -/
def splitSign : List Char → List Char × List Char
  | '+' :: rest => (['+'], rest)
  | '-' :: rest => (['-'], rest)
  | cs => ([], cs)

/-- The whole number with the given digits and base, if it fits 64 bits with a sign. -/
def ofDigits? (base : Nat) (negative : Bool) (ds : List Char) : Option Int := do
  let magnitude := (← ds.mapM Number.hexValue?).foldl (fun n d => base * n + d) 0
  let n : Int := if negative then -magnitude else magnitude
  if -(Nat.pow 2 63 : Int) ≤ n ∧ n < Nat.pow 2 63 then some n else none

/-- Whether a character is a digit of a base up to sixteen. -/
def isDigitOf (base : Nat) (c : Char) : Bool := (Number.hexValue? c).any fun n => decide (n < base)

/-- A whole number that fills a run. -/
def integer? : List Char → Option Int
  | '0' :: 'x' :: rest => do ofDigits? 16 false (← digits? (isDigitOf 16) rest)
  | '0' :: 'o' :: rest => do ofDigits? 8 false (← digits? (isDigitOf 8) rest)
  | '0' :: 'b' :: rest => do ofDigits? 2 false (← digits? (isDigitOf 2) rest)
  | cs => do
    let (sign, rest) := splitSign cs
    ofDigits? 10 (sign == ['-']) (← wholeDigits? rest)

/-- Whether a character marks an exponent. -/
def isExponentMark (c : Char) : Bool := c == 'e' || c == 'E'

/-- A number with a point or an exponent, without its underscores. -/
def realDigits? (cs : List Char) : Option (List Char) := do
  let (sign, rest) := splitSign cs
  let mantissa := rest.takeWhile fun c => !isExponentMark c
  let exponent ← match rest.dropWhile (fun c => !isExponentMark c) with
    | [] => some []
    | mark :: rest =>
      let (sign, rest) := splitSign rest
      (digits? Char.isDigit rest).map fun ds => mark :: sign ++ ds
  let fraction ← match mantissa.dropWhile (· != '.') with
    | [] => if exponent.isEmpty then none else some []
    | _ :: rest => (digits? Char.isDigit rest).map ('.' :: ·)
  let whole ← wholeDigits? (mantissa.takeWhile (· != '.'))
  return sign ++ whole ++ fraction ++ exponent

/-- A number with a point or an exponent that fills a run, or a word for no finite number. -/
def real? (cs : List Char) : Option Float :=
  let (sign, word) := splitSign cs
  let signed (x : Float) : Float := if sign == ['-'] then -x else x
  if word == "inf".toList then some (signed (1 / 0))
  else if word == "nan".toList then some (signed (0 / 0))
  else do
    let x ← Number.readChars? (← realDigits? cs)
    if x == 1 / 0 then none else some x

/-- The number of two digits, if it lies between two bounds. -/
def twoDigits? (least most : Nat) (c d : Char) : Option Nat :=
  if c.isDigit && d.isDigit then
    let n := Number.ofDigits [c, d]
    if least ≤ n ∧ n ≤ most then some n else none
  else none

/-- The number of days of a month. -/
def daysOf (year month : Nat) : Nat :=
  if month = 2 then (if year % 4 = 0 ∧ (year % 100 ≠ 0 ∨ year % 400 = 0) then 29 else 28)
  else if month = 4 ∨ month = 6 ∨ month = 9 ∨ month = 11 then 30
  else 31

/-- What follows a date at the head of a run. -/
def skipDate? : List Char → Option (List Char)
  | a :: b :: c :: d :: '-' :: m :: n :: '-' :: x :: y :: rest =>
    if [a, b, c, d].all Char.isDigit then do
      let month ← twoDigits? 1 12 m n
      let _ ← twoDigits? 1 (daysOf (Number.ofDigits [a, b, c, d]) month) x y
      return rest
    else none
  | _ => none

/-- What follows a time of day at the head of a run. -/
def skipTime? : List Char → Option (List Char)
  | h :: i :: ':' :: m :: n :: ':' :: s :: t :: rest => do
    let _ ← twoDigits? 0 23 h i
    let _ ← twoDigits? 0 59 m n
    let _ ← twoDigits? 0 60 s t
    match rest with
    | '.' :: d :: rest => if d.isDigit then return rest.dropWhile Char.isDigit else none
    | rest => return rest
  | _ => none

/-- Whether a run is empty or an offset from universal time. -/
def isOffset : List Char → Bool
  | [] => true
  | ['Z'] => true
  | ['z'] => true
  | [sign, h, i, ':', m, n] =>
    (sign == '+' || sign == '-') && (twoDigits? 0 23 h i).isSome && (twoDigits? 0 59 m n).isSome
  | _ => false

/-- Whether a run is a time of day with an optional offset. -/
def isZonedTime (cs : List Char) : Bool := (skipTime? cs).any isOffset

/-- Whether a run is a date, a time of day, or both with a letter between them. -/
def isMoment (cs : List Char) : Bool :=
  match skipDate? cs with
  | some [] => true
  | some (mark :: rest) => (mark == 'T' || mark == 't') && isZonedTime rest
  | none => (skipTime? cs).any List.isEmpty

/-- The number, boolean or moment that fills a run. -/
def ofRun? (cs : List Char) : Option Toml :=
  if cs == "true".toList then some (boolean true)
  else if cs == "false".toList then some (boolean false)
  else if isMoment cs then some moment
  else ((integer? cs).map integer).or ((real? cs).map real)

/-- A number, boolean or moment at the head of a text. A blank may part a date from a time. -/
def readScalar (cs : List Char) : Option (Toml × List Char) := do
  let run := cs.takeWhile isScalarChar
  let rest := cs.dropWhile isScalarChar
  let v ← ofRun? run
  match rest with
  | ' ' :: after =>
    let next := after.takeWhile isScalarChar
    if skipDate? run == some [] && isZonedTime next then
      return (v, after.dropWhile isScalarChar)
    else return (v, rest)
  | rest => return (v, rest)

end FormulaRules.Toml
