/-
TOML scalars that are written without quotes.

A word is a truth value, an integer, a float or a date-time. Underscores may
stand between digits. An integer fits 64 bits; a decimal one has no leading
zero. A float that rounds to positive infinity is refused. A date-time is
checked down to the days of its month, and is kept as its text.
-/
import DesignTokens.Number.Decimal
import DesignTokens.Toml.Value

namespace DesignTokens

namespace Toml

/-! ### Runs of digits -/

/-- The digits of a run in which single underscores may stand between digits. -/
def groupedDigits? (isDigit : Char → Bool) (text : List Char) : Option (List Char) :=
  let groups := text.splitOn '_'
  if groups.all fun group => !group.isEmpty && group.all isDigit then some groups.flatten
  else none

/-- The digits of a decimal whole number without leading zeros. -/
def wholeDigits? (text : List Char) : Option (List Char) :=
  match groupedDigits? Char.isDigit text with
  | some ['0'] => some ['0']
  | some ('0' :: _) => none
  | other => other

/-! ### Integers -/

def digitValue (c : Char) : Nat :=
  if c.isDigit then c.toNat - '0'.toNat else c.toLower.toNat - 'a'.toNat + 10

def valueInBase (base : Nat) (digits : List Char) : Nat :=
  digits.foldl (fun value digit => base * value + digitValue digit) 0

def isDigitOf (base : Nat) (c : Char) : Bool :=
  (c.isDigit || ('a' ≤ c && c ≤ 'f') || ('A' ≤ c && c ≤ 'F')) && digitValue c < base

def baseOf? (letter : Char) : Option Nat :=
  if letter = 'x' then some 16
  else if letter = 'o' then some 8
  else if letter = 'b' then some 2
  else none

def integer? (value : Int) : Option Value :=
  if -(integerLimit : Int) ≤ value ∧ value < integerLimit then some (.integer value) else none

def readInteger? (text : List Char) : Option Value :=
  match text with
  | '0' :: letter :: digits =>
    match baseOf? letter with
    | some base =>
      (groupedDigits? (isDigitOf base) digits).bind fun run => integer? (valueInBase base run)
    | none => none
  | _ =>
    let signed := takeSign text
    (wholeDigits? signed.2).bind fun run =>
      let value : Int := digitsValue run
      integer? (if signed.1 then -value else value)

/-! ### Floats -/

def isExponentMark (c : Char) : Bool := c = 'e' || c = 'E'

def readFloatExponent? (text : List Char) : Option Int :=
  let signed := takeSign text
  (groupedDigits? Char.isDigit signed.2).map fun run =>
    let value : Int := digitsValue run
    if signed.1 then -value else value

/-- The fraction and the exponent of a float after its whole part; one of them must be there. -/
def readFloatTail? : List Char → Option (List Char × Int)
  | [] => none
  | c :: rest =>
    if c = '.' then
      match groupedDigits? Char.isDigit (rest.takeWhile fun d => !isExponentMark d),
          rest.dropWhile fun d => !isExponentMark d with
      | some fraction, [] => some (fraction, 0)
      | some fraction, _ :: exponent =>
        (readFloatExponent? exponent).map fun power => (fraction, power)
      | none, _ => none
    else if isExponentMark c then (readFloatExponent? rest).map fun power => ([], power)
    else none

def endsWhole (c : Char) : Bool := c = '.' || isExponentMark c

def readDecimalFloat? (text : List Char) : Option Value :=
  let signed := takeSign text
  match wholeDigits? (signed.2.takeWhile fun c => !endsWhole c),
      readFloatTail? (signed.2.dropWhile fun c => !endsWhole c) with
  | some whole, some (fraction, power) =>
    let number := (Decimal.ofDigits signed.1 whole fraction power).toNumber
    if number = .infinity false then none else some (.float number)
  | _, _ => none

/-- A float: digits, or the name of an infinity or of a NaN, with an optional sign. -/
def readFloat? (text : List Char) : Option Value :=
  let signed := takeSign text
  if signed.2 = ['i', 'n', 'f'] then some (.float (.infinity signed.1))
  else if signed.2 = ['n', 'a', 'n'] then some (.float .nan)
  else readDecimalFloat? text

/-! ### Date-times -/

def twoDigits? (least greatest : Nat) : List Char → Option (Nat × List Char)
  | c :: d :: rest =>
    let value := digitsValue [c, d]
    if c.isDigit && d.isDigit && least ≤ value && value ≤ greatest then some (value, rest)
    else none
  | _ => none

def after? (expected : Char) : List Char → Option (List Char)
  | [] => none
  | c :: rest => if c = expected then some rest else none

def daysInMonth (year month : Nat) : Nat :=
  if month = 2 then
    if year % 4 = 0 ∧ (year % 100 ≠ 0 ∨ year % 400 = 0) then 29 else 28
  else if month = 4 ∨ month = 6 ∨ month = 9 ∨ month = 11 then 30
  else 31

def afterDate? (text : List Char) : Option (List Char) := do
  let (century, rest) ← twoDigits? 0 99 text
  let (year, rest) ← twoDigits? 0 99 rest
  let rest ← after? '-' rest
  let (month, rest) ← twoDigits? 1 12 rest
  let rest ← after? '-' rest
  let (_, rest) ← twoDigits? 1 (daysInMonth (100 * century + year) month) rest
  return rest

def afterSecondFraction? : List Char → Option (List Char)
  | [] => some []
  | c :: rest =>
    if c = '.' then
      if (rest.takeWhile Char.isDigit).isEmpty then none else some (rest.dropWhile Char.isDigit)
    else some (c :: rest)

def afterTime? (text : List Char) : Option (List Char) := do
  let (_, rest) ← twoDigits? 0 23 text
  let rest ← after? ':' rest
  let (_, rest) ← twoDigits? 0 59 rest
  let rest ← after? ':' rest
  let (_, rest) ← twoDigits? 0 60 rest
  afterSecondFraction? rest

def isOffset : List Char → Bool
  | [] => true
  | c :: rest =>
    if c = 'Z' || c = 'z' then rest.isEmpty
    else if c = '+' || c = '-' then
      match twoDigits? 0 23 rest with
      | some (_, ':' :: minutes) =>
        match twoDigits? 0 59 minutes with
        | some (_, []) => true
        | _ => false
      | _ => false
    else false

def isTimeMark (c : Char) : Bool := c = 'T' || c = 't' || c = ' '

/-- Whether a text is a date, a time, or a date with a time and perhaps an offset. -/
def isDateTime (text : List Char) : Bool :=
  match afterDate? text with
  | some [] => true
  | some (mark :: time) =>
    isTimeMark mark && match afterTime? time with
      | some offset => isOffset offset
      | none => false
  | none =>
    match afterTime? text with
    | some [] => true
    | _ => false

/-! ### Words -/

def readWord? (text : List Char) : Option Value :=
  if text = ['t', 'r', 'u', 'e'] then some (.boolean true)
  else if text = ['f', 'a', 'l', 's', 'e'] then some (.boolean false)
  else if isDateTime text then some (.dateTime (String.ofList text))
  else (readInteger? text).or (readFloat? text)

end Toml

end DesignTokens
