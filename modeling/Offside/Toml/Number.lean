import Offside.Toml.Reader
import Offside.Toml.Value

/-!
# `Offside.Toml.Number`: TOML numbers and dates

Digits may be grouped by single underscores between them. Decimal integers and the whole
parts of floating-point numbers have no leading zeros; integers in base sixteen, eight and
two have no sign. An integer must fit into sixty-four bits and a floating-point number must
not overflow. Dates must exist in the calendar, but since no setting of this program is a
date, nothing else is kept of them.
-/

set_option autoImplicit false

namespace Offside.Toml

open Reader

/-- The value of a row of digits in a base up to sixteen. -/
def valueIn (base : Nat) (digits : List Char) : Nat :=
  digits.foldl (fun n c =>
    base * n + (if c.isDigit then c.toNat - '0'.toNat else c.toLower.toNat - 'a'.toNat + 10)) 0

/-- At least one digit of a class, possibly grouped. -/
def digits (p : Char → Bool) : Reader (List Char) := do
  let first ← satisfy p
  let more ← many (do
    let _ ← maybe (exactly ['_'])
    satisfy p)
  return first :: more

/-- A sign; the answer is whether it is a minus. -/
def sign : Reader Bool := do
  match ← maybe (satisfy (fun c => c == '+' || c == '-')) with
  | some c => return c == '-'
  | none => return false

/-- Decimal digits without a leading zero. -/
def wholePart : Reader (List Char) := do
  match ← satisfy Char.isDigit with
  | '0' => return ['0']
  | first =>
    let more ← many (do
      let _ ← maybe (exactly ['_'])
      satisfy Char.isDigit)
    return first :: more

/-- A magnitude with a sign, if it fits into sixty-four bits. -/
def signed? (negative : Bool) (n : Nat) : Option Int :=
  if negative then (if n ≤ twoTo 63 then some (-(n : Int)) else none)
  else if n < twoTo 63 then some n else none

/-- An integer in a base other than ten, behind its mark. -/
def basedInteger (mark : Char) (base : Nat) (p : Char → Bool) : Reader Int := do
  exactly ['0', mark]
  let ds ← digits p
  match signed? false (valueIn base ds) with
  | some i => return i
  | none => failure

/-- An integer. -/
def integer : Reader Int :=
  basedInteger 'x' 16 (fun c => c.isDigit || ('a' ≤ c.toLower && c.toLower ≤ 'f')) <|>
  basedInteger 'o' 8 (fun c => '0' ≤ c && c ≤ '7') <|>
  basedInteger 'b' 2 (fun c => c == '0' || c == '1') <|> do
    let negative ← sign
    let ds ← wholePart
    match signed? negative (valueIn 10 ds) with
    | some i => return i
    | none => failure

/-- The exponent of a floating-point number. -/
def exponent : Reader Int := do
  let _ ← satisfy (fun c => c == 'e' || c == 'E')
  let negative ← sign
  let n := valueIn 10 (← digits Char.isDigit)
  return if negative then -(n : Int) else n

/-- A floating-point number with a fraction or an exponent or both. -/
def plainFloat : Reader Decimal := do
  let negative ← sign
  let whole ← wholePart
  let part ← maybe (do
    exactly ['.']
    digits Char.isDigit)
  let power ← if part.isSome then maybe exponent else some <$> exponent
  let part := part.getD []
  let magnitude :=
    Decimal.ofPower (valueIn 10 (whole ++ part)) (power.getD 0 - part.length)
  return if negative then magnitude.negate else magnitude

/-- An infinity or NaN by name. -/
def namedFloat : Reader Decimal := do
  let negative ← sign
  let magnitude ← (do exactly ['i', 'n', 'f']; return Decimal.infinity) <|>
    (do exactly ['n', 'a', 'n']; return ⟨0x7ff8000000000000⟩)
  return if negative then magnitude.negate else magnitude

/-- A floating-point number. A positive one must not be too large for the format. -/
def float : Reader Decimal := filter plainFloat (· ≠ Decimal.infinity) <|> namedFloat

/-! ### Dates and times -/

/-- A number of exactly the given count of digits, in a range. -/
def fixed (count low high : Nat) : Reader Nat := fun text =>
  let run := text.take count
  let n := valueIn 10 run
  if run.length = count ∧ run.all Char.isDigit ∧ low ≤ n ∧ n ≤ high then
    some (n, text.drop count)
  else none

/-- The number of days in a month. -/
def daysIn (year month : Nat) : Nat :=
  if month = 2 then
    if year % 4 = 0 ∧ (year % 100 ≠ 0 ∨ year % 400 = 0) then 29 else 28
  else if month = 4 ∨ month = 6 ∨ month = 9 ∨ month = 11 then 30
  else 31

/-- A day of the calendar. -/
def date : Reader Unit := do
  let year ← fixed 4 0 9999
  exactly ['-']
  let month ← fixed 2 1 12
  exactly ['-']
  let _ ← fixed 2 1 (daysIn year month)

/-- A time of day. The last minute may have a leap second. -/
def time : Reader Unit := do
  let _ ← fixed 2 0 23
  exactly [':']
  let _ ← fixed 2 0 59
  exactly [':']
  let _ ← fixed 2 0 60
  let _ ← maybe (do
    exactly ['.']
    let _ ← satisfy Char.isDigit
    span Char.isDigit)

/-- The distance from universal time. -/
def offset : Reader Unit := (do let _ ← satisfy (fun c => c == 'Z' || c == 'z')) <|> do
  let _ ← satisfy (fun c => c == '+' || c == '-')
  let _ ← fixed 2 0 23
  exactly [':']
  let _ ← fixed 2 0 59

/-- A date with or without a time, or a time. -/
def datetime : Reader Unit := (do
  date
  let _ ← maybe (do
    let _ ← satisfy (fun c => c == 'T' || c == 't' || c == ' ')
    time
    maybe offset)) <|> time

end Offside.Toml
