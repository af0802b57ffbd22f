import Offside.Decimal.Shortest

/-!
# `Offside.Decimal.Style`: the written forms of a decimal

Two texts show decimals and they differ in two decisions, which a `Style` records: where
positional notation ends, and whether a whole number is written with its exact digits or
with the fewest that read back. `token` is the style of token text, `value` the style of
values. Both keep `.0` on whole numbers and the sign of zero.
-/

set_option autoImplicit false

namespace Offside

namespace Numeral

/-- The digits without trailing zeros, most significant first. -/
def significant (n : Numeral) : List Char :=
  ((Nat.toDigits 10 n.digits).reverse.dropWhile (· == '0')).reverse

/-- The power of ten that the first digit counts. -/
def leading (n : Numeral) : Int := n.power + Decimal.countDigits n.digits - 1

/-- Positional notation, with a digit on both sides of the point. -/
def positional (n : Numeral) : List Char :=
  let digits := n.significant
  if n.leading < 0 then
    '0' :: '.' :: (List.replicate (-n.leading - 1).toNat '0' ++ digits)
  else
    let whole := n.leading.toNat + 1
    let part := digits.drop whole
    digits.take whole ++ List.replicate (whole - digits.length) '0' ++ '.' ::
      (if part.isEmpty then ['0'] else part)

/-- Scientific notation: one digit, the others after a point if there are any, and the
exponent without a plus sign. -/
def scientific (n : Numeral) : List Char :=
  let mantissa : List Char :=
    match n.significant with
    | first :: second :: others => first :: '.' :: second :: others
    | digits => digits
  mantissa ++ 'e' :: (toString n.leading).toList

end Numeral

namespace Decimal

/-- The decisions of one written form. -/
structure Style where
  /-- Whether a number whose first digit counts this power of ten is written positionally. -/
  isPositional : Int → Bool
  /-- Whether whole numbers are written with their exact digits. -/
  exactWhole : Bool

namespace Style

/-- Tokens show the fewest digits that read back, positionally from `10 ^ -4` up to and
without `10 ^ 16`. -/
def token : Style where
  isPositional e := -4 ≤ e && e < 16
  exactWhole := false

/-- Values are always positional, and whole values exact. -/
def value : Style where
  isPositional _ := true
  exactWhole := true

/-- The text of a positive finite decimal. -/
def positive (s : Style) (d : Decimal) : List Char :=
  if s.exactWhole && d.isIntegral then Nat.toDigits 10 d.magnitude ++ ['.', '0']
  else if s.isPositional d.shortest.leading then d.shortest.positional
  else d.shortest.scientific

/-- The text of a decimal. -/
def text (s : Style) (d : Decimal) : String :=
  if d.isNaN then "NaN"
  else
    let magnitude : List Char :=
      if !d.isFinite then ['i', 'n', 'f']
      else if d.significand = 0 then ['0', '.', '0']
      else s.positive d
    String.ofList (if d.isNegative then '-' :: magnitude else magnitude)

end Style

end Decimal

end Offside
