import EventJournal.Text.Digits

/-!
# Binary fractions as text

Fractions are held in double precision. The written form takes the fewest significant
digits that read back as the same fraction, of those the nearest to it; it is positional
while the point falls among the first sixteen places or at most four zeros follow it, and
has an exponent otherwise.

A numeral is read as a whole number of at most sixty-four bits, its further digits being
dropped, times a power of ten: the number is rounded to double precision, and then
multiplied by the power or divided by it. Numerals beyond the greatest double have no
value.
-/

namespace EventJournal

namespace Json

namespace Fraction

/-! ### The shortest digits -/

/-- The magnitude of a double as `significand * 2 ^ exponent`. -/
structure Magnitude where
  /-- The significand, of at most fifty-three bits. -/
  significand : Nat
  /-- The exponent of two. -/
  exponent : Int

/-- The bit of a significand that the bits of a double leave out: the one above their
fifty-two. -/
def leadingBit : Nat := 0x10000000000000

/-- The magnitude of the double with the given bits. -/
def magnitude (bits : UInt64) : Magnitude :=
  let field : Nat := bits.toNat / leadingBit % 0x800
  let rest : Nat := bits.toNat % leadingBit
  if field = 0 then ⟨rest, -1074⟩ else ⟨rest + leadingBit, (field : Int) - 1075⟩

/-- `n * b ^ e` over its denominator, for an exponent of either sign. -/
def scale (n b : Nat) (e : Int) : Nat × Nat :=
  if 0 ≤ e then (n * Nat.pow b e.toNat, 1) else (n, Nat.pow b e.natAbs)

/-- The greatest power of ten that is at most `num / den`, by search from `guess` on
downwards. -/
def leadingPower (num den : Nat) : (fuel : Nat) → Int → Int
  | 0, guess => guess
  | fuel + 1, guess =>
    let (p, q) := scale 1 10 guess
    if p * den ≤ num * q then guess else leadingPower num den fuel (guess - 1)

/-- The digits of a shortest numeral for `m`, as a number with its power of ten: of the
numerals of one significant digit, of two, and so on, the first that lies in the interval
of the reals that round to `m`. -/
def shortest (m : Magnitude) : Nat × Int :=
  -- four times the significand leaves room for the bounds between neighbours
  let (num, den) := scale (m.significand * 4) 2 (m.exponent - 2)
  let (half, halfDen) := scale 1 2 (m.exponent - 1)
  let narrow := m.significand = leadingBit && -1074 < m.exponent
  let closed := m.significand % 2 = 0
  -- is `d * 10 ^ k` within the interval, and how far from `m` is it
  let distance (d : Nat) (k : Int) : Nat × Nat × Bool :=
    let (p, q) := scale d 10 k
    (if p * den ≤ num * q then num * q - p * den else p * den - num * q, q * den, num * q ≤ p * den)
  let within (d : Nat) (k : Int) : Bool :=
    let (far, scaled, up) := distance d k
    let bound := if !up && narrow then half * scaled else 2 * half * scaled
    if closed then 2 * far * halfDen ≤ bound else 2 * far * halfDen < bound
  let top := leadingPower num den 700 309
  let pick (places : Nat) : Option (Nat × Int) :=
    let k := top + 1 - (places : Int)
    let (p, q) := scale 1 10 k
    let low := num * q / (den * p)
    let high := low + 1
    match within low k && low != 0, within high k with
    | true, true =>
      let (a, _, _) := distance low k
      let (b, _, _) := distance high k
      some (if a < b || (a == b && low % 2 == 0) then low else high, k)
    | true, false => some (low, k)
    | false, true => some (high, k)
    | false, false => none
  (((List.range 17).map (· + 1)).findSome? pick).getD (0, 0)

/-- Digits without the zeros at their end, and how many zeros there were. -/
def withoutTrailingZeros (digits : List Char) : List Char × Nat :=
  let kept := (digits.reverse.dropWhile (· == '0')).reverse
  (kept, digits.length - kept.length)

/-- Digits times a power of ten, as a numeral. -/
def renderDigits (digits : List Char) (k : Int) : List Char :=
  let point : Int := digits.length + k
  if 0 ≤ k ∧ point ≤ 16 then digits ++ List.replicate k.toNat '0' ++ ['.', '0']
  else if 0 < point ∧ point ≤ 16 then
    digits.take point.toNat ++ '.' :: digits.drop point.toNat
  else if -5 < point ∧ point ≤ 0 then
    '0' :: '.' :: List.replicate point.natAbs '0' ++ digits
  else
    let exponent := point - 1
    digits.take 1 ++ (if digits.length = 1 then [] else '.' :: digits.drop 1)
      ++ 'e' :: (if exponent < 0 then ['-'] else []) ++ Text.decimal exponent.natAbs

/-- The written form of a finite double. -/
def render (x : Float) : List Char :=
  let bits := x.toBits
  let sign := if 0x8000000000000000 ≤ bits.toNat then ['-'] else []
  let m := magnitude bits
  if m.significand = 0 then sign ++ ['0', '.', '0']
  else
    let (d, k) := shortest m
    let (digits, zeros) := withoutTrailingZeros (Text.decimal d)
    sign ++ renderDigits digits (k + zeros)

/-! ### Reading -/

/-- A power of ten in double precision. -/
def powerOfTen (k : Nat) : Float := Float.ofScientific 1 false k

/-- `f * 10 ^ exponent` for `f` below `10 ^ 20`, by one or two operations of double
precision; `none` beyond the greatest double. -/
def scaled? (f : Float) (exponent : Int) : Option Float :=
  if 0 ≤ exponent then
    if exponent ≤ 308 then
      let product := f * powerOfTen exponent.toNat
      if product.isInf then none else some product
    else if f == 0 then some f
    else none
  else if -308 ≤ exponent then some (f / powerOfTen exponent.natAbs)
  else if -616 ≤ exponent then some (f / powerOfTen 308 / powerOfTen (exponent.natAbs - 308))
  else some 0

/-- The double of a sign, a whole number of at most sixty-four bits and a power of ten. -/
def ofParts? (negative : Bool) (significand : Nat) (exponent : Int) : Option Float :=
  (scaled? (UInt64.ofNat significand).toFloat exponent).map fun f => if negative then -f else f

end Fraction

end Json

end EventJournal
