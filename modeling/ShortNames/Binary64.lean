/-!
# Binary floating point

Numbers with 53 binary digits. A decimal is rounded to the nearest one, a tie to the even neighbour;
a number is written with the fewest decimal digits that round back to it, and of those the nearest.
All arithmetic is on natural numbers.
-/

namespace ShortNames

inductive Binary64
  /-- The number `mantissa · 2 ^ exponent`, with its sign. -/
  | finite (negative : Bool) (mantissa : Nat) (exponent : Int)
  | infinite (negative : Bool)
  | nan
  deriving DecidableEq, Repr

namespace Binary64

/-- The mantissas from this one up to twice it have 53 binary digits. -/
def leastNormal : Nat := Nat.pow 2 52

def power (base : Nat) (e : Int) : Nat × Nat :=
  if 0 ≤ e then (base.pow e.toNat, 1) else (1, base.pow (-e).toNat)

/-- A quotient rounded to the nearest natural number, a tie to the even one. -/
def roundDiv (num den : Nat) : Nat :=
  let k := num / den
  let r := num % den
  if 2 * r < den ∨ (2 * r = den ∧ k % 2 = 0) then k else k + 1

/-- The greatest `k` with `2 ^ k ≤ num / den`. -/
def log2Ratio (num den : Nat) : Int :=
  let k : Int := (num.log2 : Int) - den.log2
  let (a, b) := power 2 k
  if num * b < den * a then k - 1 else k

def ofRatio (negative : Bool) (num den : Nat) : Binary64 :=
  let q := max (log2Ratio num den - 52) (-1074)
  let (a, b) := power 2 q
  let m := roundDiv (num * b) (den * a)
  let (m, q) := if m = 2 * leastNormal then (leastNormal, q + 1) else (m, q)
  if 971 < q then .infinite negative else .finite negative m q

def decimalLength (n : Nat) : Nat :=
  (Nat.toDigits 10 n).length

def ofDecimal (negative : Bool) (digits : Nat) (exponent : Int) : Binary64 :=
  let order := decimalLength digits + exponent
  if digits = 0 ∨ order < -400 then .finite negative 0 0
  else if 400 < order then .infinite negative
  else
    let (a, b) := power 10 exponent
    ofRatio negative (digits * a) b

/-- The greatest `k` with `10 ^ k ≤ num / den`, for a positive fraction. -/
def log10Ratio (num den : Nat) : Int :=
  if den ≤ num then (decimalLength (num / den) : Int) - 1
  else -(decimalLength ((den - 1) / num) : Int)

/-- The multiple of `10 ^ p` that rounds to `m · 2 ^ q` and is nearest to it, if there is one; of
two that are equally near, the greater. -/
def onGrid? (m : Nat) (q : Int) (p : Int) : Option Nat :=
  let (un, ud) := power 2 (q - 2)
  let (pn, pd) := power 10 p
  let unit := un * pd
  let step := pn * ud
  let value := 4 * m * unit
  let high := (4 * m + 2) * unit
  let low := (4 * m - if m = leastNormal ∧ -1074 < q then 1 else 2) * unit
  let rounds (x : Nat) : Bool :=
    if m % 2 = 0 then low ≤ x && x ≤ high else low < x && x < high
  let below := value / step
  let above := below + 1
  match rounds (below * step), rounds (above * step) with
  | true, true =>
    some (if value - below * step < above * step - value then below else above)
  | true, false => some below
  | false, true => some above
  | false, false => none

/-- The fewest digits that round to the positive number `m · 2 ^ q`, and the power of ten that they
count. Seventeen digits are always enough. -/
def shortest (m : Nat) (q : Int) : Nat × Int :=
  let (a, b) := power 2 q
  let top := log10Ratio (m * a) b
  let hit := (List.range 17).findSome? fun (i : Nat) =>
    let p := top - i
    (onGrid? m q p).map fun c => (c, p)
  hit.getD (m * a / b, 0)

/-- The digits of `c · 10 ^ p` with a point where one is needed. -/
def positional (c : Nat) (p : Int) : List Char :=
  let digits := Nat.toDigits 10 c
  if 0 ≤ p then digits ++ List.replicate p.toNat '0'
  else
    let places := (-p).toNat
    let digits := List.replicate (places + 1 - digits.length) '0' ++ digits
    let whole := digits.take (digits.length - places)
    let fraction := ((digits.drop (digits.length - places)).reverse.dropWhile (· = '0')).reverse
    if fraction.isEmpty then whole else whole ++ '.' :: fraction

def text : Binary64 → String
  | nan => "NaN"
  | infinite negative => if negative then "-inf" else "inf"
  | finite negative m q =>
    let digits :=
      if m = 0 then ['0']
      else
        let (c, p) := shortest m q
        positional c p
    (if negative then "-" else "") ++ String.ofList digits

end Binary64

end ShortNames
