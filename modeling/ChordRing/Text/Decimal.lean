/-!
# Decimal text of doubles

A positive double is a natural number times a power of two, and all reals nearer to it than to its
neighbours read back as the same double. `Decimal.shortest` finds the fewest decimal digits that
lie among those reals, the nearest of them to the double itself, and `Decimal.text` sets them out
with a point or with an exponent.
-/

namespace ChordRing.Decimal

/-- A positive double `value / unit` with the bounds of the reals that round to it, all over the
same unit. The bounds themselves round to it when `closed` holds. -/
structure Rounding where
  low : Nat
  value : Nat
  high : Nat
  unit : Nat
  closed : Bool
  deriving DecidableEq, Repr

/-- The reals that round to `m * 2 ^ q`. The neighbour below a power of two is half as far away as
the one above, except at the bottom of the range. -/
def Rounding.of (m : Nat) (q : Int) : Rounding :=
  let below := if m = 1 <<< 52 ∧ q ≠ -1074 then 1 else 2
  let up := 1 <<< (q - 2).toNat
  { low := (4 * m - below) * up
    value := 4 * m * up
    high := (4 * m + 2) * up
    unit := 1 <<< (2 - q).toNat
    closed := m % 2 = 0 }

/-- The exponent of the leading decimal digit of the fraction `num / unit`. -/
def leadingExponent (num unit : Nat) : Int :=
  if unit ≤ num then ((Nat.toDigits 10 (num / unit)).length : Int) - 1
  else
    match (List.range 400).find? fun k => unit ≤ num * Nat.pow 10 (k + 1) with
    | some k => -((k : Int) + 1)
    | none => 0

/-- A decimal number `digits * 10 ^ exponent`. -/
structure Scaled where
  digits : Nat
  exponent : Int
  deriving DecidableEq, Repr

/-- The multiple of `10 ^ exponent` that rounds to the double and lies nearest to it, if one of the
two multiples next to the double rounds to it at all. Of two equally near ones the even one. -/
def onGrid? (r : Rounding) (exponent : Int) : Option Scaled :=
  let down := Nat.pow 10 (-exponent).toNat
  let step := Nat.pow 10 exponent.toNat * r.unit
  let target := r.value * down
  let inside := fun c : Nat =>
    if r.closed then r.low * down ≤ c * step ∧ c * step ≤ r.high * down
    else r.low * down < c * step ∧ c * step < r.high * down
  let c := target / step
  let rest := target % step
  if inside c ∧ inside (c + 1) then
    if 2 * rest < step ∨ 2 * rest = step ∧ c % 2 = 0 then some ⟨c, exponent⟩
    else some ⟨c + 1, exponent⟩
  else if inside c then some ⟨c, exponent⟩
  else if inside (c + 1) then some ⟨c + 1, exponent⟩
  else none

/-- The same number without the zero that a carry out of a single digit leaves. -/
def Scaled.carried (s : Scaled) : Scaled := if s.digits = 10 then ⟨1, s.exponent + 1⟩ else s

/-- The fewest digits that round to `m * 2 ^ q`, at most seventeen. -/
def shortest (m : Nat) (q : Int) : Scaled :=
  let r := Rounding.of m q
  let lead := leadingExponent r.value r.unit
  match (List.range 17).findSome? fun (n : Nat) => onGrid? r (lead - n) with
  | some s => s.carried
  | none => ⟨r.value / r.unit, 0⟩

/-- An exponent with its sign, which is written for a positive one too. -/
def exponentText (e : Int) : String := if 0 < e then "+" ++ toString e else toString e

/-- Digits with the point before, among or behind them when the leading one stands for
`10 ^ (-5)` to `10 ^ 15`, and with a signed exponent otherwise. -/
def layout (s : Scaled) : String :=
  let digits := Nat.toDigits 10 s.digits
  let point : Int := digits.length + s.exponent
  let chars :=
    if 0 < point ∧ point ≤ 16 then
      if s.exponent < 0 then digits.take point.toNat ++ '.' :: digits.drop point.toNat
      else digits ++ List.replicate s.exponent.toNat '0' ++ ['.', '0']
    else if -5 < point ∧ point ≤ 0 then
      '0' :: '.' :: (List.replicate (-point).toNat '0' ++ digits)
    else
      digits.take 1 ++ (if digits.length = 1 then [] else '.' :: digits.drop 1) ++
        'e' :: (exponentText (point - 1)).toList
  String.ofList chars

/-- The text of a finite double: the fewest digits that read back as the same number. -/
def text (x : Float) : String :=
  let bits := x.toBits.toNat
  let fraction := bits % (1 <<< 52)
  let biased := bits / (1 <<< 52) % (1 <<< 11)
  let magnitude :=
    if biased = 0 ∧ fraction = 0 then "0.0"
    else if biased = 0 then layout (shortest fraction (-1074))
    else layout (shortest ((1 <<< 52) + fraction) (Int.ofNat biased - 1075))
  if bits < 1 <<< 63 then magnitude else "-" ++ magnitude

end ChordRing.Decimal
