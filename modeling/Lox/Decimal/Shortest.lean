/-!
# The fewest decimal digits that name a float

A finite 64-bit float is `m * 2^q`. The reals that round to it form an interval around it, from
halfway to the neighbour below to halfway to the neighbour above, with both ends when `m` is even
and neither when it is odd. `shortest` looks for a decimal of one digit in that interval, then of
two, and so on; on each grid only the two neighbours of the value need a look. The nearer of two
hits is taken, and the larger of two equally near ones. All comparisons are between natural
numbers, so the answer is exact.
-/
namespace Lox.Decimal

/-- The value `mantissa * 2 ^ exponent`. When `narrow`, the next smaller float is only half as far
away as the next larger one. -/
structure Binary where
  mantissa : Nat
  exponent : Int
  narrow : Bool
  deriving DecidableEq, Repr

/-- What the 64 bits of a float stand for. -/
inductive Magnitude where
  | nan
  | infinite
  | finite (b : Binary)
  deriving DecidableEq, Repr

/-- The sign bit. -/
def isNegative (x : Float) : Bool := Nat.pow 2 63 ≤ x.toBits.toNat

/-- The magnitude of a float, read off its exponent and fraction bits. -/
def magnitude (x : Float) : Magnitude :=
  let bits := x.toBits.toNat % Nat.pow 2 63
  let biased : Nat := bits / Nat.pow 2 52
  let fraction := bits % Nat.pow 2 52
  if biased = 2047 then (if fraction = 0 then .infinite else .nan)
  else if biased = 0 then .finite ⟨fraction, -1074, false⟩
  else .finite ⟨Nat.pow 2 52 + fraction, (biased : Int) - 1075, fraction == 0 && biased != 1⟩

/-- The decimal `digits * 10 ^ scale`. -/
structure Digits where
  digits : Nat
  scale : Int
  deriving DecidableEq, Repr

/-- The numbers that round to one float, all measured in `unit`ths: the float itself is
`value / unit`, the ends are `low / unit` and `high / unit`. -/
structure Interval where
  low : Nat
  value : Nat
  high : Nat
  unit : Nat
  closed : Bool
  deriving DecidableEq, Repr

/-- Half of the gap above is two quarters of `2 ^ exponent`, half of a narrow gap below is one. -/
def Binary.interval (b : Binary) : Interval :=
  let up := Nat.pow 2 b.exponent.toNat
  { low := (4 * b.mantissa - (if b.narrow then 1 else 2)) * up
    value := 4 * b.mantissa * up
    high := (4 * b.mantissa + 2) * up
    unit := 4 * Nat.pow 2 (-b.exponent).toNat
    closed := b.mantissa % 2 == 0 }

/-- The same interval in multiples of `10 ^ scale`. -/
def Interval.atScale (i : Interval) (scale : Int) : Interval :=
  let down := Nat.pow 10 (-scale).toNat
  { low := i.low * down
    value := i.value * down
    high := i.high * down
    unit := i.unit * Nat.pow 10 scale.toNat
    closed := i.closed }

/-- Whether the whole number `d` lies in the interval. -/
def Interval.holds (i : Interval) (d : Nat) : Bool :=
  if i.closed then decide (i.low ≤ d * i.unit) && decide (d * i.unit ≤ i.high)
  else decide (i.low < d * i.unit) && decide (d * i.unit < i.high)

/-- The whole number of the interval next to its value, the larger one on a tie. -/
def Interval.nearest? (i : Interval) : Option Nat :=
  let d := i.value / i.unit
  match i.holds d, i.holds (d + 1) with
  | true, true => some (if 2 * i.value < (2 * d + 1) * i.unit then d else d + 1)
  | true, false => some d
  | false, true => some (d + 1)
  | false, false => none

/-- The least `k` with `b < 10 ^ k`. The binary logarithm gives it up to two steps. -/
def Binary.places (b : Binary) : Int :=
  let i := b.interval
  let guess : Int := (b.mantissa.log2 + b.exponent) * 30103 / 100000 - 1
  let fits (k : Int) : Bool := i.value * Nat.pow 10 (-k).toNat < i.unit * Nat.pow 10 k.toNat
  guess + ((List.range 4).find? fun (j : Nat) => fits (guess + j)).getD 4

/-- The value itself, written out in full. -/
def Binary.exact (b : Binary) : Digits :=
  ⟨b.mantissa * Nat.pow 2 b.exponent.toNat * Nat.pow 5 (-b.exponent).toNat, min b.exponent 0⟩

/-- Moves trailing zeros from the digits to the scale. -/
def Digits.trim (d : Digits) : Digits :=
  if d.digits ≠ 0 ∧ d.digits % 10 = 0 then Digits.trim ⟨d.digits / 10, d.scale + 1⟩ else d
termination_by d.digits
decreasing_by omega

/-- The decimal with the fewest digits among those that round to `b`, and of these the nearest. -/
def Binary.shortest (b : Binary) : Digits :=
  let k := b.places
  let found := (List.range 17).findSome? fun (n : Nat) =>
    let scale := k - (n + 1)
    ((b.interval.atScale scale).nearest?).map (Digits.mk · scale)
  (found.getD b.exact).trim

end Lox.Decimal
