import Lox.Decimal.Shortest

/-!
# How a float is written

Which digits are written is settled by `Binary.shortest`; a `Layout` settles where they go. Infinity,
not-a-number and the sign of zero are written the same way in every layout. `read` goes the other
way, from the digits of a numeral to the nearest float.
-/
namespace Lox.Decimal

/-- The decisions of a number format: which decimal exponents are written without an exponent
part, and whether a whole number keeps a point and a zero. -/
structure Layout where
  positional : Int → Bool
  pointZero : Bool

/-- The exponent of the leading digit. -/
def Digits.leading (d : Digits) (text : List Char) : Int := text.length - 1 + d.scale

/-- Digits with the point put where the scale says. -/
def Layout.writePositional (l : Layout) (text : List Char) (scale : Int) : List Char :=
  if 0 ≤ scale then
    text ++ List.replicate scale.toNat '0' ++ (if l.pointZero then ['.', '0'] else [])
  else
    let whole := text.length + scale
    if 0 < whole then text.take whole.toNat ++ '.' :: text.drop whole.toNat
    else '0' :: '.' :: (List.replicate (-whole).toNat '0' ++ text)

/-- One digit, the others after a point if there are any, and the exponent. -/
def writeScientific (text : List Char) (exponent : Int) : List Char :=
  let fraction := text.drop 1
  text.take 1 ++ (if fraction.isEmpty then [] else '.' :: fraction) ++ 'e' :: (toString exponent).toList

/-- The text of the magnitude of a finite float. -/
def Layout.writeFinite (l : Layout) (b : Binary) : List Char :=
  if b.mantissa = 0 then l.writePositional ['0'] 0
  else
    let d := b.shortest
    let text := Nat.toDigits 10 d.digits
    let exponent := d.leading text
    if l.positional exponent then l.writePositional text d.scale else writeScientific text exponent

/-- The text of a float. -/
def Layout.write (l : Layout) (x : Float) : String :=
  let sign := if isNegative x then ['-'] else []
  match magnitude x with
  | .nan => "NaN"
  | .infinite => String.ofList (sign ++ ['i', 'n', 'f'])
  | .finite b => String.ofList (sign ++ l.writeFinite b)

/-- The value of a run of decimal digits. -/
def natOfDigits (ds : List Char) : Nat :=
  ds.foldl (fun n c => 10 * n + (c.toNat - '0'.toNat)) 0

/-- The float nearest to `whole.fraction`. -/
def read (whole fraction : List Char) : Float :=
  Float.ofScientific (natOfDigits (whole ++ fraction)) true fraction.length

end Lox.Decimal
