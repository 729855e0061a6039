/-! The shortest decimal that reads back as a given binary float. A finite float is `m · 2^q`; the
reals nearer to it than to its neighbours form an interval, and the answer is the decimal of fewest
digits inside it, the nearest to the float among those. -/

namespace Rehearsal.Number
set_option autoImplicit false

/-- A positive finite float as `significand · 2^exponent`. -/
structure Binary where
  significand : Nat
  exponent : Int
  /-- Is the float below nearer than the float above? So it is at a power of two. -/
  lowerIsNear : Bool
deriving DecidableEq, Repr

/-- A decimal `digits · 10^exponent`. -/
structure Decimal where
  digits : Nat
  exponent : Int
deriving DecidableEq, Repr

def signBit (x : Float) : Bool := x.toBits >>> 63 == 1

/-- Two to the power of 52, the number of fractions. -/
def fractionBound : Nat := 4503599627370496

/-- The magnitude of a finite float other than zero. -/
def binaryOf (x : Float) : Binary :=
  let bits : Nat := x.toBits.toNat
  let fraction : Nat := bits % fractionBound
  let field : Nat := bits / fractionBound % 2048
  if field == 0 then ⟨fraction, -1074, false⟩
  else ⟨fractionBound + fraction, (field : Int) - 1075, fraction == 0 && 1 < field⟩

/-- Numerator and denominator of `a · 2^p · 10^t`. -/
def ratio (a : Nat) (p t : Int) : Nat × Nat :=
  (a * Nat.pow 2 p.toNat * Nat.pow 10 t.toNat, Nat.pow 2 (-p).toNat * Nat.pow 10 (-t).toNat)

/-- The decimal exponent of a magnitude: the least `e` found with `m · 2^q < 10^e`. -/
def magnitude (b : Binary) : Int :=
  let (num, den) := ratio b.significand b.exponent 0
  if den ≤ num then ((Nat.toDigits 10 (num / den)).length : Int)
  else
    match (List.range 400).find? fun k => den ≤ num * Nat.pow 10 (k + 1) with
    | some k => -(k : Int)
    | none => -400

/-- Does `d · 10^t` lie in the interval of reals that round to the float? The ends belong to it
when the significand is even. -/
def reads (b : Binary) (d : Nat) (t : Int) : Bool :=
  let even := b.significand % 2 == 0
  let quarter := 4 * b.significand
  let low := quarter - (if b.lowerIsNear then 1 else 2)
  let high := quarter + 2
  -- both sides over the common denominator
  let (lowNum, lowDen) := ratio low (b.exponent - 2) (-t)
  let (highNum, highDen) := ratio high (b.exponent - 2) (-t)
  if even then lowNum ≤ d * lowDen && d * highDen ≤ highNum
  else lowNum < d * lowDen && d * highDen < highNum

/-- The decimal of `n` digits that reads back, if there is one. -/
def withDigits? (b : Binary) (e : Int) (n : Nat) : Option Decimal :=
  let t := e - (n : Int)
  let (num, den) := ratio b.significand b.exponent (-t)
  let d := num / den
  let r := 2 * (num % den)
  match reads b d t, reads b (d + 1) t with
  | true, true =>
    if r < den || (r == den && d % 2 == 0) then some ⟨d, t⟩ else some ⟨d + 1, t⟩
  | true, false => some ⟨d, t⟩
  | false, true => some ⟨d + 1, t⟩
  | false, false => none

def shortest (b : Binary) : Decimal :=
  let e := magnitude b
  ((List.range 17).findSome? fun n => withDigits? b e (n + 1)).getD ⟨0, 0⟩

/-- How a decimal is laid out: positions are used while the point stays within `least` and `most`
places of the first digit, an exponent of at least `exponentDigits` digits otherwise. -/
structure Layout where
  least : Int
  most : Int
  exponentDigits : Nat
  infinity : String
  nan : String

/-- Floats are written with a point or an exponent, positionally from `0.0001` up to below `10^16`. -/
def Layout.plain : Layout := ⟨-3, 16, 2, "inf", "nan"⟩

def Layout.write (l : Layout) (d : Decimal) : String :=
  let digits := (Nat.toDigits 10 d.digits).reverse.dropWhile (· == '0') |>.reverse
  let point := ((Nat.toDigits 10 d.digits).length : Int) + d.exponent
  let text :=
    if l.least ≤ point && point ≤ l.most then
      if point ≤ 0 then ['0', '.'] ++ List.replicate (-point).toNat '0' ++ digits
      else
        let whole := digits.take point.toNat
        let fraction := digits.drop point.toNat
        whole ++ List.replicate (point.toNat - whole.length) '0' ++ ['.'] ++
          (if fraction.isEmpty then ['0'] else fraction)
    else
      let power := point - 1
      let exponent := Nat.toDigits 10 power.natAbs
      digits.take 1 ++ (if digits.length ≤ 1 then [] else '.' :: digits.drop 1) ++ ['e'] ++
        [if power < 0 then '-' else '+'] ++
        List.replicate (l.exponentDigits - exponent.length) '0' ++ exponent
  String.ofList text

def Layout.float (l : Layout) (x : Float) : String :=
  let sign := if signBit x then "-" else ""
  if x.isNaN then l.nan
  else if x.isInf then sign ++ l.infinity
  else if x == 0 then sign ++ "0.0"
  else sign ++ l.write (shortest (binaryOf x))

def floatText (x : Float) : String := Layout.plain.float x

end Rehearsal.Number
