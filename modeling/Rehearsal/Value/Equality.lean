import Rehearsal.Value.Basic
import Rehearsal.Number.Shortest

/-! Equality of values. Numbers are equal when they stand for one number, whatever their kind, so
`1`, `1.0` and `true` are equal; lists are compared item by item, dictionaries key by key without
regard to order. -/

namespace Rehearsal.Value
set_option autoImplicit false
open Rehearsal.Number

def floatIsInt (x : Float) (n : Int) : Bool :=
  if x.isNaN || x.isInf then false
  else if x == 0 then n == 0
  else
    let b := binaryOf x
    let (num, den) := ratio b.significand b.exponent 0
    num == n.natAbs * den && (signBit x == decide (n < 0))

def boolInt (b : Bool) : Int := if b then 1 else 0

/-- Equality of values that hold no others; `none` when one of the two does. -/
def sameAtom? : Value → Value → Option Bool
  | list _, list _ => none
  | dict _, dict _ => none
  | null, null => some true
  | text a, text b => some (a == b)
  | object _ a, object _ b => some (a == b)
  | float x, float y => some (x == y)
  | float x, int n | int n, float x => some (floatIsInt x n)
  | float x, bool b | bool b, float x => some (floatIsInt x (boolInt b))
  | int m, int n => some (m == n)
  | int n, bool b | bool b, int n => some (n == boolInt b)
  | bool a, bool b => some (a == b)
  | _, _ => some false

def sameKey (a b : Value) : Bool := (sameAtom? a b).getD false

mutual

def same (a b : Value) : Bool :=
  match a, b with
  | list xs, list ys => sameItems xs ys
  | dict xs, dict ys => xs.length == ys.length && sameEntries xs ys
  | a, b => (sameAtom? a b).getD false
termination_by sizeOf a

def sameItems (xs ys : List Value) : Bool :=
  match xs, ys with
  | [], [] => true
  | x :: xs, y :: ys => same x y && sameItems xs ys
  | _, _ => false
termination_by sizeOf xs

/-- Has every entry of the first an entry with the same key and value in the second? -/
def sameEntries (xs ys : List (Value × Value)) : Bool :=
  match xs with
  | [] => true
  | (k, v) :: xs => (ys.any fun e => sameKey k e.1 && same v e.2) && sameEntries xs ys
termination_by sizeOf xs

end

end Rehearsal.Value
