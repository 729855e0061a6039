/-! Halves of surrogate pairs. One that stands alone has a code point, but is no character; a text holds
one of the last characters of the private planes in its place. -/

namespace Rehearsal.Text
set_option autoImplicit false

def isSurrogate (code : Nat) : Bool := 0xD800 ≤ code && code < 0xE000

/-- The first of the characters that stand for surrogates. -/
def firstStandIn : Nat := 0x10F800

/-- The character of a code point, or the one that stands in for it. -/
def charOfCode (code : Nat) : Char :=
  if isSurrogate code then Char.ofNat (firstStandIn + (code - 0xD800)) else Char.ofNat code

def isStandIn (c : Char) : Bool := firstStandIn ≤ c.toNat

/-- The code point that a character of a text stands for. -/
def codeOf (c : Char) : Nat := if isStandIn c then 0xD800 + (c.toNat - firstStandIn) else c.toNat

theorem codeOf_charOfCode {code : Nat} (h : isSurrogate code = true) : codeOf (charOfCode code) = code := by
  have hrange : 0xD800 ≤ code ∧ code < 0xE000 := by simpa [isSurrogate] using h
  have hvalid : (firstStandIn + (code - 0xD800)).isValidChar := by
    right
    unfold firstStandIn
    omega
  have hstands : (charOfCode code).toNat = firstStandIn + (code - 0xD800) := by
    rw [charOfCode, if_pos h, Char.ofNat, dif_pos hvalid]
    rfl
  rw [codeOf, isStandIn, hstands, if_pos (by simp)]
  omega

/-- Is there a surrogate in a text? Such a text has no form in UTF-8. -/
def hasSurrogate (s : String) : Bool := s.toList.any isStandIn

/-- The first surrogates of a text that stand side by side, with the place of the first of them. -/
def surrogateRun (cs : List Char) : Nat × List Char :=
  let plain := cs.takeWhile fun c => !isStandIn c
  (plain.length, (cs.drop plain.length).takeWhile isStandIn)

end Rehearsal.Text
