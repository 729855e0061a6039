import Rehearsal.Json.Writer
import Rehearsal.Proofs.Cut
import Rehearsal.Proofs.Decimal

/-! JSON text stands on one line. Texts are escaped, numbers are made of a few characters, and where the
separators hold no control character, what is written holds none. -/

namespace Rehearsal
set_option autoImplicit false
open Rehearsal.Text Rehearsal.Number

namespace Text

/-- No control character, and so no end of a line, is there. -/
def Unbroken (cs : List Char) : Prop := ∀ c ∈ cs, 32 ≤ c.toNat

instance (cs : List Char) : Decidable (Unbroken cs) := List.decidableBAll _ cs

variable {cs ds : List Char}

@[simp] theorem unbroken_nil : Unbroken [] := nofun

@[simp] theorem unbroken_cons {c : Char} : Unbroken (c :: cs) ↔ 32 ≤ c.toNat ∧ Unbroken cs :=
  List.forall_mem_cons

@[simp] theorem unbroken_append : Unbroken (cs ++ ds) ↔ Unbroken cs ∧ Unbroken ds :=
  List.forall_mem_append

theorem Unbroken.of_subset (h : Unbroken ds) (hsub : cs ⊆ ds) : Unbroken cs :=
  fun c hc => h c (hsub hc)

theorem unbroken_ite {p : Prop} [Decidable p] (h : Unbroken cs) (h' : ¬ p → Unbroken ds) :
    Unbroken (if p then cs else ds) := by
  split
  · exact h
  · exact h' ‹_›

theorem unbroken_intercalate {sep : String} {texts : List String} (hsep : Unbroken sep.toList)
    (h : ∀ s ∈ texts, Unbroken s.toList) : Unbroken (sep.intercalate texts).toList := by
  intro c hc
  rw [String.toList_intercalate] at hc
  rcases mem_of_mem_intercalate hc with hc | ⟨p, hp, hc⟩
  · exact hsep c hc
  · obtain ⟨s, hs, rfl⟩ := List.mem_map.1 hp
    exact h s hs c hc

theorem le_toNat_of_isDigit {c : Char} (h : c.isDigit) : 32 ≤ c.toNat :=
  le_trans (by decide) (Char.isDigit_iff_toNat.1 h).1

theorem unbroken_toDigits (n : Nat) : Unbroken (Nat.toDigits 10 n) := fun _ hc =>
  le_toNat_of_isDigit (Nat.isDigit_of_mem_toDigits (by decide) (by decide) hc)

theorem unbroken_replicate_zero (n : Nat) : Unbroken (List.replicate n '0') := by
  intro c hc
  rw [List.eq_of_mem_replicate hc]
  decide

theorem unbroken_hexDigits (width n : Nat) : Unbroken (hexDigits width n) := by
  induction width generalizing n with
  | zero => exact unbroken_nil
  | succ width ih =>
    have hdigit : ∀ d < 16, 32 ≤ (hexDigit d).toNat := by decide
    have hlast := hdigit (n % 16) (Nat.mod_lt n (by decide))
    simp only [hexDigits, unbroken_append, unbroken_cons]
    exact ⟨ih (n / 16), hlast, unbroken_nil⟩

end Text

namespace Number

theorem unbroken_write (l : Layout) (d : Decimal) : Unbroken (l.write d).toList := by
  rw [Layout.write, String.toList_ofList]
  dsimp only
  have hdigits : Unbroken ((Nat.toDigits 10 d.digits).reverse.dropWhile (· == '0')).reverse := by
    apply (unbroken_toDigits d.digits).of_subset
    intro c hc
    exact List.mem_reverse.1 ((List.dropWhile_sublist _).subset (List.mem_reverse.1 hc))
  generalize ((Nat.toDigits 10 d.digits).reverse.dropWhile (· == '0')).reverse = digits at hdigits
  have htake : ∀ n, Unbroken (digits.take n) := fun n => hdigits.of_subset (List.take_subset n digits)
  have hdrop : ∀ n, Unbroken (digits.drop n) := fun n => hdigits.of_subset (List.drop_subset n digits)
  have hzeros := unbroken_replicate_zero
  split
  · split
    · simp only [unbroken_append]
      exact ⟨⟨by decide, hzeros _⟩, hdigits⟩
    · simp only [unbroken_append]
      exact ⟨⟨⟨htake _, hzeros _⟩, by decide⟩, unbroken_ite (by decide) fun _ => hdrop _⟩
  · have hsign (negative : Prop) [Decidable negative] : 32 ≤ (if negative then '-' else '+').toNat := by
      split <;> decide
    have hfraction : Unbroken (if digits.length ≤ 1 then [] else '.' :: digits.drop 1) :=
      unbroken_ite unbroken_nil fun _ => unbroken_cons.2 ⟨by decide, hdrop 1⟩
    simp only [unbroken_append, unbroken_cons]
    exact ⟨⟨⟨⟨⟨htake 1, hfraction⟩, by decide, unbroken_nil⟩, hsign _, unbroken_nil⟩, hzeros _⟩,
      unbroken_toDigits _⟩

theorem unbroken_float {l : Layout} (hinfinity : Unbroken l.infinity.toList) (hnan : Unbroken l.nan.toList)
    (x : Float) : Unbroken (l.float x).toList := by
  have hsign : Unbroken (if signBit x then "-" else "").toList := by
    split <;> decide
  rw [Layout.float]
  split
  · exact hnan
  · split
    · rw [String.toList_append, unbroken_append]
      exact ⟨hsign, hinfinity⟩
    · split
      · rw [String.toList_append, unbroken_append]
        exact ⟨hsign, by decide⟩
      · rw [String.toList_append, unbroken_append]
        exact ⟨hsign, unbroken_write l _⟩

end Number

namespace Json

theorem unbroken_unitEscape (n : Nat) : Unbroken (unitEscape n) := by
  simp [unitEscape, unbroken_hexDigits]

theorem unbroken_unitEscapes (n : Nat) : Unbroken (unitEscapes n) := by
  rw [unitEscapes]
  refine unbroken_ite (unbroken_unitEscape n) ?_
  intro _
  exact unbroken_append.2 ⟨unbroken_unitEscape _, unbroken_unitEscape _⟩

theorem unbroken_escapeChar (asciiOnly : Bool) (c : Char) : Unbroken (escapeChar asciiOnly c) := by
  rw [escapeChar]
  -- The seven characters that have an escape of their own.
  iterate 7
    refine unbroken_ite (by decide) ?_
    intro _
  refine unbroken_ite (unbroken_unitEscape c.toNat) ?_
  intro hcontrol
  refine unbroken_ite (unbroken_unitEscapes (codeOf c)) ?_
  intro _
  exact unbroken_cons.2 ⟨Nat.le_of_not_lt hcontrol, unbroken_nil⟩

variable {style : Style}

theorem unbroken_quote (style : Style) (s : String) : Unbroken (quote style s).toList := by
  have hchars : Unbroken (s.toList.flatMap (escapeChar style.asciiOnly)) := by
    intro c hc
    obtain ⟨d, _, hd⟩ := List.mem_flatMap.1 hc
    exact unbroken_escapeChar style.asciiOnly d c hd
  simp only [quote, String.toList_append, String.toList_ofList, unbroken_append]
  exact ⟨⟨by decide, hchars⟩, by decide⟩

theorem unbroken_int (n : Int) : Unbroken (toString n).toList := by
  intro c hc
  rcases mem_toString_int hc with rfl | hdigit
  · decide
  · exact le_toNat_of_isDigit hdigit

/-- The separators hold no control character. -/
def Style.Unbroken (style : Style) : Prop :=
  Text.Unbroken style.itemSeparator.toList ∧ Text.Unbroken style.keySeparator.toList

mutual

theorem unbroken_write (h : style.Unbroken) : (j : Json) → Unbroken (write style j).toList
  | .null => by rw [write]; decide
  | .bool true => by rw [write]; decide
  | .bool false => by rw [write]; decide
  | .int n => unbroken_int n
  | .float x => unbroken_float (by decide) (by decide) x
  | .str s => unbroken_quote style s
  | .arr items => by
    have hitems := unbroken_intercalate h.1 (unbroken_writeItems h items)
    simp only [write, String.toList_append, unbroken_append]
    exact ⟨⟨by decide, hitems⟩, by decide⟩
  | .obj fields => by
    have hfields := unbroken_intercalate h.1 (unbroken_writeFields h fields)
    simp only [write, String.toList_append, unbroken_append]
    exact ⟨⟨by decide, hfields⟩, by decide⟩

theorem unbroken_writeItems (h : style.Unbroken) :
    (items : List Json) → ∀ s ∈ writeItems style items, Unbroken s.toList
  | [] => nofun
  | j :: js => by
    rw [writeItems, List.forall_mem_cons]
    exact ⟨unbroken_write h j, unbroken_writeItems h js⟩

theorem unbroken_writeFields (h : style.Unbroken) :
    (fields : List (String × Json)) → ∀ s ∈ writeFields style fields, Unbroken s.toList
  | [] => nofun
  | (k, j) :: fs => by
    have hfield : Unbroken (quote style k ++ style.keySeparator ++ write style j).toList := by
      simp only [String.toList_append, unbroken_append]
      exact ⟨⟨unbroken_quote style k, h.2⟩, unbroken_write h j⟩
    rw [writeFields, List.forall_mem_cons]
    exact ⟨hfield, unbroken_writeFields h fs⟩

end

/-- A line of a report is one line, whatever texts are in it. -/
theorem unbroken_line (j : Json) : Unbroken j.line.toList :=
  unbroken_write ⟨by decide, by decide⟩ j

end Json
end Rehearsal
