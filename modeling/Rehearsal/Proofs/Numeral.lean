import Mathlib.Data.Nat.Digits.Defs
import Rehearsal.Matching
import Rehearsal.Proofs.Tag

/-! Numbers as texts. The forms that a coercer looks for are given as grammars: an integer is a run of
digits behind a sign or none, a decimal has digits around a point and maybe an exponent. Texts of these
forms can be read, an integer up to the limit on its digits, and nothing that can be read has white space
inside it. -/

namespace Rehearsal
set_option autoImplicit false

namespace Text
variable {c : Char} {cs : List Char}

theorem zeros_apart : ∀ z ∈ zeros, z = 48 ∨ 1632 ≤ z ∧ (z + 10 ≤ 0x1680 ∨ 0x1680 < z) ∧
    (z + 10 ≤ 0x2000 ∨ 0x3000 < z) := by
  decide

theorem exists_zero_of_isDigit (h : isDigit c = true) :
    ∃ z ∈ zeros, z ≤ c.toNat ∧ c.toNat < z + 10 := by
  obtain ⟨d, hd⟩ := isDigit_iff.1 h
  obtain ⟨z, hz, _⟩ := Option.map_eq_some_iff.1 hd
  refine ⟨z, List.mem_of_find?_eq_some hz, ?_⟩
  simpa using List.find?_some hz

theorem isBlank_of_isDigit (h : isDigit c = true) : isBlank c = false := by
  obtain ⟨z, hz, hle, hlt⟩ := exists_zero_of_isDigit h
  have hapart := zeros_apart z hz
  simp only [isBlank, Bool.or_eq_false_iff, Bool.and_eq_false_iff, decide_eq_false_iff_not,
    beq_eq_false_iff_ne]
  omega

theorem toLower_of_not_capital (h : c.toNat < 65 ∨ 90 < c.toNat) : c.toLower = c := by
  have hout : ¬ (c.val ≥ 'A'.val ∧ c.val ≤ 'Z'.val) := by
    simp only [ge_iff_le, UInt32.le_iff_toNat_le]
    change ¬ (65 ≤ c.toNat ∧ c.toNat ≤ 90)
    omega
  exact dif_neg hout

theorem toLower_of_isDigit (h : isDigit c = true) : c.toLower = c := by
  obtain ⟨z, hz, hle, hlt⟩ := exists_zero_of_isDigit h
  have hapart := zeros_apart z hz
  apply toLower_of_not_capital
  omega

theorem isBlank_toLower (h : isBlank c = true) : isBlank c.toLower = true := by
  have hout : c.toNat < 65 ∨ 90 < c.toNat := by
    simp only [isBlank, Bool.or_eq_true, Bool.and_eq_true, decide_eq_true_eq, beq_iff_eq] at h
    omega
  rw [toLower_of_not_capital hout, h]

theorem isBlank_of_isSpacing (h : isSpacing c = true) : isBlank c = true := by
  rw [isSpacing, Bool.and_eq_true] at h
  exact h.1

/-- Nothing in the text is white space. -/
def Clear (cs : List Char) : Prop := ∀ c ∈ cs, isBlank c = false

instance (cs : List Char) : Decidable (Clear cs) := List.decidableBAll _ cs

theorem clear_append {cs' : List Char} : Clear (cs ++ cs') ↔ Clear cs ∧ Clear cs' :=
  List.forall_mem_append

theorem trim_of_clear (h : Clear cs) : trim cs = cs := by
  cases cs with
  | nil => rfl
  | cons c cs =>
    apply trim_of_ends (h c List.mem_cons_self)
    intro d hd
    exact h d (List.mem_of_getLast? hd)

theorem dropWhile_again {p q : Char → Bool} (hpq : ∀ c, p c = true → q c = true) (cs : List Char) :
    (cs.dropWhile p).dropWhile q = cs.dropWhile q := by
  induction cs with
  | nil => rfl
  | cons c cs ih =>
    cases hp : p c with
    | false => rw [List.dropWhile_cons_of_neg (by simp [hp])]
    | true => rw [List.dropWhile_cons_of_pos hp, List.dropWhile_cons_of_pos (hpq c hp), ih]

theorem dropWhile_of_less {p q : Char → Bool} (hpq : ∀ c, p c = true → q c = true)
    (h : cs.dropWhile q = cs) : cs.dropWhile p = cs := by
  rw [List.dropWhile_eq_self_iff] at h ⊢
  intro hl hp
  exact h hl (hpq _ hp)

/-- The spacing at the ends of a text is white space, so it does not matter if it is taken off first. -/
theorem trim_trimSpacing (cs : List Char) : trim (trimSpacing cs) = trim cs := by
  have hright : ∀ ds : List Char, trimRight (ds.reverse.dropWhile isSpacing).reverse = trimRight ds := by
    intro ds
    simp only [trimRight, trimLeft, List.reverse_reverse,
      dropWhile_again (fun c => isBlank_of_isSpacing)]
  rw [trim, trimSpacing, ← trimLeft_trimRight, hright, trimLeft_trimRight, trim, trimLeft, trimLeft,
    dropWhile_again (fun c => isBlank_of_isSpacing)]

theorem trimSpacing_trim (cs : List Char) : trimSpacing (trim cs) = trim cs := by
  have hleft : (trim cs).dropWhile isBlank = trim cs := by
    change trimLeft (trimRight (trimLeft cs)) = trim cs
    rw [trimLeft_trimRight, trimLeft_trimLeft, trim]
  have hright : (trim cs).reverse.dropWhile isBlank = (trim cs).reverse := by
    have h : trimRight (trim cs) = trim cs := trimRight_trimRight
    rw [trimRight, trimLeft] at h
    exact List.reverse_eq_iff.1 h
  rw [trimSpacing, dropWhile_of_less (fun c => isBlank_of_isSpacing) hleft,
    dropWhile_of_less (fun c => isBlank_of_isSpacing) hright, List.reverse_reverse]

end Text

namespace Number
open Rehearsal.Text
variable {cs sign digits rest : List Char} {negative : Bool}

/-- The text of a sign: is it a minus? -/
inductive Sign : List Char → Bool → Prop
  | absent : Sign [] false
  | plus : Sign ['+'] false
  | minus : Sign ['-'] true

/-- The number that digits spell, those of any script. -/
def spelled (digits : List Char) : Nat := Nat.ofDigits 10 (digits.filterMap digitValue?).reverse

/-- A text of digits behind a sign or none. -/
inductive IntegerForm : List Char → Bool → List Char → Prop
  | mk {sign digits : List Char} {negative : Bool} : Sign sign negative → digits ≠ [] →
      (∀ c ∈ digits, isDigit c = true) → IntegerForm (sign ++ digits) negative digits

/-- An exponent, with its power of ten. -/
inductive ExponentForm : List Char → Int → Prop
  | absent : ExponentForm [] 0
  | power {c : Char} {cs digits : List Char} {negative : Bool} : c = 'e' ∨ c = 'E' →
      IntegerForm cs negative digits → ExponentForm (c :: cs) (applySign negative (spelled digits))

/-- A text with a point in it: digits before or behind it, and maybe an exponent. -/
inductive DecimalForm : List Char → Bool → List Char → List Char → Int → Prop
  | mk {sign whole fraction exponent : List Char} {negative : Bool} {power : Int} : Sign sign negative →
      (∀ c ∈ whole, isDigit c = true) → (∀ c ∈ fraction, isDigit c = true) →
      whole ≠ [] ∨ fraction ≠ [] → ExponentForm exponent power →
      DecimalForm (sign ++ (whole ++ '.' :: (fraction ++ exponent))) negative whole fraction power

theorem sign_readSign (cs : List Char) : ∃ sign, Sign sign (readSign cs).1 ∧ cs = sign ++ (readSign cs).2 := by
  unfold readSign
  split
  · exact ⟨['-'], .minus, rfl⟩
  · exact ⟨['+'], .plus, rfl⟩
  · exact ⟨[], .absent, rfl⟩

theorem readSign_append (hs : Sign sign negative) (hcs : ∀ c ∈ cs.head?, c ≠ '-' ∧ c ≠ '+') :
    readSign (sign ++ cs) = (negative, cs) := by
  cases hs with
  | plus => rfl
  | minus => rfl
  | absent =>
    rw [List.nil_append]
    unfold readSign
    split
    · exact absurd rfl (hcs '-' rfl).1
    · exact absurd rfl (hcs '+' rfl).2
    · rfl

theorem Sign.clear (hs : Sign sign negative) : Clear sign := by
  cases hs <;> decide

theorem ne_sign_of_isDigit {c : Char} (h : isDigit c = true) : c ≠ '-' ∧ c ≠ '+' := by
  constructor <;> rintro rfl <;> exact absurd h (by decide)

theorem readSign_digits (hs : Sign sign negative) (hdigits : ∀ c ∈ digits, isDigit c = true) :
    readSign (sign ++ digits) = (negative, digits) := by
  apply readSign_append hs
  intro c hc
  exact ne_sign_of_isDigit (hdigits c (List.mem_of_head? hc))

theorem isIntegerText_iff :
    Coercer.isIntegerText cs = true ↔ ∃ negative digits, IntegerForm cs negative digits := by
  constructor
  · intro h
    simp only [Coercer.isIntegerText, Bool.and_eq_true, Bool.not_eq_true', List.isEmpty_eq_false_iff,
      List.all_eq_true] at h
    obtain ⟨sign, hs, hcs⟩ := sign_readSign cs
    refine ⟨(readSign cs).1, (readSign cs).2, ?_⟩
    nth_rewrite 1 [hcs]
    exact .mk hs h.1 h.2
  · rintro ⟨negative, digits, h⟩
    cases h with
    | @mk sign _ _ hs hne hdigits =>
      rw [Coercer.isIntegerText, readSign_digits hs hdigits]
      simpa [hne] using hdigits

/-- A run ends where something else stands, or at the end. -/
theorem run_append {p : Char → Bool} (hdigits : ∀ c ∈ digits, p c = true)
    (hrest : ∀ c ∈ rest.head?, p c = false) :
    (digits ++ rest).takeWhile p = digits ∧ (digits ++ rest).dropWhile p = rest := by
  rw [List.takeWhile_append_of_pos hdigits, List.dropWhile_append_of_pos hdigits]
  cases rest with
  | nil => simp
  | cons c rest =>
    have hc := hrest c rfl
    simp [hc]

theorem exponentForm_iff :
    (match cs with
      | [] => true
      | c :: cs => (c == 'e' || c == 'E') && Coercer.isIntegerText cs) = true ↔
        ∃ power, ExponentForm cs power := by
  cases cs with
  | nil => exact ⟨fun _ => ⟨0, .absent⟩, fun _ => rfl⟩
  | cons c cs =>
    simp only [Bool.and_eq_true, Bool.or_eq_true, beq_iff_eq, isIntegerText_iff]
    constructor
    · rintro ⟨hc, negative, digits, h⟩
      exact ⟨_, .power hc h⟩
    · rintro ⟨_, h⟩
      cases h with
      | power hc h => exact ⟨hc, _, _, h⟩

theorem ExponentForm.stops {power : Int} (h : ExponentForm cs power) :
    ∀ c ∈ cs.head?, isDigit c = false ∧ c ≠ '_' := by
  cases h with
  | absent => nofun
  | @power c _ _ _ hc =>
    intro d hd
    cases hd
    rcases hc with rfl | rfl <;> decide

theorem starts_of_numeral (hdigits : ∀ c ∈ digits, isDigit c = true) :
    ∀ c ∈ (digits ++ '.' :: rest).head?, c = '.' ∨ isDigit c = true := by
  intro c hc
  cases digits with
  | nil =>
    cases hc
    exact .inl rfl
  | cons d ds =>
    cases hc
    exact .inr (hdigits c List.mem_cons_self)

theorem ne_sign_of_start {c : Char} (h : c = '.' ∨ isDigit c = true) : c ≠ '-' ∧ c ≠ '+' := by
  rcases h with rfl | hdigit
  · decide
  · exact ne_sign_of_isDigit hdigit

theorem point_stops (rest : List Char) : ∀ c ∈ ('.' :: rest).head?, isDigit c = false ∧ c ≠ '_' := by
  intro c hc
  cases hc
  decide

theorem exists_form_of_isDecimalText (h : Coercer.isDecimalText cs = true) :
    ∃ negative whole fraction power, DecimalForm cs negative whole fraction power := by
  obtain ⟨sign, hs, hcs⟩ := sign_readSign cs
  unfold Coercer.isDecimalText at h
  generalize (readSign cs).1 = negative at hs
  generalize (readSign cs).2 = numeral at hcs h
  dsimp only at h
  split at h
  · rename_i behind hpoint
    rw [Bool.and_eq_true] at h
    obtain ⟨hne, hexponent⟩ := h
    obtain ⟨power, hpower⟩ := exponentForm_iff.1 hexponent
    refine ⟨negative, numeral.takeWhile isDigit, behind.takeWhile isDigit, power, ?_⟩
    have hbehind : behind = behind.takeWhile isDigit ++ behind.dropWhile isDigit :=
      List.takeWhile_append_dropWhile.symm
    have hnumeral : numeral = numeral.takeWhile isDigit ++ '.' :: behind := by
      rw [← hpoint]
      exact List.takeWhile_append_dropWhile.symm
    rw [hbehind] at hnumeral
    rw [hcs]
    nth_rewrite 1 [hnumeral]
    refine .mk hs (fun c hc => List.mem_takeWhile_imp hc) (fun c hc => List.mem_takeWhile_imp hc) ?_ hpower
    simpa using hne
  · cases h

theorem DecimalForm.isDecimalText {whole fraction : List Char} {power : Int}
    (h : DecimalForm cs negative whole fraction power) : Coercer.isDecimalText cs = true := by
  cases h with
  | @mk sign _ _ exponent _ _ hs hwhole hfraction hne hpower =>
    have hstart : ∀ c ∈ (whole ++ '.' :: (fraction ++ exponent)).head?, c ≠ '-' ∧ c ≠ '+' :=
      fun c hc => ne_sign_of_start (starts_of_numeral hwhole c hc)
    obtain ⟨htake, hdrop⟩ := run_append hwhole fun c hc => (point_stops (fraction ++ exponent) c hc).1
    obtain ⟨htake', hdrop'⟩ := run_append hfraction fun c hc => (hpower.stops c hc).1
    rw [Coercer.isDecimalText, readSign_append hs hstart]
    simp only [htake, hdrop, htake', hdrop', Bool.and_eq_true]
    exact ⟨by simpa using hne, exponentForm_iff.2 ⟨power, hpower⟩⟩

theorem isDecimalText_iff :
    Coercer.isDecimalText cs = true ↔
      ∃ negative whole fraction power, DecimalForm cs negative whole fraction power :=
  ⟨exists_form_of_isDecimalText, fun ⟨_, _, _, _, h⟩ => h.isDecimalText⟩

theorem IntegerForm.point_not_mem (h : IntegerForm cs negative digits) : '.' ∉ cs := by
  cases h with
  | mk hs _ hdigits =>
    rw [List.mem_append]
    rintro (hsign | hdigit)
    · cases hs <;> exact absurd hsign (by decide)
    · exact absurd (hdigits '.' hdigit) (by decide)

/-- The point tells a decimal from an integer. -/
theorem DecimalForm.not_integer {negative' : Bool} {whole fraction : List Char} {power : Int}
    (h : DecimalForm cs negative whole fraction power) : ¬ IntegerForm cs negative' digits := by
  intro hint
  cases h
  exact hint.point_not_mem (by simp)

theorem digitsValue_eq (ds : List Nat) : digitsValue ds = Nat.ofDigits 10 ds.reverse := by
  induction ds using List.reverseRecOn with
  | nil => rfl
  | append_singleton ds d ih =>
    rw [digitsValue_append_singleton, ih, List.reverse_append, List.reverse_singleton,
      List.singleton_append, Nat.ofDigits_cons]
    exact Nat.add_comm _ d

theorem digitsValue_digitsOf (digits : List Char) : digitsValue (digitsOf digits) = spelled digits :=
  digitsValue_eq _

theorem digitsOf_append (digits digits' : List Char) :
    digitsOf (digits ++ digits') = digitsOf digits ++ digitsOf digits' :=
  List.filterMap_append

theorem length_digitsOf (h : ∀ c ∈ digits, isDigit c = true) : (digitsOf digits).length = digits.length :=
  List.filterMap_length_eq_length.2 h

theorem ne_underscore_of_isDigit {c : Char} (h : isDigit c = true) : c ≠ '_' := by
  rintro rfl
  exact absurd h (by decide)

theorem wellSpaced_digits (h : ∀ c ∈ digits, isDigit c = true) (afterDigit : Bool) :
    wellSpaced afterDigit digits = (afterDigit || !digits.isEmpty) := by
  induction digits generalizing afterDigit with
  | nil => simp [wellSpaced]
  | cons c digits ih =>
    obtain ⟨hc, hdigits⟩ := List.forall_mem_cons.1 h
    rw [wellSpaced, if_neg (by simpa using ne_underscore_of_isDigit hc), ih hdigits]
    simp

theorem splitDigits_append (hdigits : ∀ c ∈ digits, isDigit c = true)
    (hrest : ∀ c ∈ rest.head?, isDigit c = false ∧ c ≠ '_') :
    splitDigits (digits ++ rest) = (digits, rest) := by
  have hrun : ∀ c ∈ digits, (isDigit c || c == '_') = true := by
    intro c hc
    rw [hdigits c hc, Bool.true_or]
  have hstop : ∀ c ∈ rest.head?, (isDigit c || c == '_') = false := by
    intro c hc
    simpa using hrest c hc
  obtain ⟨htake, hdrop⟩ := run_append hrun hstop
  rw [splitDigits, htake, hdrop]

theorem readDigits?_append (hne : digits ≠ []) (hdigits : ∀ c ∈ digits, isDigit c = true)
    (hrest : ∀ c ∈ rest.head?, isDigit c = false ∧ c ≠ '_') :
    readDigits? (digits ++ rest) = some (digitsOf digits, rest) := by
  rw [readDigits?, splitDigits_append hdigits hrest]
  dsimp only
  rw [wellSpaced_digits hdigits, if_pos (by simpa using hne)]

theorem readDigits?_digits (hne : digits ≠ []) (hdigits : ∀ c ∈ digits, isDigit c = true) :
    readDigits? digits = some (digitsOf digits, []) := by
  have hrest : ∀ c ∈ ([] : List Char).head?, isDigit c = false ∧ c ≠ '_' := nofun
  have h := readDigits?_append hne hdigits hrest
  rwa [List.append_nil] at h

/-- An integer is read unless it has too many digits. -/
theorem readInt_of_form {text : String} (h : IntegerForm (trimSpacing text.toList) negative digits) :
    readInt text = if digitLimit < digits.length then .error (.tooLong digits.length)
      else .ok (applySign negative (spelled digits)) := by
  generalize htext : trimSpacing text.toList = cs at h
  cases h with
  | mk hs hne hdigits =>
    rw [readInt, htext, readSign_digits hs hdigits]
    dsimp only
    rw [readDigits?_digits hne hdigits]
    simp only [length_digitsOf hdigits, List.isEmpty_nil, if_true, digitsValue_digitsOf]

theorem readExponent?_of_form {power : Int} (h : ExponentForm cs power) :
    readExponent? cs = some power := by
  cases h with
  | absent => rfl
  | power hc h =>
    cases h with
    | mk hs hne hdigits =>
      rw [readExponent?, if_pos (by simpa using hc), readSign_digits hs hdigits]
      dsimp only
      rw [readDigits?_digits hne hdigits]
      simp only [digitsValue_digitsOf]

theorem readMantissa?_point {whole fraction : List Char} (hwhole : ∀ c ∈ whole, isDigit c = true)
    (hfraction : ∀ c ∈ fraction, isDigit c = true) (hne : whole ≠ [] ∨ fraction ≠ [])
    (hrest : ∀ c ∈ rest.head?, isDigit c = false ∧ c ≠ '_') :
    readMantissa? (whole ++ '.' :: (fraction ++ rest)) =
      some (digitsOf whole, digitsOf fraction, rest) := by
  cases whole with
  | nil =>
    have hf : fraction ≠ [] := hne.resolve_left (fun h => h rfl)
    rw [List.nil_append, readMantissa?, readDigits?_append hf hfraction hrest]
    rfl
  | cons c whole =>
    have hwritten := readDigits?_append (List.cons_ne_nil c whole) hwhole (point_stops (fraction ++ rest))
    unfold readMantissa?
    split
    · rename_i heq
      rw [List.cons_append] at heq
      have hc := hwhole c List.mem_cons_self
      rw [(List.cons.inj heq).1] at hc
      exact absurd hc (by decide)
    · rw [hwritten, Option.bind_eq_bind, Option.bind_some]
      change (if (splitDigits (fraction ++ rest)).1.isEmpty = true then _ else _) = _
      rw [splitDigits_append hfraction hrest]
      cases fraction with
      | nil => rfl
      | cons d fraction =>
        rw [if_neg (by simp), readDigits?_append (List.cons_ne_nil d fraction) hfraction hrest]
        rfl

theorem readMantissa?_digits (hne : digits ≠ []) (hdigits : ∀ c ∈ digits, isDigit c = true) :
    readMantissa? digits = some (digitsOf digits, [], []) := by
  unfold readMantissa?
  split
  · exact absurd (hdigits '.' List.mem_cons_self) (by decide)
  · rw [readDigits?_digits hne hdigits]
    rfl

/-- What begins with a digit or a point is none of the words for floats. -/
theorem asciiLower_ne {c : Char} {word : String} (hc : c = '.' ∨ isDigit c = true)
    (hword : ∀ d ∈ word.toList.head?, d ≠ '.' ∧ isDigit d = false) : asciiLower (c :: cs) ≠ word := by
  intro h
  have hlower : c.toLower = c := by
    rcases hc with rfl | hc
    · rfl
    · exact toLower_of_isDigit hc
  have hhead : word.toList.head? = some c := by
    rw [← h, asciiLower, String.toList_ofList, List.map_cons, List.head?_cons, hlower]
  obtain ⟨hne, hnot⟩ := hword c hhead
  rcases hc with rfl | hc
  · exact hne rfl
  · rw [hc] at hnot
    cases hnot

def withSign (negative : Bool) (x : Float) : Float := if negative then -x else x

theorem readFloat?_of_parts {numeral : List Char} {w f : List Nat} {e : Int}
    (hs : readSign cs = (negative, numeral)) (hne : numeral ≠ [])
    (hstart : ∀ c ∈ numeral.head?, c = '.' ∨ isDigit c = true)
    (hm : readMantissa? numeral = some (w, f, rest)) (he : readExponent? rest = some e) :
    readFloat? cs = some (withSign negative (scientific (digitsValue (w ++ f)) (e - (f.length : Int)))) := by
  cases numeral with
  | nil => exact absurd rfl hne
  | cons c numeral =>
    have hc := hstart c rfl
    have hwords : ∀ word ∈ ["inf", "infinity", "nan"], asciiLower (c :: numeral) ≠ word := by
      intro word hword
      apply asciiLower_ne hc
      simp only [List.mem_cons, List.not_mem_nil, or_false] at hword
      rcases hword with rfl | rfl | rfl
      all_goals
        rintro d ⟨⟩
        decide
    simp only [List.forall_mem_cons] at hwords
    obtain ⟨hinf, hinfinity, hnan, _⟩ := hwords
    rw [readFloat?, hs]
    dsimp only
    rw [if_neg (by simp [hinf, hinfinity]), if_neg (by simpa using hnan), hm]
    change (readExponent? rest).bind _ = _
    rw [he]
    rfl

theorem readFloat?_of_integerForm (h : IntegerForm cs negative digits) :
    readFloat? cs = some (withSign negative (scientific (spelled digits) 0)) := by
  cases h with
  | mk hs hne hdigits =>
    have hstart : ∀ c ∈ digits.head?, c = '.' ∨ isDigit c = true :=
      fun c hc => .inr (hdigits c (List.mem_of_head? hc))
    rw [readFloat?_of_parts (readSign_digits hs hdigits) hne hstart (readMantissa?_digits hne hdigits) rfl,
      List.append_nil, digitsValue_digitsOf]
    rfl

/-- A decimal is read: its digits spell a number, which is scaled by what stands behind the point. -/
theorem readFloat?_of_form {whole fraction : List Char} {power : Int}
    (h : DecimalForm cs negative whole fraction power) :
    readFloat? cs =
      some (withSign negative (scientific (spelled (whole ++ fraction)) (power - (fraction.length : Int)))) := by
  cases h with
  | @mk sign _ _ exponent _ _ hs hwhole hfraction hne hpower =>
    have hstart : ∀ c ∈ (whole ++ '.' :: (fraction ++ exponent)).head?, c = '.' ∨ isDigit c = true :=
      starts_of_numeral hwhole
    have hsign := readSign_append hs (fun c hc => ne_sign_of_start (hstart c hc))
    rw [readFloat?_of_parts hsign (by simp) hstart
      (readMantissa?_point hwhole hfraction hne hpower.stops) (readExponent?_of_form hpower),
      ← digitsOf_append, digitsValue_digitsOf, length_digitsOf hfraction]

theorem clear_digits (h : ∀ c ∈ digits, isDigit c = true) : Clear digits :=
  fun c hc => isBlank_of_isDigit (h c hc)

theorem IntegerForm.clear (h : IntegerForm cs negative digits) : Clear cs := by
  cases h with
  | mk hs _ hdigits => exact clear_append.2 ⟨hs.clear, clear_digits hdigits⟩

theorem clear_of_readSign (h : Clear (readSign cs).2) : Clear cs := by
  obtain ⟨sign, hs, hcs⟩ := sign_readSign cs
  rw [hcs]
  exact clear_append.2 ⟨hs.clear, h⟩

theorem clear_of_readDigits? {ds : List Nat} (h : readDigits? cs = some (ds, rest)) (hrest : Clear rest) :
    Clear cs := by
  unfold readDigits? splitDigits at h
  dsimp only at h
  split at h
  · cases h
    rw [← List.takeWhile_append_dropWhile (p := fun c => isDigit c || c == '_') (l := cs)]
    refine clear_append.2 ⟨?_, hrest⟩
    intro c hc
    have hrun := List.mem_takeWhile_imp hc
    rw [Bool.or_eq_true, beq_iff_eq] at hrun
    rcases hrun with hdigit | rfl
    · exact isBlank_of_isDigit hdigit
    · decide
  · cases h

theorem clear_point (h : Clear cs) : Clear ('.' :: cs) :=
  List.forall_mem_cons.2 ⟨by decide, h⟩

theorem clear_of_readMantissa? {w f : List Nat} (h : readMantissa? cs = some (w, f, rest))
    (hrest : Clear rest) : Clear cs := by
  unfold readMantissa? at h
  split at h
  · obtain ⟨⟨f', rest'⟩, hread, h⟩ := Option.map_eq_some_iff.1 h
    cases h
    exact clear_point (clear_of_readDigits? hread hrest)
  · obtain ⟨⟨w', rest'⟩, hread, h⟩ := Option.bind_eq_some_iff.1 h
    apply clear_of_readDigits? hread
    dsimp only at h
    split at h
    · apply clear_point
      split at h
      · cases h
        exact hrest
      · obtain ⟨⟨f', rest''⟩, hread', h⟩ := Option.bind_eq_some_iff.1 h
        cases h
        exact clear_of_readDigits? hread' hrest
    · cases h
      exact hrest

theorem clear_of_readExponent? {e : Int} (h : readExponent? cs = some e) : Clear cs := by
  unfold readExponent? at h
  split at h
  · exact nofun
  · rename_i c cs
    split at h
    · rename_i hc
      dsimp only at h
      split at h
      · rename_i hread
        refine List.forall_mem_cons.2 ⟨?_, clear_of_readSign (clear_of_readDigits? hread nofun)⟩
        simp only [Bool.or_eq_true, beq_iff_eq] at hc
        rcases hc with rfl | rfl <;> decide
      · cases h
    · cases h

theorem clear_of_asciiLower {word : String} (h : asciiLower cs = word) (hword : Clear word.toList) :
    Clear cs := by
  intro c hc
  have hmem : c.toLower ∈ word.toList := by
    rw [← h, asciiLower, String.toList_ofList]
    exact List.mem_map_of_mem hc
  by_contra hblank
  rw [Bool.not_eq_false] at hblank
  have hlower := isBlank_toLower hblank
  rw [hword _ hmem] at hlower
  cases hlower

/-- Nothing that is read as a float has white space in it. -/
theorem clear_of_readFloat? {x : Float} (h : readFloat? cs = some x) : Clear cs := by
  apply clear_of_readSign
  unfold readFloat? at h
  generalize readSign cs = sign at h ⊢
  obtain ⟨negative, numeral⟩ := sign
  dsimp only at h ⊢
  split at h
  · rename_i hword
    rw [Bool.or_eq_true, beq_iff_eq, beq_iff_eq] at hword
    rcases hword with hword | hword <;> exact clear_of_asciiLower hword (by decide)
  · split at h
    · rename_i hword
      rw [beq_iff_eq] at hword
      exact clear_of_asciiLower hword (by decide)
    · obtain ⟨⟨w, f, rest⟩, hm, h⟩ := Option.bind_eq_some_iff.1 h
      obtain ⟨e, he, _⟩ := Option.bind_eq_some_iff.1 h
      exact clear_of_readMantissa? hm (clear_of_readExponent? he)

end Number
end Rehearsal
