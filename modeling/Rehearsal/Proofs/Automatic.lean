import Rehearsal.Proofs.Numeral
import Rehearsal.Proofs.Surroundings

/-! Captures whose type is left to them. Between its margins such a text is an integer, a decimal, or
neither; then it is kept, without its quotes if it has them. Nothing is refused but an integer with more
digits than may be read. The coercer for numbers does not look between the margins: it finds the same
number only where there are none, or around a decimal none but spacing. -/

namespace Rehearsal
set_option autoImplicit false
open Rehearsal.Text Rehearsal.Number

namespace Coercer
variable {s : String} {digits : List Char} {negative : Bool}

/-- Between its margins the text is no number. -/
def NoNumber (s : String) : Prop :=
  (∀ negative digits, ¬ IntegerForm (trim s.toList) negative digits) ∧
    ∀ negative whole fraction power, ¬ DecimalForm (trim s.toList) negative whole fraction power

/-- The text stands in a pair of quotes. -/
def Quoted (s : String) (inner : List Char) : Prop :=
  ∃ q, (q = '"' ∨ q = '\'') ∧ s.toList = q :: (inner ++ [q])

/-- What a text becomes when its type is left to it. -/
inductive Turns (s : String) : Value → Prop
  | integer {negative : Bool} {digits : List Char} : IntegerForm (trim s.toList) negative digits →
      Turns s (.int (applySign negative (spelled digits)))
  | decimal {negative : Bool} {whole fraction : List Char} {power : Int} :
      DecimalForm (trim s.toList) negative whole fraction power →
      Turns s (.float (withSign negative
        (scientific (spelled (whole ++ fraction)) (power - (fraction.length : Int)))))
  | unquoted {inner : List Char} : NoNumber s → Quoted s inner → Turns s (.text (String.ofList inner))
  | kept : NoNumber s → (∀ inner, ¬ Quoted s inner) → Turns s (.text s)

/-- Between its margins the text is an integer of so many digits, more than may be read. -/
def TooLong (s : String) (n : Nat) : Prop :=
  ∃ negative digits, IntegerForm (trim s.toList) negative digits ∧ digits.length = n ∧ digitLimit < n

theorem toList_strip (s : String) : (strip s).toList = trim s.toList := by
  rw [strip, String.toList_ofList]

theorem trimSpacing_strip (s : String) : trimSpacing (strip s).toList = trim s.toList := by
  rw [toList_strip, trimSpacing_trim]

theorem integer_strip (h : IntegerForm (trim s.toList) negative digits) :
    integer (strip s) = if digitLimit < digits.length then .error (.number (.tooLong digits.length))
      else .ok (.int (applySign negative (spelled digits))) := by
  rw [← trimSpacing_strip] at h
  rw [integer, readInt_of_form h]
  by_cases hlong : digitLimit < digits.length
  · rw [if_pos hlong, if_pos hlong]
  · rw [if_neg hlong, if_neg hlong]

theorem automatic_of_integer (h : IntegerForm (trim s.toList) negative digits) :
    automatic s = integer (strip s) := by
  rw [automatic, toList_strip, if_pos (isIntegerText_iff.2 ⟨negative, digits, h⟩)]

theorem automatic_of_decimal {whole fraction : List Char} {power : Int}
    (h : DecimalForm (trim s.toList) negative whole fraction power) :
    automatic s = .ok (.float (withSign negative
      (scientific (spelled (whole ++ fraction)) (power - (fraction.length : Int))))) := by
  have hint : isIntegerText (trim s.toList) = false := by
    rw [Bool.eq_false_iff, Ne, isIntegerText_iff]
    rintro ⟨_, _, hi⟩
    exact h.not_integer hi
  have hdec : isDecimalText (trim s.toList) = true := isDecimalText_iff.2 ⟨_, _, _, _, h⟩
  rw [automatic, toList_strip, hint, hdec, if_neg Bool.false_ne_true, if_pos rfl, decimal, readFloat,
    trimSpacing_strip, readFloat?_of_form h]

theorem automatic_of_noNumber (h : NoNumber s) : automatic s = .ok (.text (unquote s)) := by
  have hint : isIntegerText (trim s.toList) = false := by
    rw [Bool.eq_false_iff, Ne, isIntegerText_iff]
    rintro ⟨_, _, hi⟩
    exact h.1 _ _ hi
  have hdec : isDecimalText (trim s.toList) = false := by
    rw [Bool.eq_false_iff, Ne, isDecimalText_iff]
    rintro ⟨_, _, _, _, hd⟩
    exact h.2 _ _ _ _ hd
  rw [automatic, toList_strip, hint, hdec, if_neg Bool.false_ne_true, if_neg Bool.false_ne_true]

theorem unquote_of_quoted {inner : List Char} (h : Quoted s inner) : unquote s = String.ofList inner := by
  obtain ⟨q, hq, hs⟩ := h
  rw [unquote, hs]
  simp [hq]

theorem unquote_of_not_quoted (h : ∀ inner, ¬ Quoted s inner) : unquote s = s := by
  unfold unquote
  split
  · rfl
  · rename_i q cs hs
    apply if_neg
    simp only [Bool.and_eq_true, Bool.or_eq_true, beq_iff_eq]
    rintro ⟨hq, hlast⟩
    obtain ⟨inner, rfl⟩ := List.getLast?_eq_some_iff.1 hlast
    exact h inner ⟨q, hq, hs⟩

theorem turns_text (h : NoNumber s) : Turns s (.text (unquote s)) := by
  by_cases hquoted : ∃ inner, Quoted s inner
  · obtain ⟨inner, hinner⟩ := hquoted
    rw [unquote_of_quoted hinner]
    exact .unquoted h hinner
  · have hnone := not_exists.1 hquoted
    rw [unquote_of_not_quoted hnone]
    exact .kept h hnone

theorem form_cases (s : String) :
    (∃ negative digits, IntegerForm (trim s.toList) negative digits) ∨
      (∃ negative whole fraction power, DecimalForm (trim s.toList) negative whole fraction power) ∨
        NoNumber s := by
  by_cases hint : ∃ negative digits, IntegerForm (trim s.toList) negative digits
  · exact .inl hint
  · by_cases hdec : ∃ negative whole fraction power, DecimalForm (trim s.toList) negative whole fraction power
    · exact .inr (.inl hdec)
    · refine .inr (.inr ⟨fun negative digits h => hint ⟨negative, digits, h⟩, ?_⟩)
      exact fun negative whole fraction power h => hdec ⟨negative, whole, fraction, power, h⟩

theorem tooLong_iff {n : Nat} (h : IntegerForm (trim s.toList) negative digits) :
    TooLong s n ↔ digits.length = n ∧ digitLimit < n := by
  constructor
  · rintro ⟨negative', digits', h', rfl, hlong⟩
    have hsame := (integer_strip h').symm.trans (integer_strip h)
    rw [if_pos hlong] at hsame
    split at hsame
    · injection hsame with hsame
      injection hsame with hsame
      injection hsame with hsame
      exact ⟨hsame.symm, hlong⟩
    · cases hsame
  · rintro ⟨hn, hlong⟩
    exact ⟨negative, digits, h, hn, hlong⟩

/-- A text of which the type is left to it becomes something, or is too long an integer. -/
theorem automatic_ends (s : String) :
    (∃ v, automatic s = .ok v ∧ Turns s v ∧ ∀ n, ¬ TooLong s n) ∨
      ∃ n, TooLong s n ∧ automatic s = .error (.number (.tooLong n)) := by
  rcases form_cases s with ⟨negative, digits, h⟩ | ⟨negative, whole, fraction, power, h⟩ | h
  · have hauto := (automatic_of_integer h).trans (integer_strip h)
    by_cases hlong : digitLimit < digits.length
    · rw [if_pos hlong] at hauto
      exact .inr ⟨digits.length, (tooLong_iff h).2 ⟨rfl, hlong⟩, hauto⟩
    · rw [if_neg hlong] at hauto
      refine .inl ⟨_, hauto, .integer h, ?_⟩
      intro n hn
      obtain ⟨rfl, hlong'⟩ := (tooLong_iff h).1 hn
      exact hlong hlong'
  · refine .inl ⟨_, automatic_of_decimal h, .decimal h, ?_⟩
    rintro n ⟨negative', digits', h', _⟩
    exact h.not_integer h'
  · refine .inl ⟨_, automatic_of_noNumber h, turns_text h, ?_⟩
    rintro n ⟨negative', digits', h', _⟩
    exact h.1 _ _ h'

theorem turns_of_automatic {v : Value} (h : automatic s = .ok v) :
    Turns s v ∧ ∀ n, ¬ TooLong s n := by
  rcases automatic_ends s with ⟨v', hv', hturns, hshort⟩ | ⟨_, _, hf⟩
  · cases h.symm.trans hv'
    exact ⟨hturns, hshort⟩
  · cases h.symm.trans hf

theorem decimal_eq_ok_iff {x : Float} :
    decimal s = .ok (.float x) ↔ readFloat? (trimSpacing s.toList) = some x := by
  rw [decimal, readFloat]
  cases readFloat? (trimSpacing s.toList) <;> simp

theorem decimal_ends (s : String) :
    (∃ x, decimal s = .ok (.float x)) ∨ decimal s = .error (.number (.notFloat s)) := by
  rw [decimal, readFloat]
  cases readFloat? (trimSpacing s.toList) with
  | none => exact .inr rfl
  | some x => exact .inl ⟨x, rfl⟩

/-- A float is read only where no white space but spacing is around it. -/
theorem decimal_of_margin (h : trimSpacing s.toList ≠ trim s.toList) :
    decimal s = .error (.number (.notFloat s)) := by
  rcases decimal_ends s with ⟨x, hx⟩ | hf
  · have hclear := clear_of_readFloat? (decimal_eq_ok_iff.1 hx)
    have htrim := trim_of_clear hclear
    rw [trim_trimSpacing] at htrim
    exact absurd htrim.symm h
  · exact hf

theorem number_of_margin (h : trim s.toList ≠ s.toList) : number s = decimal s := by
  apply if_neg
  rw [isIntegerText_iff]
  rintro ⟨negative, digits, hform⟩
  exact h (trim_of_clear hform.clear)

theorem number_of_decimal {whole fraction : List Char} {power : Int}
    (h : DecimalForm (trim s.toList) negative whole fraction power) : number s = decimal s := by
  apply if_neg
  rw [isIntegerText_iff]
  rintro ⟨negative', digits, hform⟩
  rw [← trim_of_clear hform.clear] at hform
  exact h.not_integer hform

theorem number_of_integer (h : IntegerForm (trim s.toList) negative digits)
    (hs : trim s.toList = s.toList) : number s = automatic s := by
  have hstrip : strip s = s := by rw [strip, hs, String.ofList_toList]
  rw [automatic_of_integer h, hstrip]
  apply if_pos
  rw [← hs]
  exact isIntegerText_iff.2 ⟨negative, digits, h⟩

/-- What stands around a number does not keep the coercer for numbers from it: nothing at all around an
integer, and nothing but spacing around a decimal. -/
inductive Fits (s : String) : Value → Prop
  | int {n : Int} : trim s.toList = s.toList → Fits s (.int n)
  | float {x : Float} : trimSpacing s.toList = trim s.toList → Fits s (.float x)

theorem fits_int_iff {n : Int} : Fits s (.int n) ↔ trim s.toList = s.toList := by
  constructor
  · rintro ⟨h⟩
    exact h
  · exact Fits.int

theorem fits_float_iff {x : Float} : Fits s (.float x) ↔ trimSpacing s.toList = trim s.toList := by
  constructor
  · rintro ⟨⟩
    assumption
  · exact Fits.float

theorem number_eq_int_iff {n : Int} (h : automatic s = .ok (.int n)) :
    number s = .ok (.int n) ↔ Fits s (.int n) := by
  constructor
  · intro hn
    apply Fits.int
    by_contra hmargin
    rw [number_of_margin hmargin] at hn
    rcases decimal_ends s with ⟨x, hx⟩ | hf
    · cases hn.symm.trans hx
    · cases hn.symm.trans hf
  · intro hfits
    rw [fits_int_iff] at hfits
    cases (turns_of_automatic h).1 with
    | integer hform => rw [number_of_integer hform hfits, h]

theorem number_eq_float_iff {x : Float} (h : automatic s = .ok (.float x)) :
    number s = .ok (.float x) ↔ Fits s (.float x) := by
  cases (turns_of_automatic h).1 with
  | decimal hform =>
    rw [number_of_decimal hform, fits_float_iff]
    constructor
    · intro hx
      by_contra hmargin
      cases hx.symm.trans (decimal_of_margin hmargin)
    · intro hspacing
      rw [decimal_eq_ok_iff, hspacing, readFloat?_of_form hform]

/-- Where a text is taken for a number, the coercer for numbers agrees just if the margins fit. If they do
not, it makes a float of an integer that has spacing around it, and refuses what has other white space
around it. -/
theorem number_agrees_iff {v : Value} (h : automatic s = .ok v)
    (hv : (∃ n, v = .int n) ∨ ∃ x, v = .float x) :
    (number s = .ok v ↔ Fits s v) ∧
    (∀ n, v = .int n → trim s.toList ≠ s.toList → trimSpacing s.toList = trim s.toList →
      ∃ x, number s = .ok (.float x)) ∧
    (trimSpacing s.toList ≠ trim s.toList → number s = .error (.number (.notFloat s))) := by
  refine ⟨?_, ?_, ?_⟩
  · rcases hv with ⟨n, rfl⟩ | ⟨x, rfl⟩
    · exact number_eq_int_iff h
    · exact number_eq_float_iff h
  · rintro n rfl hmargin hspacing
    cases (turns_of_automatic h).1 with
    | integer hform =>
      rw [number_of_margin hmargin]
      exact ⟨_, decimal_eq_ok_iff.2 (hspacing ▸ readFloat?_of_integerForm hform)⟩
  · intro hother
    have hmargin : trim s.toList ≠ s.toList := by
      intro hs
      have hself := trimSpacing_trim s.toList
      rw [hs] at hself
      exact hother (hself.trans hs.symm)
    rw [number_of_margin hmargin, decimal_of_margin hother]

/-- Where nothing is around it an integer is found by both. With a space before it it becomes a float, and
behind an information separator it is no number. -/
theorem number_agrees_iff_sample :
    (automatic "3" = .ok (.int 3) ∧ number "3" = .ok (.int 3)) ∧
    (automatic " 3" = .ok (.int 3) ∧ number " 3" ≠ .ok (.int 3) ∧ ∃ x, number " 3" = .ok (.float x)) ∧
    automatic "\x1c3" = .ok (.int 3) ∧
      number "\x1c3" = .error (.number (.notFloat "\x1c3")) := by
  have hbare : automatic "3" = .ok (.int 3) := by rfl
  have hspaced : automatic " 3" = .ok (.int 3) := by rfl
  have hapart : automatic "\x1c3" = .ok (.int 3) := by rfl
  have hmargin : trim " 3".toList ≠ " 3".toList := by decide
  obtain ⟨hfits, _, _⟩ := number_agrees_iff hbare (.inl ⟨3, rfl⟩)
  obtain ⟨hnot, hfloat, _⟩ := number_agrees_iff hspaced (.inl ⟨3, rfl⟩)
  obtain ⟨_, _, hrefused⟩ := number_agrees_iff hapart (.inl ⟨3, rfl⟩)
  refine ⟨⟨hbare, hfits.2 (.int (by decide))⟩, ⟨hspaced, ?_, ?_⟩, hapart, hrefused (by decide)⟩
  · intro hn
    exact hmargin (fits_int_iff.1 (hnot.1 hn))
  · exact hfloat 3 rfl hmargin (by decide)

end Coercer

namespace CoercionTable
open Coercer
variable {d : StepDefinition} {values : List (Option String)}

/-- What a capture becomes when no type is declared: nothing if its group took no part. -/
inductive Turned : Option String → Value → Prop
  | absent : Turned .none .null
  | present {s : String} {v : Value} : Turns s v → Turned (some s) v

theorem coerceFrom_of_typeName {table : CoercionTable} {source name : String}
    {types : List (Option String)} {auto : Bool} (h : ∀ i, typeName types i auto = name) (index : Nat) :
    table.coerceFrom source types auto index values = values.mapM (table.coerceOne source name) := by
  induction values generalizing index with
  | nil => rfl
  | cons v vs ih => rw [List.mapM_cons, coerceFrom, h, ih]

theorem coerce_undeclared (h : ∀ type ∈ d.types, type = Option.none) :
    standard.coerce d values true = values.mapM (standard.coerceOne d.source "auto") := by
  apply coerceFrom_of_typeName
  intro i
  unfold typeName
  cases ht : d.types[i]? with
  | none => rfl
  | some type =>
    rw [h type (List.mem_of_getElem? ht)]
    rfl

theorem coerceOne_ends (source : String) (v : Option String) :
    (∃ a, standard.coerceOne source "auto" v = .ok a ∧ Turned v a ∧
        ∀ s, v = some s → ∀ n, ¬ TooLong s n) ∨
      ∃ s n, v = some s ∧ TooLong s n ∧ standard.coerceOne source "auto" v =
        .error (.coercion source s "auto" (.number (.tooLong n))) := by
  cases v with
  | none => exact .inl ⟨.null, rfl, .absent, nofun⟩
  | some s =>
    have hauto : standard "auto" = some automatic := rfl
    rw [coerceOne, hauto]
    dsimp only
    rcases automatic_ends s with ⟨v, hv, hturns, hshort⟩ | ⟨n, hlong, hf⟩
    · refine .inl ⟨v, by rw [hv], .present hturns, ?_⟩
      rintro _ ⟨⟩
      exact hshort
    · refine .inr ⟨s, n, rfl, hlong, ?_⟩
      rw [hf]
      rfl

/-- Where no type is declared, coercing fails just if a capture is too long an integer, and then it fails
on the first one; otherwise each capture becomes what it is taken for. -/
theorem coerces_iff_within_limit (h : ∀ type ∈ d.types, type = Option.none)
    (values : List (Option String)) :
    ((∃ args, standard.coerce d values true = .ok args) ↔
      ∀ s, some s ∈ values → ∀ n, ¬ TooLong s n) ∧
    (∀ args, standard.coerce d values true = .ok args → List.Forall₂ Turned values args) ∧
    ∀ f, standard.coerce d values true = .error f →
      ∃ before s after n, values = before ++ some s :: after ∧
        (∀ s', some s' ∈ before → ∀ n, ¬ TooLong s' n) ∧ TooLong s n ∧
          f = .coercion d.source s "auto" (.number (.tooLong n)) := by
  have hok : ∀ v a, standard.coerceOne d.source "auto" v = .ok a →
      Turned v a ∧ ∀ s, v = some s → ∀ n, ¬ TooLong s n := by
    intro v a ha
    rcases coerceOne_ends d.source v with ⟨a', ha', hturned, hshort⟩ | ⟨_, _, _, _, hf⟩
    · cases ha.symm.trans ha'
      exact ⟨hturned, hshort⟩
    · cases ha.symm.trans hf
  rw [coerce_undeclared h]
  refine ⟨?_, ?_, ?_⟩
  · rw [exists_mapM_iff]
    constructor
    · intro hall s hs
      obtain ⟨a, ha⟩ := hall _ hs
      exact (hok _ a ha).2 s rfl
    · intro hshort v hv
      rcases coerceOne_ends d.source v with ⟨a, ha, _⟩ | ⟨s, n, rfl, hlong, _⟩
      · exact ⟨a, ha⟩
      · exact absurd hlong (hshort s hv n)
  · intro args hargs
    exact (mapM_eq_ok_iff.1 hargs).imp fun v a ha => (hok v a ha).1
  · intro f hf
    obtain ⟨before, v, after, rfl, hbefore, hv⟩ := mapM_eq_error_iff.1 hf
    rcases coerceOne_ends d.source v with ⟨_, ha, _⟩ | ⟨s, n, rfl, hlong, hfault⟩
    · cases hv.symm.trans ha
    · refine ⟨before, s, after, n, rfl, ?_, hlong, Except.error.inj (hv.symm.trans hfault)⟩
      intro s' hs'
      obtain ⟨a, ha⟩ := hbefore _ hs'
      exact (hok _ a ha).2 s' rfl

/-- An integer of as many digits as may be read is read, and one with a digit more is what coercing fails
on. -/
theorem coerces_iff_within_limit_sample :
    let d := Sample.definition 1 "book"
    let ones (n : Nat) := String.ofList (List.replicate n '1')
    (∀ type ∈ d.types, type = Option.none) ∧
    (∃ args, standard.coerce d [some (ones 4300), .none, some "'4'"] true = .ok args) ∧
      ¬ ∃ args, standard.coerce d [some "soon", some (ones 4301)] true = .ok args := by
  intro d ones
  have htypes : ∀ type ∈ d.types, type = Option.none := nofun
  have hform : ∀ n, IntegerForm (trim (ones (n + 1)).toList) false (List.replicate (n + 1) '1') := by
    intro n
    have hdigits : ∀ c ∈ List.replicate (n + 1) '1', isDigit c = true := by
      intro c hc
      rw [List.eq_of_mem_replicate hc]
      decide
    rw [String.toList_ofList, trim_of_clear (clear_digits hdigits)]
    exact .mk .absent (by simp) hdigits
  obtain ⟨hread, _, _⟩ := coerces_iff_within_limit htypes [some (ones 4300), .none, some "'4'"]
  obtain ⟨hrefused, _, _⟩ := coerces_iff_within_limit htypes [some "soon", some (ones 4301)]
  refine ⟨htypes, hread.2 ?_, ?_⟩
  · have hquoted : automatic "'4'" = .ok (.text "4") := by rfl
    simp only [List.mem_cons, Option.some.injEq, List.not_mem_nil, or_false, reduceCtorEq, false_or]
    rintro s (rfl | rfl) n hn
    · obtain ⟨rfl, hlong⟩ := (tooLong_iff (hform 4299)).1 hn
      rw [List.length_replicate] at hlong
      exact absurd hlong (by decide)
    · exact (turns_of_automatic hquoted).2 n hn
  · intro hargs
    have hlong : TooLong (ones 4301) 4301 := (tooLong_iff (hform 4300)).2 ⟨List.length_replicate, by decide⟩
    exact hrefused.1 hargs (ones 4301) (by simp) 4301 hlong

end CoercionTable
end Rehearsal
