import Rehearsal.Proofs.Surroundings

/-! What the captures of a text become. A capture is coerced by the coercer its place names, and by
nothing else; where coercers report their failures, the first place that is refused is the failure of
the whole. -/

namespace Rehearsal
set_option autoImplicit false

namespace CoercionTable

/-- The type that a place goes by: the one that is declared for it, and where none is, `auto` or
`str`. -/
inductive Typed (types : List (Option String)) (auto : Bool) (i : Nat) : String → Prop
  | declared {name : String} : types[i]? = some (some name) → Typed types auto i name
  | past : types.length ≤ i → Typed types auto i (if auto then "auto" else "str")
  | left : types[i]? = some .none → Typed types auto i (if auto then "auto" else "str")

theorem typed_iff {types : List (Option String)} {auto : Bool} {i : Nat} {name : String} :
    Typed types auto i name ↔ name = typeName types i auto := by
  constructor
  · intro h
    cases h with
    | declared h => simp [typeName, h]
    | past h => simp [typeName, List.getElem?_eq_none h]
    | left h => simp [typeName, h]
  · intro h
    subst h
    cases ht : types[i]? with
    | none =>
      have hname : typeName types i auto = if auto then "auto" else "str" := by simp [typeName, ht]
      rw [hname]
      exact .past (List.getElem?_eq_none_iff.1 ht)
    | some type =>
      cases type with
      | none =>
        have hname : typeName types i auto = if auto then "auto" else "str" := by simp [typeName, ht]
        rw [hname]
        exact .left ht
      | some name =>
        have hname : typeName types i auto = name := by simp [typeName, ht]
        rw [hname]
        exact .declared ht

variable (table : CoercionTable) (d : StepDefinition) (auto : Bool) (values : List (Option String))

/-- What a place becomes: nothing where its group took no part, else what the coercer that the place
names makes of the capture alone. -/
inductive Becomes (i : Nat) : Value → Prop
  | absent : values[i]? = some .none → Becomes i .null
  | coerced {text name : String} {coercer : Coercer} {a : Value} : values[i]? = some (some text) →
      Typed d.types auto i name → table name = some coercer → coercer text = .ok a → Becomes i a

/-- A place is refused, with its capture and the type it goes by: no coercer has that name, or the
coercer raises a type or a value error, be it of a class that extends theirs. -/
inductive Refuses (i : Nat) : Fault → Prop
  | unknown {text name : String} : values[i]? = some (some text) → Typed d.types auto i name →
      table name = .none → Refuses i (.unknownCoercer d.source text name)
  | raised {text name : String} {coercer : Coercer} {f : Fault} : values[i]? = some (some text) →
      Typed d.types auto i name → table name = some coercer → coercer text = .error f →
      f.isA .typeError = true ∨ f.isA .valueError = true → Refuses i (.coercion d.source text name f)

variable {table d auto values}

theorem Refuses.kind_eq {i : Nat} {f : Fault} (h : table.Refuses d auto values i f) :
    f.kind = "ArgumentCoercionError" := by
  cases h with
  | unknown => rfl
  | raised => rfl

theorem Refuses.not_becomes {i : Nat} {f : Fault} {a : Value} (h : table.Refuses d auto values i f) :
    ¬ table.Becomes d auto values i a := by
  intro hb
  have htype : ∀ {name name' : String}, Typed d.types auto i name → Typed d.types auto i name' →
      name = name' := by
    intro name name' h₁ h₂
    rw [typed_iff.1 h₁, typed_iff.1 h₂]
  cases hb with
  | absent hv =>
    cases h with
    | unknown hv' => simp [hv] at hv'
    | raised hv' => simp [hv] at hv'
  | coerced hv ht hc ha =>
    cases h with
    | unknown hv' ht' hc' =>
      rw [htype ht' ht, hc] at hc'
      cases hc'
    | raised hv' ht' hc' ha' =>
      rw [htype ht' ht, hc] at hc'
      cases hc'
      rw [hv] at hv'
      cases hv'
      rw [ha] at ha'
      cases ha'

theorem coerceOne_eq_ok_iff {i : Nat} {v : Option String} {a : Value} (hv : values[i]? = some v) :
    table.coerceOne d.source (typeName d.types i auto) v = .ok a ↔
      table.Becomes d auto values i a := by
  constructor
  · intro h
    cases v with
    | none =>
      cases h
      exact .absent hv
    | some text =>
      rw [coerceOne] at h
      split at h
      · cases h
      · rename_i coercer hc
        split at h
        · rename_i a' ha
          cases h
          exact .coerced hv (typed_iff.2 rfl) hc ha
        · split at h <;> cases h
  · intro h
    cases h with
    | absent hv' =>
      cases hv.symm.trans hv'
      rfl
    | coerced hv' ht hc ha =>
      cases hv.symm.trans hv'
      rw [← typed_iff.1 ht, coerceOne]
      simp [hc, ha]

theorem refuses_of_coerceOne (hr : table.Reports) {i : Nat} {v : Option String} {f : Fault}
    (hv : values[i]? = some v)
    (h : table.coerceOne d.source (typeName d.types i auto) v = .error f) :
    table.Refuses d auto values i f := by
  cases v with
  | none => cases h
  | some text =>
    rw [coerceOne] at h
    split at h
    · rename_i hc
      cases h
      exact .unknown hv (typed_iff.2 rfl) hc
    · rename_i coercer hc
      split at h
      · cases h
      · rename_i g hg
        have hreported : isReported g = true := hr _ coercer hc text g hg
        rw [if_pos hreported] at h
        cases h
        refine .raised hv (typed_iff.2 rfl) hc hg ?_
        simpa [isReported] using hreported

theorem coerce_eq_ok_iff {args : List Value} :
    table.coerce d values auto = .ok args ↔
      args.length = values.length ∧
        ∀ i a, args[i]? = some a → table.Becomes d auto values i a := by
  rw [coerce, coerceFrom_eq_ok_iff, List.forall₂_iff_get]
  simp only [List.length_zipIdx]
  constructor
  · rintro ⟨hlen, hall⟩
    refine ⟨hlen.symm, ?_⟩
    intro i a ha
    obtain ⟨hi, rfl⟩ := List.getElem?_eq_some_iff.1 ha
    have hone := hall i (by omega) hi
    simp only [List.get_eq_getElem, List.getElem_zipIdx, Nat.zero_add] at hone
    exact (coerceOne_eq_ok_iff (List.getElem?_eq_getElem _)).1 hone
  · rintro ⟨hlen, hall⟩
    refine ⟨hlen.symm, ?_⟩
    intro i hv ha
    simp only [List.get_eq_getElem, List.getElem_zipIdx, Nat.zero_add]
    exact (coerceOne_eq_ok_iff (List.getElem?_eq_getElem _)).2
      (hall i _ (List.getElem?_eq_getElem ha))

/-- Coercing fails at a place that is refused, and those before it become something. -/
theorem refuses_of_coerce (hr : table.Reports) {f : Fault}
    (h : table.coerce d values auto = .error f) :
    ∃ i, table.Refuses d auto values i f ∧ ∀ j < i, ∃ a, table.Becomes d auto values j a := by
  rw [coerce, coerceFrom_eq_mapM] at h
  obtain ⟨u, ⟨v, i⟩, rest, hsplit, hu, hv⟩ := mapM_eq_error_iff.1 h
  -- What was coerced before the failure are the captures at the places below it.
  have hzip : ∀ j : Nat, (u ++ (v, i) :: rest)[j]? = values[j]?.map (fun v => (v, j)) := by
    intro j
    rw [← hsplit, List.getElem?_zipIdx, Nat.zero_add]
  have hplace := hzip u.length
  rw [List.getElem?_append_right (Nat.le_refl _), Nat.sub_self, List.getElem?_cons_zero] at hplace
  obtain ⟨v', hv', heq⟩ := Option.map_eq_some_iff.1 hplace.symm
  cases heq
  refine ⟨u.length, refuses_of_coerceOne hr hv' hv, ?_⟩
  intro j hj
  have hbefore := hzip j
  rw [List.getElem?_append_left hj, List.getElem?_eq_getElem hj] at hbefore
  obtain ⟨w, hw, heq⟩ := Option.map_eq_some_iff.1 hbefore.symm
  obtain ⟨a, ha⟩ := hu u[j] (List.getElem_mem hj)
  rw [← heq] at ha
  exact ⟨a, (coerceOne_eq_ok_iff hw).1 ha⟩

/-- Arguments that stand at the places of their captures. -/
structure Positional (table : CoercionTable) (d : StepDefinition) (auto : Bool)
    (values : List (Option String)) (args : List Value) : Prop where
  length_eq : args.length = values.length
  becomes : ∀ i a, args[i]? = some a → table.Becomes d auto values i a
  null_iff : ∀ i a, args[i]? = some a → (a = .null ↔ values[i]? = some .none ∨
    ∃ text name coercer, values[i]? = some (some text) ∧ Typed d.types auto i name ∧
      table name = some coercer ∧ coercer text = .ok .null)

theorem positional_of_coerce {args : List Value} (h : table.coerce d values auto = .ok args) :
    table.Positional d auto values args := by
  obtain ⟨hlen, hall⟩ := coerce_eq_ok_iff.1 h
  refine ⟨hlen, hall, ?_⟩
  intro i a ha
  constructor
  · intro hnull
    subst hnull
    cases hall i _ ha with
    | absent hv => exact .inl hv
    | coerced hv ht hc hn => exact .inr ⟨_, _, _, hv, ht, hc, hn⟩
  · intro hnull
    cases hall i a ha with
    | absent => rfl
    | coerced hv ht hc hn =>
      obtain hv' | ⟨text, name, coercer, hv', ht', hc', hn'⟩ := hnull
      · simp [hv] at hv'
      · cases hv.symm.trans hv'
        rw [typed_iff.1 ht, ← typed_iff.1 ht', hc'] at hc
        cases hc
        rw [hn'] at hn
        cases hn
        rfl

/-- Coercion goes by places. With coercers that raise type and value errors only, the arguments are as
many as the captures and each of them comes from the capture at its place, and then no place is
refused; or the first place that is refused is what coercing fails on. -/
theorem coerce_positional (h : table.Reports) (d : StepDefinition) (values : List (Option String))
    (auto : Bool) :
    (∃ args, table.coerce d values auto = .ok args ∧ table.Positional d auto values args ∧
      ∀ i f, ¬ table.Refuses d auto values i f) ∨
    ∃ i f, table.coerce d values auto = .error f ∧ f.kind = "ArgumentCoercionError" ∧
      table.Refuses d auto values i f ∧ ∀ j < i, ∀ g, ¬ table.Refuses d auto values j g := by
  cases hc : table.coerce d values auto with
  | ok args =>
    have hpos := positional_of_coerce hc
    refine .inl ⟨args, rfl, hpos, ?_⟩
    intro i f hf
    have hi : i < args.length := by
      rw [hpos.length_eq]
      cases hf with
      | unknown hv => exact (List.getElem?_eq_some_iff.1 hv).1
      | raised hv => exact (List.getElem?_eq_some_iff.1 hv).1
    exact hf.not_becomes (hpos.becomes i _ (List.getElem?_eq_getElem hi))
  | error f =>
    obtain ⟨i, hf, hbefore⟩ := refuses_of_coerce h hc
    refine .inr ⟨i, f, rfl, hf.kind_eq, hf, ?_⟩
    intro j hj g hg
    obtain ⟨a, ha⟩ := hbefore j hj
    exact hg.not_becomes ha

/-- The first of three captures took no part and the last has no declared type. Where the second is no
number, the failure is about it. -/
theorem coerce_positional_sample :
    let d := { Sample.definition 1 "book" with types := [some "int", some "int"] }
    (standard.Reports ∧ ∃ args, standard.coerce d [.none, some "3", some "4"] false = .ok args ∧
      standard.Positional d false [.none, some "3", some "4"] args ∧
      args = [.null, .int 3, .text "4"]) ∧
    ∃ i cause, standard.coerce d [.none, some "soon", some "4"] false =
        .error (.coercion ".*" "soon" "int" cause) ∧
      standard.Refuses d false [.none, some "soon", some "4"] i
        (.coercion ".*" "soon" "int" cause) := by
  intro d
  have hr : standard.Reports := reports_standard
  refine ⟨⟨hr, ?_⟩, ?_⟩
  · have hcoerced : standard.coerce d [.none, some "3", some "4"] false =
        .ok [.null, .int 3, .text "4"] := by rfl
    obtain ⟨args, hargs, hpos, _⟩ | ⟨_, _, hf, _⟩ :=
      coerce_positional hr d [.none, some "3", some "4"] false
    · exact ⟨args, hargs, hpos, Except.ok.inj (hargs.symm.trans hcoerced)⟩
    · cases hcoerced.symm.trans hf
  · have hrefused : ∃ cause, standard.coerce d [.none, some "soon", some "4"] false =
        .error (.coercion ".*" "soon" "int" cause) := ⟨_, by rfl⟩
    obtain ⟨cause, hcause⟩ := hrefused
    obtain ⟨_, hargs, _⟩ | ⟨i, f, hf, _, hrefuses, _⟩ :=
      coerce_positional hr d [.none, some "soon", some "4"] false
    · cases hargs.symm.trans hcause
    · cases hf.symm.trans hcause
      exact ⟨i, cause, hcause, hrefuses⟩

end CoercionTable
end Rehearsal
