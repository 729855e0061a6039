import Rehearsal.Proofs.Except
import Rehearsal.Run.Scenario

/-! Which definition a text finds. A candidate is known by its place among the definitions, and the
choice keeps the place; where choosing fails on coercers of good conduct, the step is to blame. -/

namespace Rehearsal
set_option autoImplicit false

/-- Coercers of a table raise type and value errors only, be they of classes that extend these. -/
def CoercionTable.Reports (table : CoercionTable) : Prop :=
  ∀ name coercer, table name = some coercer → ∀ text f, coercer text = .error f →
    CoercionTable.isReported f = true

namespace CoercionTable

theorem reports_standard : standard.Reports := by
  have hinteger : ∀ {s : String} {f : Fault}, Coercer.integer s = .error f → isReported f = true := by
    intro s f h
    unfold Coercer.integer at h
    split at h <;> cases h
    rfl
  have hdecimal : ∀ {s : String} {f : Fault}, Coercer.decimal s = .error f → isReported f = true := by
    intro s f h
    unfold Coercer.decimal at h
    split at h <;> cases h
    rfl
  intro name coercer hc text f h
  unfold standard at hc
  split at hc
  · rw [← Option.some.inj hc] at h
    cases h
  · rw [← Option.some.inj hc] at h
    exact hinteger h
  · rw [← Option.some.inj hc] at h
    exact hdecimal h
  · rw [← Option.some.inj hc, Coercer.number] at h
    split at h
    · exact hinteger h
    · exact hdecimal h
  · rw [← Option.some.inj hc] at h
    cases h
  · rw [← Option.some.inj hc, Coercer.automatic] at h
    split at h
    · exact hinteger h
    · split at h
      · exact hdecimal h
      · cases h
  · cases hc

theorem isMatchFailure_or_raised_of_coerceOne {table : CoercionTable} {source type : String}
    {value : Option String} {f : Fault} (h : table.coerceOne source type value = .error f) :
    Executor.isMatchFailure f = true ∨ ∃ capture coercer, value = some capture ∧
      table type = some coercer ∧ coercer capture = .error f ∧ isReported f = false := by
  cases value with
  | none => simp [coerceOne] at h
  | some capture =>
    rw [coerceOne] at h
    cases hc : table type with
    | none =>
      simp only [hc, Except.error.injEq] at h
      subst h
      exact .inl rfl
    | some coercer =>
      cases hv : coercer capture with
      | ok v => simp [hc, hv] at h
      | error g =>
        cases hg : isReported g with
        | true =>
          simp only [hc, hv, hg, if_true, Except.error.injEq] at h
          subst h
          exact .inl rfl
        | false =>
          simp only [hc, hv, hg, Bool.false_eq_true, if_false, Except.error.injEq] at h
          subst h
          exact .inr ⟨capture, coercer, rfl, rfl, hv, hg⟩

/-- A text that cannot be encoded is a value error: the coercer that raises it does not spill it. -/
example : coerceOne (fun _ => some fun text => .error (.encoding text)) "I am (.*)" "name" (some "x") =
    .error (.coercion "I am (.*)" "x" "name" (.encoding "x")) := rfl

/-- Captures are coerced one after the other, each by the type at its place. -/
theorem coerceFrom_eq_mapM (table : CoercionTable) (source : String) (types : List (Option String))
    (auto : Bool) (index : Nat) (values : List (Option String)) :
    table.coerceFrom source types auto index values =
      (values.zipIdx index).mapM fun p => table.coerceOne source (typeName types p.2 auto) p.1 := by
  induction values generalizing index with
  | nil => rfl
  | cons v vs ih =>
    rw [List.zipIdx_cons, List.mapM_cons, coerceFrom, ih]

/-- What coercing captures fails on is one of them. -/
theorem exists_of_coerceFrom_eq_error {table : CoercionTable} {source : String}
    {types : List (Option String)} {auto : Bool} {index : Nat} {values : List (Option String)}
    {f : Fault} (h : table.coerceFrom source types auto index values = .error f) :
    ∃ p ∈ values.zipIdx index, table.coerceOne source (typeName types p.2 auto) p.1 = .error f := by
  rw [coerceFrom_eq_mapM] at h
  exact exists_of_mapM_eq_error h

theorem coerceFrom_eq_ok_iff {table : CoercionTable} {source : String} {types : List (Option String)}
    {auto : Bool} {index : Nat} {values : List (Option String)} {args : List Value} :
    table.coerceFrom source types auto index values = .ok args ↔
      List.Forall₂ (fun p a => table.coerceOne source (typeName types p.2 auto) p.1 = .ok a)
        (values.zipIdx index) args := by
  rw [coerceFrom_eq_mapM]
  exact mapM_eq_ok_iff

end CoercionTable

namespace Matcher
variable {m : Matcher} {text : String} {definitions : List StepDefinition}

theorem getElem?_of_mem_candidatesFrom {start : Nat} {c : Candidate}
    (h : c ∈ candidatesFrom text start definitions) :
    ∃ i, c.order = start + i ∧ definitions[i]? = some c.definition ∧
      c.definition.pattern.fullMatch? text = some c.groups := by
  induction definitions generalizing start with
  | nil => simp [candidatesFrom] at h
  | cons d ds ih =>
    rw [candidatesFrom] at h
    cases hd : d.pattern.fullMatch? text with
    | some groups =>
      simp only [hd, List.mem_cons] at h
      rcases h with rfl | h
      · exact ⟨0, rfl, rfl, hd⟩
      · obtain ⟨i, ho, hi, hg⟩ := ih h
        exact ⟨i + 1, by omega, hi, hg⟩
    | none =>
      simp only [hd] at h
      obtain ⟨i, ho, hi, hg⟩ := ih h
      exact ⟨i + 1, by omega, hi, hg⟩

theorem mem_of_mem_best {c : Candidate} {cs : List Candidate} (h : c ∈ best cs) : c ∈ cs := by
  cases cs with
  | nil => exact h
  | cons c' cs => exact (List.mem_filter.1 h).1

/-- A text that is matched is matched by a candidate, whose captures were coerced. -/
theorem exists_candidate {sm : StepMatch}
    (h : (m.matchText text definitions).result = .ok (some sm)) :
    ∃ c ∈ candidates text definitions, m.choose c = .ok (some sm) := by
  have hmem : ∀ c ∈ best (candidates text definitions), c ∈ candidates text definitions :=
    fun c hc => mem_of_mem_best hc
  rw [matchText] at h
  split at h
  · cases h
  · rename_i c hb
    exact ⟨c, hmem c (by simp [hb]), h⟩
  · rename_i c cs _ hb
    split at h
    · cases h
    · exact ⟨c, hmem c (by simp [hb]), h⟩

theorem choose_eq_ok {c : Candidate} {sm : StepMatch} (h : m.choose c = .ok (some sm)) :
    sm.order = c.order ∧ sm.definition = c.definition := by
  obtain ⟨args, _, h⟩ := except_bind_eq_ok_iff.1 h
  cases h
  exact ⟨rfl, rfl⟩

theorem getElem?_order {sm : StepMatch}
    (h : (m.matchText text definitions).result = .ok (some sm)) :
    definitions[sm.order]? = some sm.definition := by
  obtain ⟨c, hc, hch⟩ := exists_candidate h
  obtain ⟨i, ho, hi, _⟩ := getElem?_of_mem_candidatesFrom hc
  obtain ⟨h₁, h₂⟩ := choose_eq_ok hch
  rw [h₁, h₂, ho, Nat.zero_add, hi]

/-- The arguments of a match are what the groups of its pattern captured, each coerced by its type. -/
theorem captures_of_matchText {sm : StepMatch}
    (h : (m.matchText text definitions).result = .ok (some sm)) :
    ∃ groups, sm.definition.pattern.fullMatch? text = some groups ∧
      List.Forall₂ (fun p a => m.coercions.coerceOne sm.definition.source
        (CoercionTable.typeName sm.definition.types p.2 m.autoCoerce) p.1 = .ok a) groups.zipIdx
        sm.args := by
  obtain ⟨c, hc, hch⟩ := exists_candidate h
  obtain ⟨_, _, _, hgroups⟩ := getElem?_of_mem_candidatesFrom hc
  obtain ⟨args, hargs, hsm⟩ := except_bind_eq_ok_iff.1 hch
  cases hsm
  exact ⟨c.groups, hgroups, CoercionTable.coerceFrom_eq_ok_iff.1 hargs⟩

theorem candidatesFrom_eq_nil_iff {start : Nat} :
    candidatesFrom text start definitions = [] ↔
      ∀ d ∈ definitions, d.pattern.fullMatch? text = none := by
  induction definitions generalizing start with
  | nil => simp [candidatesFrom]
  | cons d ds ih =>
    rw [candidatesFrom]
    cases hd : d.pattern.fullMatch? text with
    | some groups => simp [hd]
    | none => simpa [hd] using ih

theorem exists_topPriority (c : Candidate) (cs : List Candidate) :
    ∃ b ∈ c :: cs, b.definition.priority = topPriority c cs := by
  have hfold : ∀ (cs : List Candidate) (p : Int),
      cs.foldl (fun p c => max p c.definition.priority) p = p ∨
        ∃ b ∈ cs, b.definition.priority =
          cs.foldl (fun p c => max p c.definition.priority) p := by
    intro cs
    induction cs with
    | nil => exact fun p => .inl rfl
    | cons b cs ih =>
      intro p
      rw [List.foldl_cons]
      rcases ih (max p b.definition.priority) with he | ⟨b', hm, hb⟩
      · by_cases hle : p ≤ b.definition.priority
        · refine .inr ⟨b, List.mem_cons_self, ?_⟩
          rw [he]
          omega
        · left
          rw [he]
          omega
      · exact .inr ⟨b', List.mem_cons_of_mem _ hm, hb⟩
  rcases hfold cs c.definition.priority with he | ⟨b, hm, hb⟩
  · exact ⟨c, List.mem_cons_self, he.symm⟩
  · exact ⟨b, List.mem_cons_of_mem _ hm, hb⟩

theorem best_ne_nil (c : Candidate) (cs : List Candidate) : best (c :: cs) ≠ [] := by
  obtain ⟨b, hm, hb⟩ := exists_topPriority c cs
  have hbest : b ∈ best (c :: cs) := List.mem_filter.2 ⟨hm, beq_iff_eq.2 hb⟩
  exact List.ne_nil_of_mem hbest

theorem choose_ne_none {c : Candidate} : m.choose c ≠ .ok none := by
  intro h
  obtain ⟨_, _, h⟩ := except_bind_eq_ok_iff.1 h
  cases h

/-- A text is without a match where no pattern takes the whole of it. -/
theorem matchText_eq_none_iff :
    (m.matchText text definitions).result = .ok none ↔
      ∀ d ∈ definitions, d.pattern.fullMatch? text = none := by
  have hnil : candidates text definitions = [] ↔ _ := candidatesFrom_eq_nil_iff
  rw [← hnil]
  constructor
  · intro h
    rw [matchText] at h
    split at h
    · rename_i hbest
      cases hcs : candidates text definitions with
      | nil => rfl
      | cons c cs =>
        rw [hcs] at hbest
        exact absurd hbest (best_ne_nil c cs)
    · exact absurd h choose_ne_none
    · split at h
      · cases h
      · exact absurd h choose_ne_none
  · intro h
    rw [matchText, h]
    rfl

/-- A coercer raises a fault, neither a type nor a value error by its class, on what a group of a definition
captured. -/
def Raises (m : Matcher) (text : String) (definitions : List StepDefinition) (f : Fault) : Prop :=
  ∃ d ∈ definitions, ∃ (groups : List (Option String)) (i : Nat) (capture : String) (coercer : Coercer),
    d.pattern.fullMatch? text = some groups ∧ groups[i]? = some (some capture) ∧
    m.coercions (CoercionTable.typeName d.types i m.autoCoerce) = some coercer ∧
    coercer capture = .error f ∧ CoercionTable.isReported f = false

theorem isMatchFailure_or_raises_of_choose {c : Candidate} {f : Fault}
    (hc : c ∈ candidates text definitions) (h : m.choose c = .error f) :
    Executor.isMatchFailure f = true ∨ m.Raises text definitions f := by
  obtain ⟨i, _, hi, hgroups⟩ := getElem?_of_mem_candidatesFrom hc
  rcases except_bind_eq_error_iff.1 h with hcoerce | ⟨args, _, h⟩
  · obtain ⟨⟨value, j⟩, hp, he⟩ := CoercionTable.exists_of_coerceFrom_eq_error hcoerce
    refine (CoercionTable.isMatchFailure_or_raised_of_coerceOne he).imp_right ?_
    rintro ⟨capture, coercer, rfl, hcoercer, hraised, hreported⟩
    exact ⟨c.definition, List.mem_of_getElem? hi, c.groups, j, capture, coercer, hgroups,
      List.mem_zipIdx_iff_getElem?.1 hp, hcoercer, hraised, hreported⟩
  · cases h

/-- A fault of matching is a failure of the step, or a coercer raised it. -/
theorem isMatchFailure_or_raises {f : Fault} (h : (m.matchText text definitions).result = .error f) :
    Executor.isMatchFailure f = true ∨ m.Raises text definitions f := by
  rw [matchText] at h
  split at h
  · cases h
  · rename_i c hbest
    have hc : c ∈ best (candidates text definitions) := by simp [hbest]
    exact isMatchFailure_or_raises_of_choose (mem_of_mem_best hc) h
  · rename_i c cs _ hbest
    split at h
    · cases h
      exact .inl rfl
    · have hc : c ∈ best (candidates text definitions) := by simp [hbest]
      exact isMatchFailure_or_raises_of_choose (mem_of_mem_best hc) h

/-- With coercers that report their failures no fault of matching is other than a failure of the
step. -/
theorem isMatchFailure_of_matchText (hm : m.coercions.Reports) {f : Fault}
    (h : (m.matchText text definitions).result = .error f) : Executor.isMatchFailure f = true := by
  refine (isMatchFailure_or_raises h).resolve_right ?_
  rintro ⟨d, _, groups, i, capture, coercer, _, _, hcoercer, hraised, hreported⟩
  cases hreported.symm.trans (hm _ coercer hcoercer capture f hraised)

end Matcher

namespace DispatchTable

theorem build_eq_ok {r : Registry} {a : Arena} {t : DispatchTable} (h : build r a = .ok t) :
    t.arena = a ∧ t.definitions = r.definitions ∧
      List.Forall₂ (fun d i => a.ownerInstance d.owner = .ok i) t.definitions t.targets := by
  obtain ⟨targets, ht, h⟩ := except_bind_eq_ok_iff.1 h
  cases h
  exact ⟨rfl, rfl, mapM_eq_ok_iff.1 ht⟩

end DispatchTable
end Rehearsal
