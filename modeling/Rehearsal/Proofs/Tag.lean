import Mathlib.Data.List.DropRight
import Rehearsal.Proofs.Except
import Rehearsal.Scenario

/-! Tags as texts. Normalizing takes the white space at the ends and one `@` off a text, so what is left
can begin with white space or with another `@` and is then not what normalizing it again gives. Of a
text that is an `@`, white space at most, and another `@`, normalizing twice leaves nothing. -/

namespace Rehearsal
set_option autoImplicit false
open Rehearsal.Text

theorem mem_sortedSet {x : String} {xs : List String} : x ∈ sortedSet xs ↔ x ∈ xs := by
  rw [sortedSet, List.mem_mergeSort, List.mem_eraseDups]

@[simp] theorem sortedSet_singleton (s : String) : sortedSet [s] = [s] := by
  simp [sortedSet, List.eraseDups_cons, List.mergeSort_singleton]

namespace Text
variable {c : Char} {cs : List Char}

theorem trimLeft_cons (c : Char) (cs : List Char) :
    trimLeft (c :: cs) = if isBlank c then trimLeft cs else c :: cs := by
  rw [trimLeft, List.dropWhile_cons]
  rfl

theorem trimRight_eq_nil_iff : trimRight cs = [] ↔ ∀ c ∈ cs, isBlank c = true :=
  List.rdropWhile_eq_nil_iff

theorem trimRight_trimRight : trimRight (trimRight cs) = trimRight cs :=
  List.rdropWhile_idempotent isBlank cs

theorem trimLeft_trimLeft : trimLeft (trimLeft cs) = trimLeft cs :=
  List.dropWhile_idempotent isBlank cs

/-- A character stays at the front unless all is white space from it on. -/
theorem trimRight_cons (c : Char) (cs : List Char) :
    trimRight (c :: cs) = if isBlank c && (trimRight cs).isEmpty then [] else c :: trimRight cs := by
  rw [trimRight, trimRight, trimLeft, trimLeft, List.reverse_cons, List.dropWhile_append]
  cases hr : cs.reverse.dropWhile isBlank with
  | nil => cases hc : isBlank c <;> simp [hc]
  | cons d ds => simp

theorem trimRight_cons_of_not_blank (hc : isBlank c = false) :
    trimRight (c :: cs) = c :: trimRight cs := by simp [trimRight_cons, hc]

/-- The two ends of a text are trimmed in either order. -/
theorem trimLeft_trimRight (cs : List Char) : trimLeft (trimRight cs) = trimRight (trimLeft cs) := by
  induction cs with
  | nil => rfl
  | cons c cs ih =>
    cases hc : isBlank c with
    | false =>
      rw [trimRight_cons_of_not_blank hc, trimLeft_cons, trimLeft_cons, hc]
      exact (trimRight_cons_of_not_blank hc).symm
    | true =>
      rw [trimLeft_cons c cs, hc, if_pos rfl, ← ih, trimRight_cons, hc, Bool.true_and]
      cases hr : trimRight cs with
      | nil => rfl
      | cons d ds => simp [trimLeft_cons, hc]

theorem trim_trimRight : trim (trimRight cs) = trim cs := by
  rw [trim, trim, trimLeft_trimRight, trimRight_trimRight]

theorem trim_trim : trim (trim cs) = trim cs := by
  rw [trim, trim, trimLeft_trimRight, trimLeft_trimLeft, trimRight_trimRight]

theorem trim_cons_of_not_blank (hc : isBlank c = false) : trim (c :: cs) = c :: trimRight cs := by
  rw [trim, trimLeft_cons, hc]
  exact trimRight_cons_of_not_blank hc

theorem trim_cons_of_blank (hc : isBlank c = true) : trim (c :: cs) = trim cs := by
  rw [trim, trimLeft_cons, hc]
  rfl

/-- What is left of a text begins with no white space. -/
theorem isBlank_of_trim_eq_cons {d : Char} {ds : List Char} (h : trim cs = d :: ds) :
    isBlank d = false := by
  induction cs with
  | nil => cases h
  | cons c cs ih =>
    cases hc : isBlank c with
    | true => exact ih (trim_cons_of_blank hc ▸ h)
    | false =>
      rw [trim_cons_of_not_blank hc] at h
      exact (List.cons.inj h).1 ▸ hc

theorem trim_of_ends (hc : isBlank c = false)
    (hlast : ∀ d, (c :: cs).getLast? = some d → isBlank d = false) : trim (c :: cs) = c :: cs := by
  have hright : trimRight (c :: cs) = c :: cs := by
    apply List.rdropWhile_eq_self_iff.2
    intro hne
    rw [hlast _ (List.getLast?_eq_some_getLast hne)]
    exact Bool.false_ne_true
  rw [trim_cons_of_not_blank hc, ← trimRight_cons_of_not_blank hc, hright]

theorem length_trim_le (cs : List Char) : (trim cs).length ≤ cs.length :=
  (List.IsPrefix.length_le (List.rdropWhile_prefix isBlank (trimLeft cs))).trans
    (List.dropWhile_suffix isBlank).length_le

end Text

namespace Tag
variable {t n : String} {cs : List Char}

/-- The text is a tag that begins with neither white space nor `@`. -/
def IsClear (n : String) : Prop := ∀ c, n.toList.head? = some c → c ≠ '@' ∧ isBlank c = false

/-- The text is an `@` with another one behind it, and white space at most between them. -/
def IsHollow (t : String) : Prop :=
  ∃ gap, (∀ c ∈ gap, isBlank c = true) ∧ trim t.toList = '@' :: gap ++ ['@']

theorem trim_eq_or (cs : List Char) : trim cs = bare cs ∨ trim cs = '@' :: bare cs := by
  rw [bare]
  split
  · rename_i h
    exact .inr h
  · exact .inl rfl

theorem trimRight_bare (cs : List Char) : trimRight (bare cs) = bare cs := by
  have htrim : trimRight (trim cs) = trim cs := trimRight_trimRight
  rcases trim_eq_or cs with h | h
  · rwa [h] at htrim
  · rw [h, trimRight_cons_of_not_blank (by decide)] at htrim
    exact (List.cons.inj htrim).2

theorem bare_trimRight : bare (trimRight cs) = bare cs := by rw [bare, trim_trimRight]; rfl

theorem bare_trim : bare (trim cs) = bare cs := by rw [bare, trim_trim]; rfl

theorem normalize_eq_ok_iff : normalize t = .ok n ↔ bare t.toList = n.toList ∧ n.toList ≠ [] := by
  rw [normalize]
  split
  · rename_i h
    rw [h]
    exact ⟨nofun, fun ⟨he, hn⟩ => absurd he.symm hn⟩
  · rename_i hne
    rw [Except.ok.injEq]
    constructor
    · rintro rfl
      rw [String.toList_ofList]
      exact ⟨rfl, hne⟩
    · rintro ⟨he, _⟩
      rw [he, String.ofList_toList]

theorem exists_normalize_iff : (∃ n, normalize t = .ok n) ↔ bare t.toList ≠ [] := by
  constructor
  · rintro ⟨n, hn⟩
    obtain ⟨he, hne⟩ := normalize_eq_ok_iff.1 hn
    rwa [he]
  · intro hne
    exact ⟨String.ofList (bare t.toList),
      normalize_eq_ok_iff.2 ⟨by rw [String.toList_ofList], by rwa [String.toList_ofList]⟩⟩

/-- What is left of a text is itself a normal tag when it is clear. -/
theorem normalize_again_iff (h : normalize t = .ok n) : normalize n = .ok n ↔ IsClear n := by
  obtain ⟨he, hne⟩ := normalize_eq_ok_iff.1 h
  have hright : trimRight n.toList = n.toList := he ▸ trimRight_bare t.toList
  rw [normalize_eq_ok_iff]
  constructor
  · rintro ⟨hself, _⟩ c hc
    obtain ⟨ds, hds⟩ := List.head?_eq_some_iff.1 hc
    have htrim : trim n.toList = n.toList := by
      rcases trim_eq_or n.toList with h | h
      · rw [h, hself]
      · have hlen := length_trim_le n.toList
        rw [h, hself, List.length_cons] at hlen
        omega
    refine ⟨?_, isBlank_of_trim_eq_cons (htrim.trans hds)⟩
    rintro rfl
    rw [bare, htrim, hds] at hself
    exact List.cons_ne_self _ _ hself.symm
  · intro hclear
    refine ⟨?_, hne⟩
    cases hcs : n.toList with
    | nil => exact absurd hcs hne
    | cons c cs =>
      obtain ⟨hat, hblank⟩ := hclear c (by rw [hcs]; rfl)
      rw [hcs] at hright
      rw [bare, trim_cons_of_not_blank hblank, ← trimRight_cons_of_not_blank hblank, hright]
      split
      · rename_i heq
        exact absurd (List.cons.inj heq).1 hat
      · rfl

/-- Of what is left of a text normalizing leaves nothing when the text is hollow. -/
theorem bare_again_eq_nil_iff (h : normalize t = .ok n) : bare n.toList = [] ↔ IsHollow t := by
  obtain ⟨he, hne⟩ := normalize_eq_ok_iff.1 h
  have hright : trimRight n.toList = n.toList := he ▸ trimRight_bare t.toList
  have htrim : trim n.toList = trimLeft n.toList := by rw [trim, ← trimLeft_trimRight, hright]
  constructor
  · intro hnil
    have hleft : trimLeft n.toList = ['@'] := by
      rcases trim_eq_or n.toList with hb | hb
      · rw [hnil, htrim] at hb
        have hall : ∀ c ∈ n.toList, isBlank c = true := List.dropWhile_eq_nil_iff.1 hb
        exact absurd (hright.symm.trans (trimRight_eq_nil_iff.2 hall)) hne
      · rw [← htrim, hb, hnil]
    have hsplit : n.toList.takeWhile isBlank ++ ['@'] = n.toList := by
      rw [← hleft]
      exact List.takeWhile_append_dropWhile
    have hgap : ∀ c ∈ n.toList.takeWhile isBlank, isBlank c = true :=
      fun c hc => List.mem_takeWhile_imp hc
    refine ⟨n.toList.takeWhile isBlank, hgap, ?_⟩
    rw [List.cons_append, hsplit, ← he]
    rcases trim_eq_or t.toList with ht | ht
    · -- A text without an `@` of its own at the front would begin with the gap, or be the `@` itself.
      exfalso
      rw [he, ← hsplit] at ht
      cases hg : n.toList.takeWhile isBlank with
      | nil =>
        rw [hg] at ht
        rw [bare, ht] at he
        exact hne he.symm
      | cons g gs =>
        rw [hg] at ht hgap
        have hblank := hgap g List.mem_cons_self
        rw [isBlank_of_trim_eq_cons ht] at hblank
        cases hblank
    · exact ht
  · rintro ⟨gap, hgap, ht⟩
    have hn : n.toList = gap ++ ['@'] := by rw [← he, bare, ht]; rfl
    rw [bare, htrim, hn, trimLeft, List.dropWhile_append_of_pos hgap]
    rfl

/-- Of what is left of a text, normalizing makes a tag again unless the text is hollow. -/
theorem exists_normalize_again_iff (h : normalize t = .ok n) :
    (∃ m, normalize n = .ok m) ↔ ¬ IsHollow t := by
  rw [exists_normalize_iff, Ne, bare_again_eq_nil_iff h]

end Tag

/-- The texts among the items of a value. -/
def Value.texts (v : Value) : List String := (v.iterate.toOption.getD []).filterMap Value.text?

theorem Value.text?_eq_some_iff {v : Value} {s : String} : v.text? = some s ↔ v = .text s := by
  cases v <;> simp [Value.text?]

theorem Value.mem_texts_iff {v : Value} {t : String} :
    t ∈ v.texts ↔ ∃ items, v.iterate = .ok items ∧ .text t ∈ items := by
  have hmem : ∀ items : List Value, t ∈ items.filterMap Value.text? ↔ .text t ∈ items := by
    intro items
    simp only [List.mem_filterMap, Value.text?_eq_some_iff]
    exact ⟨fun ⟨_, hm, he⟩ => he ▸ hm, fun hm => ⟨_, hm, rfl⟩⟩
  rw [texts, hmem]
  cases v.iterate <;> simp [Except.toOption]

theorem Tag.ofValue_eq_ok_iff {v : Value} {n : String} :
    Tag.ofValue v = .ok n ↔ ∃ t, v = .text t ∧ Tag.normalize t = .ok n := by
  cases v <;> simp [Tag.ofValue]

/-- The tags made of a value are its texts, normalized. -/
theorem Scenario.mem_tagsOf_iff {v : Value} {tags : List String} (h : tagsOf v = .ok tags)
    {n : String} : n ∈ tags ↔ ∃ t ∈ v.texts, Tag.normalize t = .ok n := by
  obtain ⟨normal, hn, h⟩ := except_bind_eq_ok_iff.1 h
  obtain ⟨items, hi, hm⟩ := except_bind_eq_ok_iff.1 hn
  cases h
  rw [mem_sortedSet, mem_iff_of_mapM_eq_ok hm]
  simp only [Tag.ofValue_eq_ok_iff, Value.mem_texts_iff, hi, Except.ok.injEq, exists_eq_left']
  constructor
  · rintro ⟨_, hmem, t, rfl, ht⟩
    exact ⟨t, hmem, ht⟩
  · rintro ⟨t, hmem, ht⟩
    exact ⟨_, hmem, t, rfl, ht⟩

/-- No text that becomes a tag is refused. -/
theorem Scenario.exists_normalize_of_mem_texts {v : Value} {tags : List String} (h : tagsOf v = .ok tags)
    {t : String} (ht : t ∈ v.texts) : ∃ n, Tag.normalize t = .ok n := by
  obtain ⟨normal, hn, _⟩ := except_bind_eq_ok_iff.1 h
  obtain ⟨items, hi, hm⟩ := except_bind_eq_ok_iff.1 hn
  obtain ⟨items', hi', hmem⟩ := Value.mem_texts_iff.1 ht
  cases hi.symm.trans hi'
  exact exists_mapM_iff.1 ⟨normal, hm⟩ _ hmem

/-- A scenario was made with the tags of a value. -/
inductive Scenario.MadeWith (v : Value) (s : Scenario) : Prop where
  | parts {name : String} {steps : List StepSource} {line : Value} :
      Scenario.make name steps v line = .ok s → MadeWith v s
  | texts {name : String} {steps : List StepSource} :
      Scenario.ofTexts name steps v = .ok s → MadeWith v s

/-- A feature was made with the tags of a value. -/
def Feature.MadeWith (v : Value) (f : Feature) : Prop :=
  ∃ name scenarios path, Feature.make name scenarios v path = .ok f

theorem Feature.MadeWith.tagsOf {v : Value} {f : Feature} (h : f.MadeWith v) :
    Scenario.tagsOf v = .ok f.tags := by
  obtain ⟨_, _, _, h⟩ := h
  obtain ⟨tags, ht, h⟩ := except_bind_eq_ok_iff.1 h
  cases h
  exact ht

theorem Value.iterate_of_setItems {v : Value} {items : List Value} (h : v.setItems = .ok items) :
    v.iterate = .ok items := by
  obtain ⟨items', hi, h⟩ := except_bind_eq_ok_iff.1 h
  rw [hi]
  split at h
  · cases h
  · exact h

theorem Scenario.MadeWith.tagsOf {v : Value} {s : Scenario} (h : s.MadeWith v) :
    Scenario.tagsOf v = .ok s.tags := by
  cases h with
  | parts h =>
    obtain ⟨_, _, h⟩ := except_bind_eq_ok_iff.1 h
    obtain ⟨tags, ht, h⟩ := except_bind_eq_ok_iff.1 h
    cases h
    exact ht
  | texts h =>
    obtain ⟨_, _, h⟩ := except_bind_eq_ok_iff.1 h
    obtain ⟨items, hi, h⟩ := except_bind_eq_ok_iff.1 h
    obtain ⟨tags, ht, h⟩ := except_bind_eq_ok_iff.1 h
    cases h
    rw [← ht, Scenario.tagsOf, Scenario.tagsOf, Tag.setOfValue, Tag.setOfValue, Value.iterate_of_setItems hi]
    rfl

end Rehearsal
