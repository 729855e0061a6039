import Mathlib.Data.List.Forall2
import Rehearsal.Proofs.Stacks
import Rehearsal.Report.Log

/-! Stacks in a log. An error that is itself a field is told without its stack. One that stands deeper is
told like any other datum, with its stack, and the scenario of a message is left as it is. -/

namespace Rehearsal
set_option autoImplicit false

namespace Json

/-- The fields that are there after others have been put in. -/
def putFields (acc fields : List (String × Json)) : List (String × Json) :=
  fields.foldl (fun acc f => putField acc f.1 f.2) acc

/-- Fields of the same names, with the same values but where a later field of the name counts. -/
inductive Agree : List (String × Json) → List (String × Json) → Prop where
  | nil : Agree [] []
  | cons {k : String} {j j' : Json} {fields fields' : List (String × Json)}
      (h : j = j' ∨ k ∈ fields.map (·.1)) (hrest : Agree fields fields') :
      Agree ((k, j) :: fields) ((k, j') :: fields')

/-- What is there so far may differ where a field to come counts. -/
def Alike (coming : List String) (f f' : String × Json) : Prop := f.1 = f'.1 ∧ (f.2 = f'.2 ∨ f.1 ∈ coming)

variable {acc acc' fields fields' : List (String × Json)} {f : String × Json} {k n : String} {j j' : Json}

theorem ofFields_eq : ofFields fields = .obj (putFields [] fields) := rfl

theorem putFields_cons : putFields acc ((k, j) :: fields) = putFields (putField acc k j) fields := rfl

theorem mem_putField_self : (k, j) ∈ putField acc k j := by
  rw [putField]
  split
  · rename_i hany
    obtain ⟨f, hf, hk⟩ := List.any_eq_true.1 hany
    exact List.mem_map.2 ⟨f, hf, by rw [if_pos hk, beq_iff_eq.1 hk]⟩
  · exact List.mem_append_right _ List.mem_cons_self

theorem mem_putField_of_ne (h : f ∈ acc) (hne : f.1 ≠ k) : f ∈ putField acc k j := by
  rw [putField]
  split
  · exact List.mem_map.2 ⟨f, h, if_neg (by simpa using hne)⟩
  · exact List.mem_append_left _ h

theorem name_mem_putField (h : n ∈ acc.map (·.1)) : n ∈ (putField acc k j).map (·.1) := by
  by_cases hn : n = k
  · exact hn ▸ List.mem_map_of_mem mem_putField_self
  · obtain ⟨f, hf, rfl⟩ := List.mem_map.1 h
    exact List.mem_map_of_mem (mem_putField_of_ne hf hn)

/-- The last field of a name stands with its value. -/
theorem mem_putFields_of_not_mem (h : f ∈ acc) (hlast : f.1 ∉ fields.map (·.1)) : f ∈ putFields acc fields := by
  induction fields generalizing acc with
  | nil => exact h
  | cons g fields ih =>
    obtain ⟨hne, hlater⟩ := not_or.1 (List.mem_cons.not.1 hlast)
    exact ih (mem_putField_of_ne h hne) hlater

theorem name_mem_putFields (h : n ∈ acc.map (·.1) ∨ n ∈ fields.map (·.1)) :
    n ∈ (putFields acc fields).map (·.1) := by
  induction fields generalizing acc with
  | nil => simpa [putFields] using h
  | cons g fields ih =>
    apply ih
    rcases h with hacc | hfields
    · exact .inl (name_mem_putField hacc)
    · rcases List.mem_cons.1 hfields with rfl | hlater
      · exact .inl (List.mem_map_of_mem mem_putField_self)
      · exact .inr hlater

theorem any_eq_of_alike {coming : List String} (h : List.Forall₂ (Alike coming) acc acc') :
    acc.any (·.1 == k) = acc'.any (·.1 == k) := by
  induction h with
  | nil => rfl
  | cons hhead _ ih => rw [List.any_cons, List.any_cons, ih, hhead.1]

theorem map_eq_self_of_any (h : acc.any (·.1 == k) = false) :
    (acc.map fun f => if f.1 == k then (f.1, j) else f) = acc := by
  rw [List.any_eq_false] at h
  exact (List.map_congr_left fun f hf => if_neg (h f hf)).trans (List.map_id acc)

theorem alike_putField {coming : List String} (h : List.Forall₂ (Alike (k :: coming)) acc acc')
    (hj : j = j' ∨ k ∈ coming) : List.Forall₂ (Alike coming) (putField acc k j) (putField acc' k j') := by
  have hput : List.Forall₂ (Alike coming) (acc.map fun f => if f.1 == k then (f.1, j) else f)
      (acc'.map fun f => if f.1 == k then (f.1, j') else f) := by
    rw [List.forall₂_map_left_iff, List.forall₂_map_right_iff]
    apply h.imp
    rintro ⟨n, i⟩ ⟨n', i'⟩ ⟨rfl, hvalue⟩
    by_cases hn : n = k
    · simpa [Alike, hn] using hj
    · simpa [Alike, hn] using hvalue
  have hsame := any_eq_of_alike (k := k) h
  -- Where no field has the name, replacing its value changes nothing.
  cases hany : acc.any (·.1 == k) with
  | true =>
    rw [putField, putField, ← hsame, if_pos hany, if_pos hany]
    exact hput
  | false =>
    rw [map_eq_self_of_any hany, map_eq_self_of_any (hsame ▸ hany)] at hput
    rw [putField, putField, ← hsame, if_neg (by simp [hany]), if_neg (by simp [hany])]
    exact List.rel_append hput (.cons ⟨rfl, hj⟩ .nil)

theorem putFields_congr (h : Agree fields fields') (hacc : List.Forall₂ (Alike (fields.map (·.1))) acc acc') :
    putFields acc fields = putFields acc' fields' := by
  induction h generalizing acc acc' with
  | nil =>
    have heq : List.Forall₂ Eq acc acc' := hacc.imp fun f f' hf => by
      obtain ⟨hname, hvalue⟩ := hf
      exact Prod.ext hname (by simpa using hvalue)
    rwa [List.forall₂_eq_eq_eq] at heq
  | cons hj _ ih => exact ih (alike_putField hacc hj)

theorem ofFields_congr (h : Agree fields fields') : ofFields fields = ofFields fields' := by
  rw [ofFields_eq, ofFields_eq, putFields_congr h .nil]

end Json

namespace Datum
open Text Report

mutual

/-- The errors that stand in a datum, however deep, in keys as well. -/
def errors : Datum → List ErrorInfo
  | list items => itemErrors items
  | tuple items => itemErrors items
  | dict entries => entryErrors entries
  | record r => r.errors
  | error e => [e]
  | _ => []

def itemErrors : List Datum → List ErrorInfo
  | [] => []
  | d :: ds => errors d ++ itemErrors ds

def entryErrors : List (Datum × Datum) → List ErrorInfo
  | [] => []
  | (k, d) :: es => errors k ++ errors d ++ entryErrors es

end

mutual

def withStacks (stack : Option String) : Datum → Datum
  | list items => list (itemsWithStacks stack items)
  | tuple items => tuple (itemsWithStacks stack items)
  | dict entries => dict (entriesWithStacks stack entries)
  | record r => record (r.withStacks stack)
  | error e => error (e.withStack stack)
  | d => d

def itemsWithStacks (stack : Option String) : List Datum → List Datum
  | [] => []
  | d :: ds => withStacks stack d :: itemsWithStacks stack ds

def entriesWithStacks (stack : Option String) : List (Datum × Datum) → List (Datum × Datum)
  | [] => []
  | (k, d) :: es => (withStacks stack k, withStacks stack d) :: entriesWithStacks stack es

end

mutual

/-- Does a report of a datum tell the stack of an error? Of entries with one name only the last is told. -/
def tells : Datum → Bool
  | list items => itemsTell items
  | tuple items => itemsTell items
  | dict entries => (entries.any fun e => !e.1.errors.isEmpty) || valuesTell entries
  | record r => !r.errors.isEmpty
  | error _ => true
  | _ => false

def itemsTell : List Datum → Bool
  | [] => false
  | d :: ds => tells d || itemsTell ds

def valuesTell : List (Datum × Datum) → Bool
  | [] => false
  | (k, d) :: es => (tells d && !es.any fun e => e.1.display == k.display) || valuesTell es

end

variable {stack : Option String} {s : String} {d : Datum} {entries : List (Datum × Datum)}

mutual

theorem withStacks_of_errors_eq_nil : (d : Datum) → d.errors = [] → d.withStacks stack = d
  | list items, h => by
    rw [errors] at h
    rw [withStacks, itemsWithStacks_of_errors_eq_nil items h]
  | tuple items, h => by
    rw [errors] at h
    rw [withStacks, itemsWithStacks_of_errors_eq_nil items h]
  | dict entries, h => by
    rw [errors] at h
    rw [withStacks, entriesWithStacks_of_errors_eq_nil entries h]
  | record r, h => by
    rw [errors] at h
    rw [withStacks, Shows.record.same h]
  | error e, h => by simp [errors] at h
  | plain _, _ | status _, _ | stage _, _ | phase _, _ | tags _, _ | path _, _ | time _, _ | decimal _, _
  | fault _, _ => rfl

theorem itemsWithStacks_of_errors_eq_nil :
    (items : List Datum) → itemErrors items = [] → itemsWithStacks stack items = items
  | [], _ => rfl
  | d :: ds, h => by
    rw [itemErrors, List.append_eq_nil_iff] at h
    rw [itemsWithStacks, withStacks_of_errors_eq_nil d h.1, itemsWithStacks_of_errors_eq_nil ds h.2]

theorem entriesWithStacks_of_errors_eq_nil :
    (entries : List (Datum × Datum)) → entryErrors entries = [] → entriesWithStacks stack entries = entries
  | [], _ => rfl
  | (k, d) :: es, h => by
    rw [entryErrors, List.append_eq_nil_iff, List.append_eq_nil_iff] at h
    rw [entriesWithStacks, withStacks_of_errors_eq_nil k h.1.1, withStacks_of_errors_eq_nil d h.1.2,
      entriesWithStacks_of_errors_eq_nil es h.2]

end

mutual

/-- The text of a datum as a part of another shows every stack. -/
theorem length_le_shown : (d : Datum) → d.errors ≠ [] → s.length ≤ (d.withStacks (some s)).shown.length
  | list items, h => by
    rw [errors] at h
    obtain ⟨t, ht, hlength⟩ := exists_mem_shownItems items h
    have hjoined : t.length ≤ (String.intercalate ", " _).length := length_le_intercalate ht
    simp only [withStacks, shown, String.length_append]
    omega
  | tuple items, h => by
    rw [errors] at h
    obtain ⟨t, ht, hlength⟩ := exists_mem_shownItems items h
    rw [withStacks, shown]
    exact Nat.le_trans hlength (length_le_tupleText ht)
  | dict entries, h => by
    rw [errors] at h
    obtain ⟨t, ht, hlength⟩ := exists_mem_shownEntries entries h
    have hjoined : t.length ≤ (String.intercalate ", " _).length := length_le_intercalate ht
    simp only [withStacks, shown, String.length_append]
    omega
  | record r, h => Shows.record.text h
  | error e, _ => Shows.error.text (List.cons_ne_nil e [])
  | plain _, h | status _, h | stage _, h | phase _, h | tags _, h | path _, h | time _, h | decimal _, h
  | fault _, h => absurd rfl h

theorem exists_mem_shownItems : (items : List Datum) → itemErrors items ≠ [] →
    ∃ t ∈ shownItems (itemsWithStacks (some s) items), s.length ≤ t.length
  | [], h => absurd rfl h
  | d :: ds, h => by
    rw [itemErrors] at h
    rw [itemsWithStacks, shownItems]
    rcases ne_nil_or_of_append h with hd | hds
    · exact ⟨_, List.mem_cons_self, length_le_shown d hd⟩
    · obtain ⟨t, ht, hlength⟩ := exists_mem_shownItems ds hds
      exact ⟨t, List.mem_cons_of_mem _ ht, hlength⟩

theorem exists_mem_shownEntries : (entries : List (Datum × Datum)) → entryErrors entries ≠ [] →
    ∃ t ∈ shownEntries (entriesWithStacks (some s) entries), s.length ≤ t.length
  | [], h => absurd rfl h
  | (k, d) :: es, h => by
    rw [entryErrors] at h
    rw [entriesWithStacks, shownEntries]
    rcases ne_nil_or_of_append h with h | hes
    · refine ⟨_, List.mem_cons_self, ?_⟩
      rw [String.length_append, String.length_append]
      rcases ne_nil_or_of_append h with hk | hd
      · have hlength := length_le_shown k hk
        omega
      · have hlength := length_le_shown d hd
        omega
    · obtain ⟨t, ht, hlength⟩ := exists_mem_shownEntries es hes
      exact ⟨t, List.mem_cons_of_mem _ ht, hlength⟩

end

/-- What holds errors has no text of its own. -/
theorem display_withStacks : (d : Datum) → d.errors ≠ [] →
    (d.withStacks stack).display = (d.withStacks stack).shown
  | list _, _ | tuple _, _ | dict _, _ | record _, _ | error _, _ => rfl
  | plain _, h | status _, h | stage _, h | phase _, h | tags _, h | path _, h | time _, h | decimal _, h
  | fault _, h => absurd rfl h

theorem entriesWithStacks_eq_map : entriesWithStacks stack entries =
    entries.map fun e => (e.1.withStacks stack, e.2.withStacks stack) := by
  induction entries with
  | nil => rfl
  | cons e es ih => rw [entriesWithStacks, ih, List.map_cons]

theorem names_ofEntries : (ofEntries entries).map (·.1) = entries.map fun e => e.1.display := by
  induction entries with
  | nil => rfl
  | cons e es ih => rw [ofEntries, List.map_cons, List.map_cons, ih]

theorem names_entriesWithStacks (hkeys : ∀ e ∈ entries, e.1.errors = []) :
    (ofEntries (entriesWithStacks stack entries)).map (·.1) = entries.map fun e => e.1.display := by
  rw [names_ofEntries, entriesWithStacks_eq_map, List.map_map]
  exact List.map_congr_left fun e he => congrArg display (withStacks_of_errors_eq_nil e.1 (hkeys e he))

mutual

/-- A report that tells stacks shows the one that is put in their place. -/
theorem length_le_weight_of_tells :
    (d : Datum) → d.tells = true → s.length ≤ (ofDatum (d.withStacks (some s))).weight
  | list items, h => by
    rw [tells] at h
    obtain ⟨j, hj, hlength⟩ := exists_mem_ofData items h
    exact Nat.le_trans hlength (Json.weight_le_of_item hj)
  | tuple items, h => by
    rw [tells] at h
    obtain ⟨j, hj, hlength⟩ := exists_mem_ofData items h
    exact Nat.le_trans hlength (Json.weight_le_of_item hj)
  | dict entries, h => by
    rw [withStacks, ofDatum, Json.ofFields_eq]
    -- Without errors in keys the names stay, and with them which values count.
    by_cases hkeys : ∀ e ∈ entries, e.1.errors = []
    · have hnone : (entries.any fun e => !e.1.errors.isEmpty) = false :=
        List.any_eq_false.2 fun e he => by simp [hkeys e he]
      rw [tells, hnone, Bool.false_or] at h
      obtain ⟨f, hf, hlength⟩ := exists_mem_putFields entries hkeys h []
      exact Nat.le_trans hlength (Json.weight_le_of_field hf)
    · push Not at hkeys
      obtain ⟨e, he, herrors⟩ := hkeys
      have hname : (e.1.withStacks (some s)).display ∈
          (ofEntries (entriesWithStacks (some s) entries)).map (·.1) := by
        rw [names_ofEntries, entriesWithStacks_eq_map, List.map_map]
        exact List.mem_map_of_mem he
      obtain ⟨f, hf, hdisplay⟩ := List.mem_map.1 (Json.name_mem_putFields (.inr hname))
      have hlength := length_le_shown (s := s) e.1 herrors
      rw [← display_withStacks e.1 herrors, ← hdisplay] at hlength
      exact Nat.le_trans hlength (Json.name_le_of_field hf)
  | record r, h => Shows.record.json (by simpa [tells] using h)
  | error e, _ => Shows.error.json (List.cons_ne_nil e [])
  | plain _, h | status _, h | stage _, h | phase _, h | tags _, h | path _, h | time _, h | decimal _, h
  | fault _, h => absurd h Bool.false_ne_true

theorem exists_mem_ofData : (items : List Datum) → itemsTell items = true →
    ∃ j ∈ ofData (itemsWithStacks (some s) items), s.length ≤ j.weight
  | [], h => absurd h Bool.false_ne_true
  | d :: ds, h => by
    rw [itemsTell, Bool.or_eq_true] at h
    rw [itemsWithStacks, ofData]
    rcases h with hd | hds
    · exact ⟨_, List.mem_cons_self, length_le_weight_of_tells d hd⟩
    · obtain ⟨j, hj, hlength⟩ := exists_mem_ofData ds hds
      exact ⟨j, List.mem_cons_of_mem _ hj, hlength⟩

theorem exists_mem_putFields : (entries : List (Datum × Datum)) → (∀ e ∈ entries, e.1.errors = []) →
    valuesTell entries = true → (acc : List (String × Json)) →
    ∃ f ∈ Json.putFields acc (ofEntries (entriesWithStacks (some s) entries)), s.length ≤ f.2.weight
  | [], _, h, _ => absurd h Bool.false_ne_true
  | (k, d) :: es, hkeys, h, acc => by
    obtain ⟨hk, hes⟩ := List.forall_mem_cons.1 hkeys
    rw [valuesTell, Bool.or_eq_true, Bool.and_eq_true] at h
    rw [entriesWithStacks, ofEntries, Json.putFields_cons]
    rcases h with ⟨hd, hlast⟩ | hlater
    · refine ⟨(_, ofDatum (d.withStacks (some s))), Json.mem_putFields_of_not_mem Json.mem_putField_self ?_,
        length_le_weight_of_tells d hd⟩
      rw [names_entriesWithStacks hes, withStacks_of_errors_eq_nil k hk]
      simpa using hlast
    · exact exists_mem_putFields es hes hlater _

end

mutual

/-- A report that tells no stack is the same for all stacks. -/
theorem ofDatum_withStacks : (d : Datum) → d.tells = false → ofDatum (d.withStacks stack) = ofDatum d
  | list items, h => by
    rw [tells] at h
    rw [withStacks, ofDatum, ofDatum, ofData_withStacks items h]
  | tuple items, h => by
    rw [tells] at h
    rw [withStacks, ofDatum, ofDatum, ofData_withStacks items h]
  | dict entries, h => by
    rw [tells, Bool.or_eq_false_iff, List.any_eq_false] at h
    have hkeys : ∀ e ∈ entries, e.1.errors = [] := fun e he => by simpa using h.1 e he
    rw [withStacks, ofDatum, ofDatum, Json.ofFields_congr (agree_ofEntries entries hkeys h.2)]
  | record r, h => by rw [withStacks, Shows.record.same (by simpa [tells] using h)]
  | error e, h => absurd h.symm Bool.false_ne_true
  | plain _, _ | status _, _ | stage _, _ | phase _, _ | tags _, _ | path _, _ | time _, _ | decimal _, _
  | fault _, _ => rfl

theorem ofData_withStacks :
    (items : List Datum) → itemsTell items = false → ofData (itemsWithStacks stack items) = ofData items
  | [], _ => rfl
  | d :: ds, h => by
    rw [itemsTell, Bool.or_eq_false_iff] at h
    rw [itemsWithStacks, ofData, ofData, ofDatum_withStacks d h.1, ofData_withStacks ds h.2]

theorem agree_ofEntries : (entries : List (Datum × Datum)) → (∀ e ∈ entries, e.1.errors = []) →
    valuesTell entries = false →
    Json.Agree (ofEntries (entriesWithStacks stack entries)) (ofEntries entries)
  | [], _, _ => .nil
  | (k, d) :: es, hkeys, h => by
    obtain ⟨hk, hes⟩ := List.forall_mem_cons.1 hkeys
    rw [valuesTell, Bool.or_eq_false_iff] at h
    rw [entriesWithStacks, ofEntries, ofEntries, withStacks_of_errors_eq_nil k hk]
    refine .cons ?_ (agree_ofEntries es hes h.2)
    cases hd : d.tells with
    | false => exact .inl (ofDatum_withStacks d hd)
    | true =>
      rw [names_entriesWithStacks hes]
      exact .inr (by simpa [hd] using h.1)

end

/-- The error that a datum is. -/
def error? : Datum → Option ErrorInfo
  | error e => some e
  | record (.error e) => some e
  | _ => none

theorem error?_withStacks (d : Datum) : (d.withStacks stack).error? = d.error?.map (.withStack stack) := by
  cases d with
  | record r => cases r <;> rfl
  | _ => rfl

theorem exists_longer (n : Nat) : ∃ s : String, n < s.length :=
  ⟨String.ofList (List.replicate (n + 1) ' '), by simp⟩

theorem exists_stack_of_tells (h : d.tells = true) : ∃ stack, ofDatum (d.withStacks stack) ≠ ofDatum d := by
  obtain ⟨s, hs⟩ := exists_longer (ofDatum d).weight
  refine ⟨some s, fun hsame => ?_⟩
  have hlength := length_le_weight_of_tells (s := s) d h
  rw [hsame] at hlength
  omega

theorem exists_stack_of_errors (h : d.errors ≠ []) : ∃ stack, d.withStacks stack ≠ d := by
  obtain ⟨s, hs⟩ := exists_longer d.shown.length
  refine ⟨some s, fun hsame => ?_⟩
  have hlength := length_le_shown (s := s) d h
  rw [hsame] at hlength
  omega

end Datum

namespace LogMessage
open Datum Report

variable {m : LogMessage} {d : Datum} {stack : Option String}

/-- The message with another stack for every error in its fields. -/
def withStacks (stack : Option String) (m : LogMessage) : LogMessage :=
  { m with fields := m.fields.map fun f => (f.1, f.2.withStacks stack) }

/-- The scenario holds no errors, and what tells stacks is no field. -/
structure Discreet (m : LogMessage) : Prop where
  scenario : ∀ d, m.scenario? = some d → d.errors = []
  fields : ∀ f ∈ m.fields, f.1 ≠ "scenario" → f.2.error? = none → f.2.tells = false

theorem fieldJson_of_error {e : ErrorInfo} (h : d.error? = some e) : fieldJson d = summary e := by
  unfold error? at h
  split at h
  · rw [fieldJson, Option.some.inj h]
  · rw [fieldJson, Option.some.inj h]
  · simp at h

theorem fieldJson_of_no_error (h : d.error? = none) : fieldJson d = ofDatum d := by
  cases d with
  | record r =>
    cases r with
    | error e => simp [error?] at h
    | _ => rfl
  | error e => simp [error?] at h
  | _ => rfl

theorem fieldJson_withStacks_iff : (∀ stack, fieldJson (d.withStacks stack) = fieldJson d) ↔
    (d.error? = none → d.tells = false) := by
  cases he : d.error? with
  | some e =>
    refine ⟨nofun, fun _ stack => ?_⟩
    have hother : (d.withStacks stack).error? = some (e.withStack stack) := by rw [error?_withStacks, he]; rfl
    -- A summary has no place for a stack.
    exact (fieldJson_of_error hother).trans (fieldJson_of_error he).symm
  | none =>
    have hother : ∀ stack, fieldJson (d.withStacks stack) = ofDatum (d.withStacks stack) := fun stack =>
      fieldJson_of_no_error (by rw [error?_withStacks, he]; rfl)
    rw [fieldJson_of_no_error he]
    constructor
    · intro hsame _
      by_contra htells
      obtain ⟨stack, hdiffers⟩ := exists_stack_of_tells (Bool.not_eq_false _ ▸ htells)
      exact hdiffers ((hother stack).symm.trans (hsame stack))
    · intro htells stack
      exact (hother stack).trans (ofDatum_withStacks d (htells rfl))

theorem isNull_withStacks : (d : Datum) → (d.withStacks stack).isNull = d.isNull
  | .list _ | .tuple _ | .dict _ | .record _ | .error _ | .plain _ | .status _ | .stage _ | .phase _
  | .tags _ | .path _ | .time _ | .decimal _ | .fault _ => rfl

theorem scenario?_withStacks : (m.withStacks stack).scenario? = m.scenario?.map (Datum.withStacks stack) := by
  rw [scenario?, scenario?, withStacks, List.find?_map]
  change Option.filter _ (((m.fields.find? (·.1 == "scenario")).map _).map _) = _
  cases m.fields.find? (·.1 == "scenario") with
  | none => rfl
  | some f => simp [Option.filter_some, isNull_withStacks, apply_ite]

theorem entry_withStacks_eq_iff : (m.withStacks stack).entry = m.entry ↔
    m.scenario?.map (Datum.withStacks stack) = m.scenario? ∧
      ∀ f ∈ m.fields, f.1 ≠ "scenario" → fieldJson (f.2.withStacks stack) = fieldJson f.2 := by
  have hfields : (m.withStacks stack).entry.fields =
      (m.fields.filter (·.1 != "scenario")).map fun f => (f.1, fieldJson (f.2.withStacks stack)) := by
    simp only [entry, withStacks, List.filter_map, List.map_map]
    rfl
  have hparts : (m.withStacks stack).entry = m.entry ↔
      m.scenario?.map (Datum.withStacks stack) = m.scenario? ∧
        (m.withStacks stack).entry.fields = m.entry.fields := by
    rw [← scenario?_withStacks]
    exact ⟨fun h => ⟨congrArg LogEntry.scenario h, congrArg LogEntry.fields h⟩, fun ⟨h, h'⟩ => by
      rw [entry, LogEntry.mk.injEq]
      exact ⟨rfl, rfl, rfl, h, h'⟩⟩
  rw [hparts, hfields, entry, List.map_inj_left]
  simp [and_imp]

/-- An error that is a field is told by its summary. No stack of an error in the fields is told just when
the message is discreet. -/
theorem entry_withStacks_iff (m : LogMessage) :
    (∀ f ∈ m.fields, f.1 ≠ "scenario" → ∀ e, f.2.error? = some e → (f.1, summary e) ∈ m.entry.fields) ∧
    ((∀ stack, (m.withStacks stack).entry = m.entry) ↔ m.Discreet) := by
  constructor
  · intro f hf hname e he
    have hkept : f ∈ m.fields.filter (·.1 != "scenario") := List.mem_filter.2 ⟨hf, by simpa using hname⟩
    rw [← fieldJson_of_error he]
    exact List.mem_map.2 ⟨f, hkept, rfl⟩
  · constructor
    · intro hsame
      refine ⟨fun d hd => ?_, fun f hf hname => ?_⟩
      · by_contra herrors
        obtain ⟨stack, hdiffers⟩ := exists_stack_of_errors herrors
        have hscenario := (entry_withStacks_eq_iff.1 (hsame stack)).1
        rw [hd, Option.map_some] at hscenario
        exact hdiffers (Option.some.inj hscenario)
      · exact fieldJson_withStacks_iff.1 fun stack => (entry_withStacks_eq_iff.1 (hsame stack)).2 f hf hname
    · intro hdiscreet stack
      refine entry_withStacks_eq_iff.2 ⟨?_, fun f hf hname => ?_⟩
      · cases hd : m.scenario? with
        | none => rfl
        | some d => rw [Option.map_some, withStacks_of_errors_eq_nil d (hdiscreet.scenario d hd)]
      · exact fieldJson_withStacks_iff.2 (hdiscreet.fields f hf hname) stack

end LogMessage
end Rehearsal
