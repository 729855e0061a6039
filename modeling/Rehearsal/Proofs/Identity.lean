import Mathlib.Data.List.Nodup
import Rehearsal.Proofs.Decimal
import Rehearsal.Scenario

/-! Ids of scenarios. What stands behind the last colon of an id is the place of the scenario in its
feature, so an id tells both. -/

namespace Rehearsal
set_option autoImplicit false

namespace Text

/-- The character of a separator that no last piece holds shows where that piece begins. -/
theorem append_cons_inj {sep : Char} {cs cs' ds ds' : List Char} (hds : sep ∉ ds) (hds' : sep ∉ ds')
    (h : cs ++ sep :: ds = cs' ++ sep :: ds') : cs = cs' ∧ ds = ds' := by
  rcases List.append_eq_append_iff.1 h with ⟨more, rfl, hmore⟩ | ⟨more, rfl, hmore⟩
  · cases more with
    | nil => simpa using hmore
    | cons c more =>
      have hin : sep ∈ ds := by simp [(List.cons.inj hmore).2]
      exact absurd hin hds
  · cases more with
    | nil => simpa using hmore.symm
    | cons c more =>
      have hin : sep ∈ ds' := by simp [(List.cons.inj hmore).2]
      exact absurd hin hds'

end Text

namespace Feature
open Text

/-- The lines that are given are numbers, and no two scenarios are given the same one. -/
structure Lined (f : Feature) : Prop where
  numbers : ∀ s ∈ f.scenarios, s.line = .null ∨ ∃ n : Int, s.line = .int n
  distinct : f.scenarios.Pairwise fun s t => s.line = t.line → s.line = .null

/-- The place of a scenario in its feature, as an id gives it. -/
def placeText (index : Int) (s : Scenario) : String :=
  if s.line.isNull then "#" ++ toString (index + 1) else s.line.display

variable {f g : Feature} {s t : Scenario} {i j : Int}

theorem idOf_eq : f.idOf i s = f.location ++ ":" ++ placeText i s := rfl

theorem placeText_of_null (h : s.line = .null) : placeText i s = "#" ++ toString (i + 1) := by
  simp [placeText, h, Value.isNull]

theorem placeText_of_int {n : Int} (h : s.line = .int n) : placeText i s = toString n := by
  simp [placeText, h, Value.isNull, Value.display, Value.shown]

theorem colon_not_mem_placeText (h : s.line = .null ∨ ∃ n : Int, s.line = .int n) :
    ':' ∉ (placeText i s).toList := by
  have hnumber := not_mem_toString_int (c := ':') (by decide) (by decide)
  rcases h with hnull | ⟨n, hn⟩
  · rw [placeText_of_null hnull, String.toList_append, List.mem_append]
    exact not_or.2 ⟨by decide, hnumber (i + 1)⟩
  · rw [placeText_of_int hn]
    exact hnumber n

theorem idOf_inj (hs : s.line = .null ∨ ∃ n : Int, s.line = .int n)
    (ht : t.line = .null ∨ ∃ n : Int, t.line = .int n) (h : f.idOf i s = g.idOf j t) :
    f.location = g.location ∧ placeText i s = placeText j t := by
  have hlists := congrArg String.toList h
  simp only [idOf_eq, String.toList_append, List.append_assoc] at hlists
  obtain ⟨hlocation, hplace⟩ :=
    append_cons_inj (colon_not_mem_placeText hs) (colon_not_mem_placeText ht) hlists
  exact ⟨String.toList_inj.1 hlocation, String.toList_inj.1 hplace⟩

/-- A position never looks like a line. -/
theorem placeText_ne (hs : s.line = .null) {n : Int} (ht : t.line = .int n) :
    placeText i s ≠ placeText j t := by
  rw [placeText_of_null hs, placeText_of_int ht]
  intro h
  have hhash : '#' ∈ (toString n).toList := by simp [← h]
  exact not_mem_toString_int (by decide) (by decide) n hhash

theorem eq_of_placeText (hs : s.line = .null ∨ ∃ n : Int, s.line = .int n)
    (ht : t.line = .null ∨ ∃ n : Int, t.line = .int n) (h : placeText i s = placeText j t) :
    s.line = t.line ∧ (s.line = .null → i = j) := by
  rcases hs with hs | ⟨n, hs⟩ <;> rcases ht with ht | ⟨m, ht⟩
  · rw [placeText_of_null hs, placeText_of_null ht] at h
    have hij := toString_int_inj ((String.append_right_inj "#").1 h)
    exact ⟨hs.trans ht.symm, fun _ => by omega⟩
  · exact absurd h (placeText_ne hs ht)
  · exact absurd h.symm (placeText_ne ht hs)
  · rw [placeText_of_int hs, placeText_of_int ht] at h
    exact ⟨by rw [hs, ht, toString_int_inj h], fun hnull => by simp [hs] at hnull⟩

/-- The ids of the scenarios of a feature, in their order. -/
def ids (f : Feature) : List String := f.numbered.map fun (s, index) => f.idOf index s

theorem length_ids : f.ids.length = f.scenarios.length := by simp [ids, numbered]

theorem getElem_ids {i : Nat} (h : i < f.ids.length) (hsize : i < f.scenarios.length) :
    f.ids[i] = f.idOf i f.scenarios[i] := by
  simp [ids, numbered]

theorem scenarioId_eq {i : Nat} (h : i < f.scenarios.length) :
    f.scenarioId i = .ok (f.idOf i f.scenarios[i]) := by
  have hposition : position? f.scenarios.length i = some i := by
    have hsize : (i : Int) < f.scenarios.length := by omega
    simp [position?, Int.not_lt.2 (Int.natCast_nonneg i), hsize]
  simp [scenarioId, hposition, h]

theorem map_scenarioId :
    ((List.range f.scenarios.length).map fun i : Nat => f.scenarioId i) = f.ids.map .ok := by
  apply List.ext_getElem
  · simp [length_ids]
  · intro i hi _
    have hsize : i < f.scenarios.length := by simpa using hi
    simp [scenarioId_eq hsize, getElem_ids _ hsize]

theorem Lined.nodup_ids (h : f.Lined) : f.ids.Nodup := by
  rw [List.Nodup, List.pairwise_iff_getElem]
  intro i j hi hj hij hsame
  have hi' : i < f.scenarios.length := length_ids (f := f) ▸ hi
  have hj' : j < f.scenarios.length := length_ids (f := f) ▸ hj
  rw [getElem_ids hi hi', getElem_ids hj hj'] at hsame
  have hinumber := h.numbers _ (List.getElem_mem hi')
  have hjnumber := h.numbers _ (List.getElem_mem hj')
  obtain ⟨-, hplace⟩ := idOf_inj hinumber hjnumber hsame
  obtain ⟨hline, hindex⟩ := eq_of_placeText hinumber hjnumber hplace
  have hnull := List.pairwise_iff_getElem.1 h.distinct i j _ _ hij hline
  have hpositions := hindex hnull
  omega

theorem Lined.disjoint_ids (hf : f.Lined) (hg : g.Lined) (h : f.location ≠ g.location) :
    f.ids.Disjoint g.ids := by
  intro id hid hid'
  obtain ⟨⟨s, i⟩, hs, rfl⟩ := List.mem_map.1 hid
  obtain ⟨⟨t, j⟩, ht, hsame⟩ := List.mem_map.1 hid'
  have hsnumber := hf.numbers s (List.fst_mem_of_mem_zipIdx hs)
  have htnumber := hg.numbers t (List.fst_mem_of_mem_zipIdx ht)
  exact h (idOf_inj htnumber hsnumber hsame).1.symm

/-- Every scenario of every feature has an id, and no two have the same, whatever the places and the
names of features are made of. -/
theorem distinct_ids {fs : List Feature} (hplaces : (fs.map location).Nodup)
    (hlines : ∀ f ∈ fs, f.Lined) :
    ∃ all : List String,
      (fs.flatMap fun f => (List.range f.scenarios.length).map fun i : Nat => f.scenarioId i) = all.map .ok ∧
      all.Nodup := by
  refine ⟨fs.flatMap ids, ?_, ?_⟩
  · rw [List.map_flatMap]
    exact List.flatMap_congr fun f _ => map_scenarioId
  · refine List.nodup_flatMap.2 ⟨fun f hf => (hlines f hf).nodup_ids, ?_⟩
    have hdiffer : fs.Pairwise fun f g => f.location ≠ g.location := List.pairwise_map.1 hplaces
    apply hdiffer.imp_of_mem
    intro f g hf hg hne
    exact (hlines f hf).disjoint_ids (hlines g hg) hne

/-- The place of one feature reads like an id of another. -/
theorem distinct_ids_sample :
    let scenario (line : Value) : Scenario := ⟨"booking", [], [], line⟩
    let desk : Feature := ⟨"desk", [scenario .null, scenario (.int 1)], [], some ""⟩
    let lobby : Feature := ⟨"lobby", [scenario (.int (-1)), scenario .null], [], some "desk:#1"⟩
    let all := ["desk:#1", "desk:1", "desk:#1:-1", "desk:#1:#2"]
    ([desk, lobby].map location).Nodup ∧ (∀ f ∈ [desk, lobby], f.Lined) ∧
      ([desk, lobby].flatMap fun f =>
        (List.range f.scenarios.length).map fun i : Nat => f.scenarioId i) = all.map .ok ∧ all.Nodup := by
  intro scenario desk lobby all
  have hplaces : ([desk, lobby].map location).Nodup := by decide
  have hlines : ∀ f ∈ [desk, lobby], f.Lined := by
    have hdesk : desk.Lined := ⟨by simp [desk, scenario], by simp [desk, scenario]⟩
    have hlobby : lobby.Lined := ⟨by simp [lobby, scenario], by simp [lobby, scenario]⟩
    simp [hdesk, hlobby]
  have hids : ([desk, lobby].flatMap fun f =>
      (List.range f.scenarios.length).map fun i : Nat => f.scenarioId i) = all.map .ok := by
    have hall : [desk, lobby].flatMap ids = all := by decide +kernel
    simp only [map_scenarioId]
    rw [← List.map_flatMap, hall]
  obtain ⟨found, hfound, hnodup⟩ := distinct_ids hplaces hlines
  have hsame : found = all := by
    have hok : Function.Injective (Except.ok : String → Except Fault String) := fun _ _ => Except.ok.inj
    exact List.map_injective_iff.2 hok (hfound.symm.trans hids)
  exact ⟨hplaces, hlines, hids, hsame ▸ hnodup⟩

end Feature
end Rehearsal
