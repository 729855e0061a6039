import Mathlib.Data.List.Basic
import Rehearsal.Report.Plain

/-! Stacks of errors. Every error in a result or a datum has a stack, and all of them can be replaced at
once; the lengths of texts tell whether a rendering shows what they are replaced by. -/

namespace Rehearsal
set_option autoImplicit false

namespace Text

theorem one_le_length_quotedChar (q c : Char) : 1 ≤ (quotedChar q c).length := by
  unfold quotedChar codePointEscape
  repeat' split
  all_goals simp

theorem length_le_flatMap_quotedChar (q : Char) (cs : List Char) :
    cs.length ≤ (cs.flatMap (quotedChar q)).length := by
  induction cs with
  | nil => simp
  | cons c cs ih =>
    have hfirst := one_le_length_quotedChar q c
    rw [List.flatMap_cons, List.length_append, List.length_cons]
    omega

theorem length_le_quoted (s : String) : s.length ≤ (quoted s).length := by
  have hchars := length_le_flatMap_quotedChar (quoteFor s.toList) s.toList
  rw [String.length_toList] at hchars
  rw [quoted, String.length_ofList, quotedChars, List.length_cons, List.length_append]
  omega

theorem length_le_of_mem_intercalate {sep p : List Char} {ps : List (List Char)} (h : p ∈ ps) :
    p.length ≤ (sep.intercalate ps).length := by
  induction ps with
  | nil => simp at h
  | cons q ps ih =>
    cases ps with
    | nil => simp [List.mem_singleton.1 h, List.intercalate_singleton]
    | cons q' ps =>
      rw [List.intercalate_cons_cons, List.length_append, List.length_append]
      rcases List.mem_cons.1 h with rfl | h
      · omega
      · have hrest := ih h
        omega

theorem length_le_intercalate {sep t : String} {texts : List String} (h : t ∈ texts) :
    t.length ≤ (sep.intercalate texts).length := by
  have hmap : t.toList ∈ texts.map String.toList := List.mem_map_of_mem h
  have hlists : t.toList.length ≤ (sep.toList.intercalate (texts.map String.toList)).length :=
    length_le_of_mem_intercalate hmap
  rwa [← String.toList_intercalate, String.length_toList, String.length_toList] at hlists

end Text

namespace Datum
open Text

variable {t name : String} {texts : List String}

theorem length_le_tupleText (h : t ∈ texts) : t.length ≤ (tupleText texts).length := by
  unfold tupleText
  split
  · have hsame : t = _ := List.mem_singleton.1 h
    simp only [hsame, String.length_append]
    omega
  · have hin : t.length ≤ (String.intercalate ", " texts).length := length_le_intercalate h
    simp only [String.length_append]
    omega

theorem length_le_fieldsText {fields : List (String × String)} {field : String} (h : (field, t) ∈ fields) :
    t.length ≤ (fieldsText name fields).length := by
  have hin : field ++ "=" ++ t ∈ fields.map fun f => f.1 ++ "=" ++ f.2 := List.mem_map.2 ⟨_, h, rfl⟩
  have hjoined : (field ++ "=" ++ t).length ≤ (String.intercalate ", " _).length := length_le_intercalate hin
  simp only [fieldsText, String.length_append] at hjoined ⊢
  omega

end Datum

namespace Json

mutual

/-- The length of all texts and names. -/
def weight : Json → Nat
  | .str s => s.length
  | .arr items => itemsWeight items
  | .obj fields => fieldsWeight fields
  | _ => 0

def itemsWeight : List Json → Nat
  | [] => 0
  | j :: js => weight j + itemsWeight js

def fieldsWeight : List (String × Json) → Nat
  | [] => 0
  | (k, j) :: fs => k.length + weight j + fieldsWeight fs

end

variable {j : Json} {k : String}

theorem weight_le_of_item {items : List Json} (h : j ∈ items) : j.weight ≤ (Json.arr items).weight := by
  rw [weight]
  induction items with
  | nil => simp at h
  | cons j' items ih =>
    rw [itemsWeight]
    rcases List.mem_cons.1 h with rfl | h
    · omega
    · have hrest := ih h
      omega

theorem field_le_weight {fields : List (String × Json)} (h : (k, j) ∈ fields) :
    k.length + j.weight ≤ (Json.obj fields).weight := by
  rw [weight]
  induction fields with
  | nil => simp at h
  | cons f fields ih =>
    rw [fieldsWeight]
    rcases List.mem_cons.1 h with rfl | h
    · dsimp only
      omega
    · have hrest := ih h
      omega

theorem name_le_of_field {fields : List (String × Json)} (h : (k, j) ∈ fields) :
    k.length ≤ (Json.obj fields).weight :=
  Nat.le_trans (Nat.le_add_right _ _) (field_le_weight h)

theorem weight_le_of_field {fields : List (String × Json)} (h : (k, j) ∈ fields) :
    j.weight ≤ (Json.obj fields).weight :=
  Nat.le_trans (Nat.le_add_left _ _) (field_le_weight h)

end Json

theorem ne_nil_or_of_append {α : Type} {xs ys : List α} (h : xs ++ ys ≠ []) : xs ≠ [] ∨ ys ≠ [] := by
  by_contra hboth
  obtain ⟨hxs, hys⟩ := not_or.1 hboth
  exact h (by rw [not_not.1 hxs, not_not.1 hys, List.append_nil])

/-- How errors stand in a kind of results: results without errors stay as they are when stacks are replaced,
and the stack that errors get is shown, as JSON and in texts. -/
structure Shows {α : Type} (errors : α → List ErrorInfo) (withStacks : Option String → α → α)
    (json : α → Json) (text : α → String) : Prop where
  same : ∀ {stack x}, errors x = [] → withStacks stack x = x
  json : ∀ {s x}, errors x ≠ [] → s.length ≤ (json (withStacks (some s) x)).weight
  text : ∀ {s x}, errors x ≠ [] → s.length ≤ (text (withStacks (some s) x)).length

def ErrorInfo.withStack (stack : Option String) (e : ErrorInfo) : ErrorInfo := { e with stack := stack }

namespace StepResult

def errors (r : StepResult) : List ErrorInfo := r.error.toList

def withStacks (stack : Option String) (r : StepResult) : StepResult :=
  { r with error := r.error.map (.withStack stack) }

end StepResult

namespace HookResult

def errors (r : HookResult) : List ErrorInfo := r.error.toList

def withStacks (stack : Option String) (r : HookResult) : HookResult :=
  { r with error := r.error.map (.withStack stack) }

end HookResult

namespace ScenarioResult

def errors (r : ScenarioResult) : List ErrorInfo :=
  r.steps.flatMap StepResult.errors ++ r.hooks.flatMap HookResult.errors ++ r.error.toList

def withStacks (stack : Option String) (r : ScenarioResult) : ScenarioResult :=
  { r with
    steps := r.steps.map (.withStacks stack)
    hooks := r.hooks.map (.withStacks stack)
    error := r.error.map (.withStack stack) }

end ScenarioResult

namespace FeatureResult

def errors (r : FeatureResult) : List ErrorInfo :=
  r.scenarios.flatMap ScenarioResult.errors ++ r.hooks.flatMap HookResult.errors

def withStacks (stack : Option String) (r : FeatureResult) : FeatureResult :=
  { r with scenarios := r.scenarios.map (.withStacks stack), hooks := r.hooks.map (.withStacks stack) }

end FeatureResult

namespace SuiteResult

def errors (r : SuiteResult) : List ErrorInfo :=
  r.features.flatMap FeatureResult.errors ++ r.hooks.flatMap HookResult.errors

def withStacks (stack : Option String) (r : SuiteResult) : SuiteResult :=
  { r with features := r.features.map (.withStacks stack), hooks := r.hooks.map (.withStacks stack) }

end SuiteResult

namespace Record

def errors : Record → List ErrorInfo
  | stage _ => []
  | step r => r.errors
  | hook r => r.errors
  | scenario r => r.errors
  | feature r => r.errors
  | suite r => r.errors
  | error e => [e]

def withStacks (stack : Option String) : Record → Record
  | stage e => stage e
  | step r => step (r.withStacks stack)
  | hook r => hook (r.withStacks stack)
  | scenario r => scenario (r.withStacks stack)
  | feature r => feature (r.withStacks stack)
  | suite r => suite (r.withStacks stack)
  | error e => error (e.withStack stack)

end Record

namespace Shows
open Datum Report Json

variable {α : Type} {errors : α → List ErrorInfo} {withStacks : Option String → α → α} {json : α → Json}
  {text : α → String}

theorem error : Shows (fun e => [e]) ErrorInfo.withStack ofError errorText where
  same h := by simp at h
  json {s e} _ := by
    have hstack : ("stack", Json.str s) ∈ errorFields (e.withStack (some s)) := by
      simp [errorFields, ErrorInfo.withStack, Json.ofOption]
    exact weight_le_of_field hstack
  text {s e} _ := by
    have hstack : ("stack", Text.quoted s) ∈ [("type", Text.quoted e.kind), ("message", Text.quoted e.message),
        ("where", Text.quoted e.place), ("stack", Text.quoted s)] := by simp
    exact Nat.le_trans (Text.length_le_quoted s) (length_le_fieldsText hstack)

theorem optional : Shows Option.toList (fun stack => Option.map (ErrorInfo.withStack stack))
    (Json.ofOption ofError) (optionText errorText) where
  same h := by simp [Option.toList_eq_nil_iff.1 h]
  json {s x} h := by
    cases x with
    | none => exact absurd rfl h
    | some e => exact error.json h
  text {s x} h := by
    cases x with
    | none => exact absurd rfl h
    | some e => exact error.text h

theorem list (h : Shows errors withStacks json text) : Shows (List.flatMap errors)
    (fun stack => List.map (withStacks stack)) (Json.ofList json) (fun xs => tupleText (xs.map text)) where
  same {stack xs} hnone := by
    rw [List.flatMap_eq_nil_iff] at hnone
    exact (List.map_congr_left fun x hx => h.same (hnone x hx)).trans (List.map_id xs)
  json {s xs} hsome := by
    rw [ne_eq, List.flatMap_eq_nil_iff] at hsome
    push Not at hsome
    obtain ⟨x, hx, hne⟩ := hsome
    have hin : json (withStacks (some s) x) ∈ (xs.map (withStacks (some s))).map json :=
      List.mem_map_of_mem (List.mem_map_of_mem hx)
    exact Nat.le_trans (h.json hne) (weight_le_of_item hin)
  text {s xs} hsome := by
    rw [ne_eq, List.flatMap_eq_nil_iff] at hsome
    push Not at hsome
    obtain ⟨x, hx, hne⟩ := hsome
    have hin : text (withStacks (some s) x) ∈ (xs.map (withStacks (some s))).map text :=
      List.mem_map_of_mem (List.mem_map_of_mem hx)
    exact Nat.le_trans (h.text hne) (length_le_tupleText hin)

variable {x : α} {s k name : String}

theorem field_json (h : Shows errors withStacks json text) (hx : errors x ≠ []) {fields : List (String × Json)}
    (hin : (k, json (withStacks (some s) x)) ∈ fields) : s.length ≤ (Json.obj fields).weight :=
  Nat.le_trans (h.json hx) (weight_le_of_field hin)

theorem field_text (h : Shows errors withStacks json text) (hx : errors x ≠ []) {fields : List (String × String)}
    (hin : (k, text (withStacks (some s) x)) ∈ fields) : s.length ≤ (fieldsText name fields).length :=
  Nat.le_trans (h.text hx) (length_le_fieldsText hin)

theorem step : Shows StepResult.errors StepResult.withStacks (fun r => .obj (stepFields r)) stepText where
  same h := by rw [StepResult.withStacks, optional.same h]
  json h := optional.field_json (k := "error") h (by simp [stepFields, StepResult.withStacks])
  text h := optional.field_text (k := "error") h (by simp [StepResult.withStacks])

theorem hook : Shows HookResult.errors HookResult.withStacks (fun r => .obj (hookFields r)) hookText where
  same h := by rw [HookResult.withStacks, optional.same h]
  json h := optional.field_json (k := "error") h (by simp [hookFields, HookResult.withStacks])
  text h := optional.field_text (k := "error") h (by simp [HookResult.withStacks])

theorem scenario : Shows ScenarioResult.errors ScenarioResult.withStacks (fun r => .obj (scenarioFields r))
    scenarioText where
  same h := by
    obtain ⟨h, herror⟩ := List.append_eq_nil_iff.1 h
    obtain ⟨hsteps, hhooks⟩ := List.append_eq_nil_iff.1 h
    rw [ScenarioResult.withStacks, step.list.same hsteps, hook.list.same hhooks, optional.same herror]
  json h := by
    rcases ne_nil_or_of_append h with h | herror
    · rcases ne_nil_or_of_append h with hsteps | hhooks
      · exact step.list.field_json (k := "steps") hsteps (by simp [scenarioFields, ScenarioResult.withStacks])
      · exact hook.list.field_json (k := "hooks") hhooks
          (by simp [scenarioFields, ofHooks, ScenarioResult.withStacks])
    · exact optional.field_json (k := "error") herror (by simp [scenarioFields, ScenarioResult.withStacks])
  text h := by
    rcases ne_nil_or_of_append h with h | herror
    · rcases ne_nil_or_of_append h with hsteps | hhooks
      · exact step.list.field_text (k := "steps") hsteps (by simp [ScenarioResult.withStacks])
      · exact hook.list.field_text (k := "hooks") hhooks (by simp [ScenarioResult.withStacks])
    · exact optional.field_text (k := "error") herror (by simp [ScenarioResult.withStacks])

theorem feature : Shows FeatureResult.errors FeatureResult.withStacks (fun r => .obj (featureFields r))
    featureText where
  same h := by
    obtain ⟨hscenarios, hhooks⟩ := List.append_eq_nil_iff.1 h
    rw [FeatureResult.withStacks, scenario.list.same hscenarios, hook.list.same hhooks]
  json h := by
    rcases ne_nil_or_of_append h with hscenarios | hhooks
    · exact scenario.list.field_json (k := "scenarios") hscenarios
        (by simp [featureFields, FeatureResult.withStacks])
    · exact hook.list.field_json (k := "hooks") hhooks
        (by simp [featureFields, ofHooks, FeatureResult.withStacks])
  text h := by
    rcases ne_nil_or_of_append h with hscenarios | hhooks
    · exact scenario.list.field_text (k := "scenarios") hscenarios (by simp [FeatureResult.withStacks])
    · exact hook.list.field_text (k := "hooks") hhooks (by simp [FeatureResult.withStacks])

theorem suite : Shows SuiteResult.errors SuiteResult.withStacks (fun r => .obj (suiteFields r)) suiteText where
  same h := by
    obtain ⟨hfeatures, hhooks⟩ := List.append_eq_nil_iff.1 h
    rw [SuiteResult.withStacks, feature.list.same hfeatures, hook.list.same hhooks]
  json h := by
    rcases ne_nil_or_of_append h with hfeatures | hhooks
    · exact feature.list.field_json (k := "features") hfeatures (by simp [suiteFields, SuiteResult.withStacks])
    · exact hook.list.field_json (k := "hooks") hhooks (by simp [suiteFields, ofHooks, SuiteResult.withStacks])
  text h := by
    rcases ne_nil_or_of_append h with hfeatures | hhooks
    · exact feature.list.field_text (k := "features") hfeatures (by simp [SuiteResult.withStacks])
    · exact hook.list.field_text (k := "hooks") hhooks (by simp [SuiteResult.withStacks])

theorem record : Shows Record.errors Record.withStacks (fun r => .obj (fields r)) recordText where
  same {stack r} h := by
    cases r with
    | stage e => rfl
    | step r => exact congrArg Record.step (step.same h)
    | hook r => exact congrArg Record.hook (hook.same h)
    | scenario r => exact congrArg Record.scenario (scenario.same h)
    | feature r => exact congrArg Record.feature (feature.same h)
    | suite r => exact congrArg Record.suite (suite.same h)
    | error e => exact absurd h (List.cons_ne_nil e [])
  json {s r} h := by
    cases r with
    | stage e => exact absurd rfl h
    | step r => exact step.json h
    | hook r => exact hook.json h
    | scenario r => exact scenario.json h
    | feature r => exact feature.json h
    | suite r => exact suite.json h
    | error e => exact error.json h
  text {s r} h := by
    cases r with
    | stage e => exact absurd rfl h
    | step r => exact step.text h
    | hook r => exact hook.text h
    | scenario r => exact scenario.text h
    | feature r => exact feature.text h
    | suite r => exact suite.text h
    | error e => exact error.text h

end Shows
end Rehearsal
