import Rehearsal.Proofs.Scenario.Summary
import Rehearsal.Proofs.Surroundings
import Rehearsal.Proofs.Filter

/-! Hooks chosen by tags. The tags of a scenario are normal when it is made, and a filter normalizes them
once more before it looks for its terms among them. The two agree on a tag that begins with neither white
space nor `@`. A tag that begins so is not found by a filter of the same text, and one of which nothing is
left the second time is refused, in the middle of a run. -/

namespace Rehearsal
set_option autoImplicit false
open Rehearsal.Text

namespace TagFilter
variable {cs : List Char} {t n : String}

theorem splitTerms_of_not_mem (h : ',' ∉ cs) : splitTerms cs = [cs] :=
  splitTerms_eq_iff.2 (.last fun hin => h (hin.subset List.mem_cons_self))

theorem splitClauses_of_not_infix (h : ¬ ['&', '&'] <:+: cs) : splitClauses cs = [cs] :=
  splitClauses_eq_iff.2 (.last h)

theorem parse_of_term {term : TagTerm} (hcomma : ',' ∉ t.toList) (hand : ¬ ['&', '&'] <:+: t.toList)
    (h : parseTerm t t.toList = .ok term) : parse t = .ok ⟨t, [[term]]⟩ := by
  rw [parse, splitClauses_of_not_infix hand, List.mapM_cons, parseClause, splitTerms_of_not_mem hcomma,
    List.mapM_cons, h]
  rfl

/-- A text that is one tag is a filter that asks for it. -/
theorem parse_of_normalize (hn : Tag.normalize t = .ok n) (hcomma : ',' ∉ t.toList)
    (hand : ¬ ['&', '&'] <:+: t.toList) (hsign : (trim t.toList).head? ≠ some '~') :
    parse t = .ok ⟨t, [[⟨n, false⟩]]⟩ := by
  refine parse_of_term hcomma hand ?_
  obtain ⟨he, hne⟩ := Tag.normalize_eq_ok_iff.1 hn
  have hterm : Tag.normalize (String.ofList (trim t.toList)) = .ok n :=
    Tag.normalize_eq_ok_iff.2 ⟨by rw [String.toList_ofList, Tag.bare_trim, he], hne⟩
  rw [parseTerm]
  split
  · rename_i hnil
    rw [Tag.bare, hnil] at he
    exact absurd he.symm hne
  · rename_i heq
    rw [heq] at hsign
    exact absurd rfl hsign
  · rw [hterm]
    rfl

/-- With a sign before it the filter asks for the tag not to be there. -/
theorem parse_of_negated (hn : Tag.normalize t = .ok n) (hcomma : ',' ∉ t.toList)
    (hand : ¬ ['&', '&'] <:+: t.toList) :
    parse ("~" ++ t) = .ok ⟨"~" ++ t, [[⟨n, true⟩]]⟩ := by
  have hlist : ("~" ++ t).toList = '~' :: t.toList := by rw [String.toList_append]; rfl
  obtain ⟨he, hne⟩ := Tag.normalize_eq_ok_iff.1 hn
  have hterm : Tag.normalize (String.ofList (trimRight t.toList)) = .ok n :=
    Tag.normalize_eq_ok_iff.2 ⟨by rw [String.toList_ofList, Tag.bare_trimRight, he], hne⟩
  refine parse_of_term ?_ ?_ ?_
  · rw [hlist, List.mem_cons, not_or]
    exact ⟨by decide, hcomma⟩
  · rw [hlist, List.infix_cons_iff]
    rintro (hpre | hin)
    · exact absurd (List.cons_prefix_cons.1 hpre).1 (by decide)
    · exact hand hin
  · rw [parseTerm, hlist, trim_cons_of_not_blank (by decide)]
    exact congrArg (Except.map fun tag => TagTerm.mk tag true) hterm

variable {filter : TagFilter} {tags : List String}

theorem exists_accepts_iff :
    (∃ b, filter.accepts tags = .ok b) ↔ ∀ u ∈ tags, ∃ m, Tag.normalize u = .ok m := by
  rw [← exists_mapM_iff]
  constructor
  · rintro ⟨_, h⟩
    obtain ⟨active, ha, _⟩ := except_bind_eq_ok_iff.1 h
    exact ⟨active, ha⟩
  · rintro ⟨active, ha⟩
    exact ⟨_, except_bind_eq_ok_iff.2 ⟨active, ha, rfl⟩⟩

theorem accepts_single (source : String) (negated : Bool) :
    (⟨source, [[⟨n, negated⟩]]⟩ : TagFilter).accepts tags =
      (tags.mapM Tag.normalize).map fun active => active.contains n != negated := by
  rw [accepts]
  cases tags.mapM Tag.normalize with
  | error f => rfl
  | ok active => simp [holds, TagTerm.holds, Except.map, bind, Except.bind, pure, Except.pure]

end TagFilter

/-- Some text is among the tags that the scenario was made with, or its feature. -/
inductive Case.TaggedWith (t : String) (c : Case) : Prop where
  | scenario {v : Value} : c.scenario.MadeWith v → t ∈ v.texts → TaggedWith t c
  | feature {v : Value} {f : Feature} : c.feature = some f → f.MadeWith v → t ∈ v.texts → TaggedWith t c

theorem Feature.mem_effectiveTags_iff {f : Feature} {s : Scenario} {u : String} :
    u ∈ f.effectiveTags s ↔ u ∈ f.tags ∨ u ∈ s.tags := by
  rw [effectiveTags, mem_sortedSet, List.mem_append]

theorem Case.mem_tags_of_taggedWith {t n : String} {c : Case} (h : c.TaggedWith t)
    (hn : Tag.normalize t = .ok n) : n ∈ c.tags := by
  rw [tags]
  cases h with
  | scenario hs ht =>
    have hmem : n ∈ c.scenario.tags := (Scenario.mem_tagsOf_iff hs.tagsOf).2 ⟨t, ht, hn⟩
    cases c.feature with
    | none => exact hmem
    | some f => exact Feature.mem_effectiveTags_iff.2 (.inr hmem)
  | feature hf hm ht =>
    rw [hf]
    exact Feature.mem_effectiveTags_iff.2 (.inl ((Scenario.mem_tagsOf_iff hm.tagsOf).2 ⟨t, ht, hn⟩))

namespace Hook
variable {h h' : Hook} {tags : List String}

theorem appliesTo_of_filter {filter : TagFilter} (ht : h.tags = some filter) :
    h.appliesTo (some tags) = filter.accepts tags := by
  unfold appliesTo
  rw [ht]

theorem appliesTo_of_unfiltered (ht : h.tags = none) : h.appliesTo (some tags) = .ok true := by
  unfold appliesTo
  rw [ht]

theorem exists_appliesTo_iff :
    (∃ b, h.appliesTo (some tags) = .ok b) ↔
      h.tags = none ∨ ∀ u ∈ tags, ∃ m, Tag.normalize u = .ok m := by
  cases ht : h.tags with
  | none => exact iff_of_true ⟨true, appliesTo_of_unfiltered ht⟩ (.inl rfl)
  | some filter =>
    rw [appliesTo_of_filter ht]
    exact TagFilter.exists_accepts_iff.trans (or_iff_right nofun).symm

/-- The first hook applies to the tags, and the second does not. -/
def Parted (h h' : Hook) (tags : List String) : Prop :=
  h.appliesTo (some tags) = .ok true ∧ h'.appliesTo (some tags) = .ok false

/-- Hooks that ask for a tag, and for it not to be there, are told apart by the tags normalized once more. -/
theorem parted_single_iff {t t' n : String} (ht : h.tags = some ⟨t, [[⟨n, false⟩]]⟩)
    (ht' : h'.tags = some ⟨t', [[⟨n, true⟩]]⟩) :
    h.Parted h' tags ↔
      (∀ u ∈ tags, ∃ m, Tag.normalize u = .ok m) ∧ ∃ u ∈ tags, Tag.normalize u = .ok n := by
  rw [Parted, appliesTo_of_filter ht, appliesTo_of_filter ht', ← exists_mapM_iff,
    TagFilter.accepts_single, TagFilter.accepts_single]
  cases hm : tags.mapM Tag.normalize with
  | error f => simp [Except.map]
  | ok active => simp [Except.map, ← mem_iff_of_mapM_eq_ok hm]

end Hook

namespace Registry
variable {r : Registry} {phase : HookPhase} {tags : List String}

/-- Hooks are chosen unless there is a filter, and a tag that cannot be normalized once more. -/
theorem exists_lookup_some_iff :
    (∃ hooks, r.lookup phase (some tags) = .ok hooks) ↔
      (∀ h ∈ r.hooksOf phase, h.tags = none) ∨ ∀ u ∈ tags, ∃ m, Tag.normalize u = .ok m := by
  simp only [exists_lookup_iff, Hook.exists_appliesTo_iff, forall_or_right]

theorem chooses_iff_parted {h h' : Hook} {filter : TagFilter} (ht : h.tags = some filter)
    (hm : h ∈ r.hooksOf phase) (hm' : h' ∈ r.hooksOf phase) :
    (∃ hooks, r.lookup phase (some tags) = .ok hooks ∧ h ∈ hooks ∧ h' ∉ hooks) ↔ h.Parted h' tags := by
  constructor
  · rintro ⟨hooks, hl, hin, hout⟩
    obtain ⟨b, hb⟩ := exists_lookup_iff.1 ⟨hooks, hl⟩ h' hm'
    refine ⟨((mem_lookup_iff hl).1 hin).2, ?_⟩
    cases b with
    | false => exact hb
    | true => exact absurd ((mem_lookup_iff hl).2 ⟨hm', hb⟩) hout
  · rintro ⟨happlies, hnot⟩
    have hnormal : ∀ u ∈ tags, ∃ m, Tag.normalize u = .ok m :=
      (Hook.exists_appliesTo_iff.1 ⟨true, happlies⟩).resolve_left (ht ▸ nofun)
    obtain ⟨hooks, hl⟩ := exists_lookup_some_iff.2 (.inr hnormal)
    refine ⟨hooks, hl, (mem_lookup_iff hl).2 ⟨hm, happlies⟩, fun hin => ?_⟩
    cases hnot.symm.trans ((mem_lookup_iff hl).1 hin).2

end Registry

/-- For one tag, asked for by the text that a scenario or its feature is tagged with, a hook with that text
for a filter is chosen, and one with the text negated is not, when every tag of the scenario is normal once
more and one of them comes to that tag. Among tags that stay as they are, this is so when the tag itself
begins with neither white space nor an `@`. -/
theorem parts_hooks_iff_clear {t n : String} (hn : Tag.normalize t = .ok n) (hcomma : ',' ∉ t.toList)
    (hand : ¬ ['&', '&'] <:+: t.toList) (hsign : (trim t.toList).head? ≠ some '~') :
    ∃ filter opposite, TagFilter.parse t = .ok filter ∧ TagFilter.parse ("~" ++ t) = .ok opposite ∧
      ∀ (h h' : Hook) (c : Case), h.tags = some filter → h'.tags = some opposite → c.TaggedWith t →
        (h.Parted h' c.tags ↔
          (∀ u ∈ c.tags, ∃ m, Tag.normalize u = .ok m) ∧ ∃ u ∈ c.tags, Tag.normalize u = .ok n) ∧
        ((∀ u ∈ c.tags, u ≠ n → Tag.normalize u = .ok u) →
          (h.Parted h' c.tags ↔ Tag.IsClear n)) ∧
        ∀ (r : Registry) (phase : HookPhase), h ∈ r.hooksOf phase → h' ∈ r.hooksOf phase →
          ((∃ hooks, r.lookup phase (some c.tags) = .ok hooks ∧ h ∈ hooks ∧ h' ∉ hooks) ↔
            h.Parted h' c.tags) := by
  refine ⟨_, _, TagFilter.parse_of_normalize hn hcomma hand hsign,
    TagFilter.parse_of_negated hn hcomma hand, fun h h' c ht ht' hc => ?_⟩
  have hmem : n ∈ c.tags := Case.mem_tags_of_taggedWith hc hn
  have hiff : h.Parted h' c.tags ↔ _ := Hook.parted_single_iff ht ht'
  refine ⟨hiff, fun hothers => ?_, fun r phase hm hm' => Registry.chooses_iff_parted ht hm hm'⟩
  rw [hiff, ← Tag.normalize_again_iff hn]
  constructor
  · rintro ⟨_, u, hu, hun⟩
    by_cases he : u = n
    · rwa [he] at hun
    · exact absurd (Except.ok.inj ((hothers u hu he).symm.trans hun)) he
  · intro hself
    refine ⟨fun u hu => ?_, n, hmem, hself⟩
    by_cases he : u = n
    · exact ⟨n, he ▸ hself⟩
    · exact ⟨u, hothers u hu he⟩

/-- A hook that asks for `@slow` applies to a scenario tagged with `@slow`, and one that asks for `@@slow`
does not apply to a scenario tagged with `@@slow`. -/
theorem parts_hooks_iff_clear_sample :
    let hook (source tag : String) (negated : Bool) : Hook :=
      { Sample.hook .beforeScenario 1 "warm" with tags := some ⟨source, [[⟨tag, negated⟩]]⟩ }
    let scenario (tag : String) : Scenario := ⟨"booking", [], sortedSet [tag], .null⟩
    (scenario "slow").MadeWith (.list [.text "@slow"]) ∧
      (hook "@slow" "slow" false).Parted (hook "~@slow" "slow" true) ["slow"] ∧
      (scenario "@slow").MadeWith (.list [.text "@@slow"]) ∧
      ¬ (hook "@@slow" "@slow" false).Parted (hook "~@@slow" "@slow" true) ["@slow"] := by
  intro hook scenario
  have hclear : (scenario "slow").MadeWith (.list [.text "@slow"]) :=
    .parts (show Scenario.make "booking" [] (.list [.text "@slow"]) .null = .ok (scenario "slow") from rfl)
  have hunclear : (scenario "@slow").MadeWith (.list [.text "@@slow"]) :=
    .parts (show Scenario.make "booking" [] (.list [.text "@@slow"]) .null = .ok (scenario "@slow") from rfl)
  have halone : ∀ tag, (⟨"booking", scenario tag, none⟩ : Case).tags = [tag] := sortedSet_singleton
  refine ⟨hclear, ?_, hunclear, ?_⟩
  · obtain ⟨filter, opposite, hf, ho, hall⟩ := parts_hooks_iff_clear (t := "@slow") (n := "slow") rfl
      (by decide) (by decide) (by decide)
    cases (show TagFilter.parse "@slow" = .ok ⟨"@slow", [[⟨"slow", false⟩]]⟩ from rfl).symm.trans hf
    cases (show TagFilter.parse "~@slow" = .ok ⟨"~@slow", [[⟨"slow", true⟩]]⟩ from rfl).symm.trans ho
    obtain ⟨_, hiff, _⟩ := hall (hook "@slow" "slow" false) (hook "~@slow" "slow" true)
      ⟨"booking", scenario "slow", none⟩ rfl rfl (.scenario hclear (by decide))
    rw [halone] at hiff
    refine (hiff fun u hu hne => absurd (List.mem_singleton.1 hu) hne).2 fun c hc => ?_
    cases (show some 's' = some c from hc)
    decide
  · obtain ⟨filter, opposite, hf, ho, hall⟩ := parts_hooks_iff_clear (t := "@@slow") (n := "@slow") rfl
      (by decide) (by decide) (by decide)
    cases (show TagFilter.parse "@@slow" = .ok ⟨"@@slow", [[⟨"@slow", false⟩]]⟩ from rfl).symm.trans hf
    cases (show TagFilter.parse "~@@slow" = .ok ⟨"~@@slow", [[⟨"@slow", true⟩]]⟩ from rfl).symm.trans ho
    obtain ⟨_, hiff, _⟩ := hall (hook "@@slow" "@slow" false) (hook "~@@slow" "@slow" true)
      ⟨"booking", scenario "@slow", none⟩ rfl rfl (.scenario hunclear (by decide))
    rw [halone] at hiff
    rw [hiff fun u hu hne => absurd (List.mem_singleton.1 hu) hne]
    exact fun h => (h '@' rfl).1 rfl

namespace Executor
variable {x : Executor} {c : Case} {l l' : Ledger} {t : Trace}

theorem exists_lookup_of_cleanUp {a : Arena} (h : Ends (x.cleanUp c a) l t (.ok ()) l') :
    ∃ hooks, x.registry.lookup .afterScenario (some c.tags) = .ok hooks := by
  obtain ⟨_, _, _, _, _, _, h⟩ := ends_bind_ok_iff.1 h
  obtain ⟨_, _, _, _, _, h, _⟩ := ends_bind_ok_iff.1 (ends_get_bind_iff.1 h)
  obtain ⟨hooks, hl, _⟩ | ⟨_, _, _, he, _⟩ := Effect.ends_settle_bind_iff.1 h
  · exact ⟨hooks, hl⟩
  · cases he

/-- A run comes to a result only if hooks could be chosen for after the scenario, or if its contexts could
not be set up. -/
theorem chooses_of_run {scenario : Scenario} {feature : Option Feature} {id : Option String}
    {r : ScenarioResult} (h : (x.run scenario feature id).Runs t (.ok r)) :
    (∃ hooks, x.registry.lookup .afterScenario (some (Case.named scenario feature id).tags) = .ok hooks) ∨
      ∃ cause, r.error = some (x.setUpError (.named scenario feature id) cause) := by
  obtain ⟨l', hc⟩ := runs_run_iff.1 h
  generalize he : (Except.ok r : Except Fault ScenarioResult) = o at hc
  cases caseRun_of_ends hc with
  | refused => cases he
  | escaped => cases he
  | abandoned u v b hs ha hk =>
    subst he
    exact .inr ⟨_, (failed_abandon ha hk).2.2⟩
  | composed u v d hs hd hk =>
    subst he
    obtain ⟨_, _, _, _, _, _, _, _, _, _, _, _, _, hclean, ⟨_, rfl, _⟩ | ⟨_, _, _, he, _⟩⟩ :=
      ends_runComposed hk
    · exact .inl (exists_lookup_of_cleanUp hclean)
    · cases he

end Executor

/-- The tags made of a value can all be normalized once more when no text of it is hollow. -/
theorem Scenario.normal_iff_of_tagsOf {v : Value} {tags : List String} (h : tagsOf v = .ok tags) :
    (∀ u ∈ tags, ∃ m, Tag.normalize u = .ok m) ↔ ∀ t ∈ v.texts, ¬ Tag.IsHollow t := by
  constructor
  · intro hnormal t ht
    obtain ⟨n, hn⟩ := exists_normalize_of_mem_texts h ht
    exact (Tag.exists_normalize_again_iff hn).1 (hnormal n ((mem_tagsOf_iff h).2 ⟨t, ht, hn⟩))
  · intro hsolid u hu
    obtain ⟨t, ht, hn⟩ := (mem_tagsOf_iff h).1 hu
    exact (Tag.exists_normalize_again_iff hn).2 (hsolid t ht)

/-- For a feature and a scenario that were made, hooks are chosen in every phase unless there is a hook
with a filter and a text among the tags that is hollow. Where a hook after the scenario has a filter and
a text is hollow, no run of the scenario comes to a result, but for those whose contexts are not set up. -/
theorem selects_iff_solid {f : Feature} {s : Scenario} {v w : Value} (hf : f.MadeWith v)
    (hs : s.MadeWith w) (r : Registry) :
    ((∀ phase, (∃ hooks, r.lookup phase (some (f.effectiveTags s)) = .ok hooks) ∧
        ∃ hooks, r.lookup phase (some f.tags) = .ok hooks) ↔
      (∀ h ∈ r.registered, h.tags = none) ∨ ∀ t ∈ v.texts ++ w.texts, ¬ Tag.IsHollow t) ∧
    ∀ (x : Executor) (t : Trace) (id : Option String) (result : ScenarioResult), x.registry = r →
      (∃ h ∈ r.hooksOf .afterScenario, h.tags ≠ none) →
      (∃ t ∈ v.texts ++ w.texts, Tag.IsHollow t) →
      (x.run s (some f) id).Runs t (.ok result) →
        ∃ cause, result.error = some (x.setUpError (.named s (some f) id) cause) := by
  have hnormal : (∀ u ∈ f.effectiveTags s, ∃ m, Tag.normalize u = .ok m) ↔
      ∀ t ∈ v.texts ++ w.texts, ¬ Tag.IsHollow t := by
    simp only [Feature.mem_effectiveTags_iff, or_imp, forall_and, List.mem_append,
      Scenario.normal_iff_of_tagsOf hf.tagsOf, Scenario.normal_iff_of_tagsOf hs.tagsOf]
  constructor
  · constructor
    · intro hall
      rw [← hnormal]
      by_cases hfilter : ∀ h ∈ r.registered, h.tags = none
      · exact .inl hfilter
      · right
        push Not at hfilter
        obtain ⟨h, hm, ht⟩ := hfilter
        have hphase : h ∈ r.hooksOf h.phase := List.mem_filter.2 ⟨hm, beq_self_eq_true _⟩
        exact (Registry.exists_lookup_some_iff.1 (hall h.phase).1).resolve_left
          fun hnone => ht (hnone h hphase)
    · intro hcond phase
      have hpart : (∀ h ∈ r.hooksOf phase, h.tags = none) ∨
          ∀ u ∈ f.effectiveTags s, ∃ m, Tag.normalize u = .ok m :=
        hcond.imp (fun hnone h hm => hnone h (List.mem_filter.1 hm).1) hnormal.2
      exact ⟨Registry.exists_lookup_some_iff.2 hpart, Registry.exists_lookup_some_iff.2
        (hpart.imp_right fun hall u hu => hall u (Feature.mem_effectiveTags_iff.2 (.inl hu)))⟩
  · rintro x t id result rfl ⟨h, hm, ht⟩ ⟨text, htext, hhollow⟩ hrun
    refine (Executor.chooses_of_run hrun).resolve_left fun hchosen => ?_
    rcases Registry.exists_lookup_some_iff.1 hchosen with hnone | hall
    · exact ht (hnone h hm)
    · exact hnormal.1 hall text htext hhollow

/-- With a hook after the scenario that asks for `@slow`, hooks can be chosen for a scenario tagged `@slow`,
and not in every phase for one whose feature is tagged `@@`, which then comes to no result of its steps. -/
theorem selects_iff_solid_sample :
    let hook : Hook :=
      { Sample.hook .afterScenario 1 "tidy" with tags := some ⟨"@slow", [[⟨"slow", false⟩]]⟩ }
    let x := Sample.executor [hook]
    let plain : Feature := ⟨"bookings", [], sortedSet [], none⟩
    let hollow : Feature := ⟨"bookings", [], sortedSet ["@"], none⟩
    let scenario : Scenario := ⟨"booking", [], sortedSet ["slow"], .null⟩
    plain.MadeWith (.list []) ∧ hollow.MadeWith (.list [.text "@@"]) ∧
      scenario.MadeWith (.list [.text "@slow"]) ∧
      (∀ phase, ∃ hooks, x.registry.lookup phase (some (plain.effectiveTags scenario)) = .ok hooks) ∧
      (¬ ∀ phase, (∃ hooks, x.registry.lookup phase (some (hollow.effectiveTags scenario)) = .ok hooks) ∧
        ∃ hooks, x.registry.lookup phase (some hollow.tags) = .ok hooks) ∧
      ∀ (t : Trace) (id : Option String) (result : ScenarioResult),
        (x.run scenario (some hollow) id).Runs t (.ok result) →
        ∃ cause, result.error = some (x.setUpError (.named scenario (some hollow) id) cause) := by
  intro hook x plain hollow scenario
  have hplain : plain.MadeWith (.list []) := ⟨"bookings", [], none, rfl⟩
  have hhollow : hollow.MadeWith (.list [.text "@@"]) := ⟨"bookings", [], none, rfl⟩
  have hmade : scenario.MadeWith (.list [.text "@slow"]) :=
    .parts (show Scenario.make "booking" [] (.list [.text "@slow"]) .null = .ok scenario from rfl)
  have hgap : Tag.IsHollow "@@" := ⟨[], nofun, rfl⟩
  have hfilter : ¬ ∀ h ∈ x.registry.registered, h.tags = none :=
    fun h => nomatch h hook List.mem_cons_self
  refine ⟨hplain, hhollow, hmade, fun phase => ?_, fun hall => ?_, fun t id result hrun => ?_⟩
  · refine ((selects_iff_solid hplain hmade x.registry).1.2 (.inr fun t ht hsolid => ?_) phase).1
    cases List.mem_singleton.1 (show t ∈ ["@slow"] from ht)
    obtain ⟨gap, _, he⟩ := hsolid
    have hlast := congrArg List.getLast? he
    rw [List.getLast?_concat] at hlast
    exact absurd hlast (by decide)
  · rcases (selects_iff_solid hhollow hmade x.registry).1.1 hall with hnone | hsolid
    · exact hfilter hnone
    · exact hsolid "@@" (by decide) hgap
  · exact (selects_iff_solid hhollow hmade x.registry).2 x t id result rfl
      ⟨hook, by decide, nofun⟩ ⟨"@@", by decide, hgap⟩ hrun

end Rehearsal
