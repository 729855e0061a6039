import Mathlib.Data.List.Nodup
import Rehearsal.Proofs.Bootstrap.Acceptance
import Rehearsal.Proofs.Matching
import Rehearsal.Proofs.Registration

/-! Which definitions a match depends on. Of those that take the text only the ones of the highest
priority count, the leaders: with one of them it is chosen, with more the match is ambiguous, or the
first is chosen and the tie is told. So neither other definitions nor, where a tie is an error, the
order of definitions matters. In a registry no two leaders have the same pattern. -/

namespace Rehearsal
set_option autoImplicit false

namespace StepDefinition
variable {d d' : StepDefinition}

/-- The pattern of the definition takes the whole text. -/
def takes (d : StepDefinition) (text : String) : Bool := (d.pattern.fullMatch? text).isSome

theorem Made.compile (h : d.Made) : Pattern.compile d.source = .ok d.pattern := by
  obtain ⟨_, _, _, _, _, _, _, hm⟩ := h
  exact (of_make hm).2.1

/-- The text of a pattern says what the pattern is. -/
theorem Made.pattern_eq (h : d.Made) (h' : d'.Made) (he : d.source = d'.source) :
    d.pattern = d'.pattern := by
  have hp := h.compile
  rw [he] at hp
  exact Except.ok.inj (hp.symm.trans h'.compile)

end StepDefinition

namespace Matcher
variable {m : Matcher} {text : String} {d : StepDefinition} {ds ds' : List StepDefinition}

/-- The definition takes the text, and none of higher priority does. -/
def leads (text : String) (ds : List StepDefinition) (d : StepDefinition) : Bool :=
  d.takes text && ds.all fun d' => !d'.takes text || decide (d'.priority ≤ d.priority)

theorem leads_iff : leads text ds d = true ↔
    d.takes text = true ∧ ∀ d' ∈ ds, d'.takes text = true → d'.priority ≤ d.priority := by
  simp only [leads, Bool.and_eq_true, List.all_eq_true, Bool.or_eq_true, Bool.not_eq_true',
    decide_eq_true_eq, ← Bool.not_eq_true, imp_iff_not_or]

/-- The definitions of the highest priority among those that take the text. -/
def leaders (text : String) (ds : List StepDefinition) : List StepDefinition :=
  ds.filter (leads text ds)

/-- All leaders are of one priority. -/
theorem priority_eq_of_mem_leaders {d' : StepDefinition} (h : d ∈ leaders text ds)
    (h' : d' ∈ leaders text ds) : d.priority = d'.priority := by
  obtain ⟨hm, hl⟩ := List.mem_filter.1 h
  obtain ⟨hm', hl'⟩ := List.mem_filter.1 h'
  obtain ⟨ht, htop⟩ := leads_iff.1 hl
  obtain ⟨ht', htop'⟩ := leads_iff.1 hl'
  exact Int.le_antisymm (htop' d hm ht) (htop d' hm' ht')

theorem map_candidatesFrom (text : String) (start : Nat) (ds : List StepDefinition) :
    (candidatesFrom text start ds).map (fun c => (c.definition, c.order)) =
      (ds.zipIdx start).filter (·.1.takes text) := by
  induction ds generalizing start with
  | nil => rfl
  | cons d ds ih =>
    rw [candidatesFrom, List.zipIdx_cons, List.filter_cons, StepDefinition.takes, ← ih]
    cases d.pattern.fullMatch? text <;> rfl

theorem le_topPriority {b c : Candidate} {cs : List Candidate} (h : b ∈ c :: cs) :
    b.definition.priority ≤ topPriority c cs := by
  have hfold : ∀ (cs : List Candidate) (p : Int),
      p ≤ cs.foldl (fun p c => max p c.definition.priority) p ∧
        ∀ b ∈ cs, b.definition.priority ≤
          cs.foldl (fun p c => max p c.definition.priority) p := by
    intro cs
    induction cs with
    | nil => exact fun p => ⟨Int.le_refl p, List.forall_mem_nil _⟩
    | cons c cs ih =>
      intro p
      obtain ⟨hp, hall⟩ := ih (max p c.definition.priority)
      exact ⟨Int.le_trans (Int.le_max_left _ _) hp,
        List.forall_mem_cons.2 ⟨Int.le_trans (Int.le_max_right _ _) hp, hall⟩⟩
  rcases List.mem_cons.1 h with rfl | h
  · exact (hfold cs _).1
  · exact (hfold cs _).2 b h

/-- The candidates that count are the leaders, each with its place. -/
theorem map_best (text : String) (ds : List StepDefinition) :
    (best (candidates text ds)).map (fun c => (c.definition, c.order)) =
      ds.zipIdx.filter (leads text ds ·.1) := by
  have hmap := map_candidatesFrom text 0 ds
  have hmem : ∀ d ∈ ds, d.takes text = true → ∃ b ∈ candidates text ds, b.definition = d := by
    intro d hd ht
    obtain ⟨i, hi⟩ := List.mem_iff_getElem?.1 hd
    have hp : (d, i) ∈ ds.zipIdx.filter (·.1.takes text) :=
      List.mem_filter.2 ⟨List.mem_zipIdx_iff_getElem?.2 hi, ht⟩
    rw [← hmap] at hp
    obtain ⟨b, hb, he⟩ := List.mem_map.1 hp
    exact ⟨b, hb, congrArg Prod.fst he⟩
  have hsome : ∀ b ∈ candidates text ds, b.definition ∈ ds ∧ b.definition.takes text = true := by
    intro b hb
    obtain ⟨i, _, hi, hg⟩ := getElem?_of_mem_candidatesFrom hb
    exact ⟨List.mem_of_getElem? hi, by rw [StepDefinition.takes, hg]; rfl⟩
  change (candidates text ds).map _ = _ at hmap
  cases hcs : candidates text ds with
  | nil =>
    rw [hcs] at hmem
    refine (List.filter_eq_nil_iff.2 fun p hp hl => ?_).symm
    have hd : p.1 ∈ ds := List.fst_mem_of_mem_zipIdx hp
    obtain ⟨b, hb, _⟩ := hmem p.1 hd (leads_iff.1 hl).1
    cases hb
  | cons c cs =>
    rw [hcs] at hmem hsome hmap
    rw [best, show (fun b : Candidate => b.definition.priority == topPriority c cs) =
      (fun p : StepDefinition × Nat => p.1.priority == topPriority c cs) ∘
        fun b => (b.definition, b.order) from rfl, ← List.filter_map, hmap, List.filter_filter]
    refine List.filter_congr fun p hp => ?_
    rw [Bool.eq_iff_iff, Bool.and_eq_true, beq_iff_eq, leads_iff]
    constructor
    · rintro ⟨htop, ht⟩
      refine ⟨ht, fun d' hd' ht' => ?_⟩
      obtain ⟨b, hb, rfl⟩ := hmem d' hd' ht'
      exact htop ▸ le_topPriority hb
    · rintro ⟨ht, hall⟩
      refine ⟨Int.le_antisymm ?_ ?_, ht⟩
      · obtain ⟨b, hb, he⟩ := hmem p.1 (List.fst_mem_of_mem_zipIdx hp) ht
        exact he ▸ le_topPriority hb
      · obtain ⟨b, hb, he⟩ := exists_topPriority c cs
        exact he ▸ hall _ (hsome b hb).1 (hsome b hb).2

theorem map_definition_best (text : String) (ds : List StepDefinition) :
    (best (candidates text ds)).map (·.definition) = leaders text ds := by
  have h := congrArg (List.map Prod.fst) (map_best text ds)
  rw [List.map_map] at h
  refine h.trans ?_
  rw [show (fun p : StepDefinition × Nat => leads text ds p.1) = leads text ds ∘ Prod.fst from rfl,
    ← List.filter_map, List.zipIdx_map_fst]
  rfl

/-- What matching a text comes to: no leader, one, or more, of which the first stands before all others. -/
theorem matchText_cases (m : Matcher) (text : String) (ds : List StepDefinition) :
    (leaders text ds = [] ∧ m.matchText text ds = ⟨[], .ok none⟩) ∨
      ∃ c ∈ candidates text ds, ∃ rest, leaders text ds = c.definition :: rest ∧
        (∃ pre post, ds = pre ++ c.definition :: post ∧ c.order = pre.length ∧
          ∀ d ∈ pre, leads text ds d = false) ∧
        m.matchText text ds =
          if rest = [] then ⟨[], m.choose c⟩
          else match m.ambiguity with
            | .error => ⟨[], .error (.ambiguousMatch text ((leaders text ds).map (·.source)))⟩
            | .first => ⟨(leaders text ds).map (·.source), m.choose c⟩ := by
  have hbest := map_best text ds
  have hleaders := map_definition_best text ds
  have hfirst : ∀ {c : Candidate} {cs : List Candidate}, best (candidates text ds) = c :: cs →
      ∃ pre post, ds = pre ++ c.definition :: post ∧ c.order = pre.length ∧
        ∀ d ∈ pre, leads text ds d = false := by
    intro c cs hb
    rw [hb, List.map_cons, eq_comm, List.filter_eq_cons_iff] at hbest
    obtain ⟨l, l', hzip, hpre, _, _⟩ := hbest
    obtain ⟨pre, tail, rfl, rfl, htail⟩ := List.zipIdx_eq_append_iff.1 hzip
    obtain ⟨d, post, rfl, hd, _⟩ := List.zipIdx_eq_cons_iff.1 htail.symm
    obtain ⟨rfl, ho⟩ := Prod.mk.inj hd
    refine ⟨pre, post, rfl, by rw [ho, Nat.zero_add], fun d' hd' => ?_⟩
    obtain ⟨i, hi⟩ := List.mem_iff_getElem?.1 hd'
    simpa using hpre (d', i) (List.mem_zipIdx_iff_getElem?.2 hi)
  cases hb : best (candidates text ds) with
  | nil =>
    rw [hb] at hleaders
    exact .inl ⟨hleaders.symm, by rw [matchText, hb]⟩
  | cons c cs =>
    rw [hb, List.map_cons] at hleaders
    have hc : c ∈ candidates text ds := mem_of_mem_best (by rw [hb]; exact List.mem_cons_self)
    refine .inr ⟨c, hc, cs.map (·.definition), hleaders.symm, hfirst hb, ?_⟩
    rw [matchText, hb, ← hleaders]
    cases cs with
    | nil => rfl
    | cons c' cs => cases m.ambiguity <;> simp

/-- Whether a definition is in a list says nothing of matching: it does not take the text, or one of a
higher priority does. -/
def Idle (text : String) (ds : List StepDefinition) (d : StepDefinition) : Prop :=
  d.takes text = false ∨ ∃ d' ∈ ds, d'.takes text = true ∧ d.priority < d'.priority

/-- One list of definitions becomes another when their order changes, and idle ones are added or removed. -/
inductive Rearranged (text : String) : List StepDefinition → List StepDefinition → Prop where
  | perm {ds ds' : List StepDefinition} : ds.Perm ds' → Rearranged text ds ds'
  | add {pre post : List StepDefinition} {d : StepDefinition} :
      Idle text (pre ++ post) d → Rearranged text (pre ++ post) (pre ++ d :: post)
  | symm {ds ds' : List StepDefinition} : Rearranged text ds ds' → Rearranged text ds' ds
  | trans {ds ds' ds'' : List StepDefinition} :
      Rearranged text ds ds' → Rearranged text ds' ds'' → Rearranged text ds ds''

theorem leaders_perm (h : ds.Perm ds') : (leaders text ds).Perm (leaders text ds') := by
  have hleads : leads text ds = leads text ds' := by
    funext d
    rw [Bool.eq_iff_iff, leads_iff, leads_iff]
    simp only [h.mem_iff]
  rw [leaders, leaders, hleads]
  exact h.filter _

theorem leaders_add {pre post : List StepDefinition} (h : Idle text (pre ++ post) d) :
    leaders text (pre ++ d :: post) = leaders text (pre ++ post) := by
  have hmem : ∀ {d'}, d' ∈ pre ++ d :: post ↔ d' = d ∨ d' ∈ pre ++ post := by
    intro d'
    simp only [List.mem_append, List.mem_cons, or_left_comm]
  have hout : leads text (pre ++ d :: post) d = false := by
    rw [← Bool.not_eq_true, leads_iff]
    rintro ⟨ht, hall⟩
    rcases h with hf | ⟨e, he, hte, hlt⟩
    · exact absurd (ht.symm.trans hf) nofun
    · exact Int.not_le.2 hlt (hall e (hmem.2 (.inr he)) hte)
  have hrest : leads text (pre ++ d :: post) = leads text (pre ++ post) := by
    funext d'
    rw [Bool.eq_iff_iff, leads_iff, leads_iff]
    refine and_congr_right fun _ => ⟨fun hall e he => hall e (hmem.2 (.inr he)), fun hall e he hte => ?_⟩
    rcases hmem.1 he with rfl | he
    · rcases h with hf | ⟨e', he', hte', hlt⟩
      · exact absurd (hte.symm.trans hf) nofun
      · exact Int.le_trans (Int.le_of_lt hlt) (hall e' he' hte')
    · exact hall e he hte
  rw [leaders, leaders, ← hrest, List.filter_append, List.filter_cons_of_neg (by simp [hout]),
    ← List.filter_append]

/-- What a list becomes has the same leaders, in some order. -/
theorem Rearranged.leaders_perm (h : Rearranged text ds ds') :
    (leaders text ds).Perm (leaders text ds') := by
  induction h with
  | perm h => exact Matcher.leaders_perm h
  | add h => rw [leaders_add h]
  | symm _ ih => exact ih.symm
  | trans _ _ ih ih' => exact ih.trans ih'

/-- Two outcomes of matching differ in the place of the definition and in the order of patterns only. -/
inductive Alike : Except Fault (Option StepMatch) → Except Fault (Option StepMatch) → Prop where
  | none : Alike (.ok none) (.ok none)
  | found (i j : Nat) (d : StepDefinition) (args : List Value) :
      Alike (.ok (some ⟨i, d, args⟩)) (.ok (some ⟨j, d, args⟩))
  | failed (f : Fault) : Alike (.error f) (.error f)
  | ambiguous (text : String) {ps qs : List String} : ps.Perm qs →
      Alike (.error (.ambiguousMatch text ps)) (.error (.ambiguousMatch text qs))

theorem alike_choose {c c' : Candidate} (hc : c ∈ candidates text ds) (hc' : c' ∈ candidates text ds')
    (h : c.definition = c'.definition) : Alike (m.choose c) (m.choose c') := by
  obtain ⟨_, _, _, hg⟩ := getElem?_of_mem_candidatesFrom hc
  obtain ⟨_, _, _, hg'⟩ := getElem?_of_mem_candidatesFrom hc'
  have hgroups : c.groups = c'.groups := Option.some.inj (hg.symm.trans (h ▸ hg'))
  rw [choose, choose, h, hgroups]
  cases m.coercions.coerce c'.definition c'.groups m.autoCoerce with
  | ok args => exact .found _ _ _ args
  | error f => exact .failed f

/-- Where a tie is an error, what matching comes to depends on the leaders alone. -/
theorem alike_of_leaders_perm (hm : m.ambiguity = .error)
    (h : (leaders text ds).Perm (leaders text ds')) :
    Alike (m.matchText text ds).result (m.matchText text ds').result := by
  rcases matchText_cases m text ds with ⟨hnil, hr⟩ | ⟨c, hc, rest, hl, _, hr⟩
  · rw [hnil] at h
    rcases matchText_cases m text ds' with ⟨_, hr'⟩ | ⟨c', _, rest', hl', _⟩
    · rw [hr, hr']
      exact .none
    · rw [hl'] at h
      cases h.nil_eq
  · rcases matchText_cases m text ds' with ⟨hnil, _⟩ | ⟨c', hc', rest', hl', _, hr'⟩
    · rw [hl, hnil] at h
      cases h.symm.nil_eq
    · have hlength : rest.length = rest'.length := by
        have := h.length_eq
        rw [hl, hl'] at this
        exact Nat.succ.inj this
      have hnil : rest = [] ↔ rest' = [] := by
        rw [← List.length_eq_zero_iff, hlength, List.length_eq_zero_iff]
      rw [hr, hr', hm]
      by_cases hrest : rest = []
      · rw [if_pos hrest, if_pos (hnil.1 hrest)]
        rw [hl, hl', hrest, hnil.1 hrest] at h
        exact alike_choose hc hc' (List.singleton_perm_singleton.1 h)
      · rw [if_neg hrest, if_neg (mt hnil.2 hrest)]
        exact .ambiguous text (h.map _)

/-- Definitions that were made and have keys of their own have, as leaders, patterns of their own. -/
theorem nodup_leaders (hmade : ∀ d ∈ ds, d.Made) (hkeys : (ds.map StepDefinition.key).Nodup) :
    ((leaders text ds).map (·.source)).Nodup := by
  have hsub : ∀ {d}, d ∈ leaders text ds → d ∈ ds := fun h => (List.mem_filter.1 h).1
  have hnodup : (leaders text ds).Nodup := List.Nodup.filter _ (List.Nodup.of_map _ hkeys)
  refine List.Nodup.map_on (fun d hd d' hd' he => ?_) hnodup
  refine List.inj_on_of_nodup_map hkeys (hsub hd) (hsub hd') ?_
  have hpattern : d.pattern = d'.pattern := (hmade d (hsub hd)).pattern_eq (hmade d' (hsub hd')) he
  rw [StepDefinition.key, StepDefinition.key, he, priority_eq_of_mem_leaders hd hd',
    StepDefinition.arity, hpattern]
  rfl

end Matcher

namespace Registry
variable {r : Registry}

theorem mem_of_mem_accepted {ops : List Operation} {item : Item} (h : item ∈ r.accepted ops) :
    ∃ op ∈ ops, item ∈ op.items := by
  induction ops generalizing r with
  | nil => cases h
  | cons op ops ih =>
    rcases List.mem_append.1 h with h | h
    · obtain ⟨rest, heq, _⟩ := registerAll_cases r op.items
      exact ⟨op, List.mem_cons_self, heq ▸ List.mem_append_left rest h⟩
    · obtain ⟨op', hm, hi⟩ := ih h
      exact ⟨op', List.mem_cons_of_mem op hm, hi⟩

theorem made_of_mem_after {ops : List Operation} (h : ∀ op ∈ ops, ∀ item ∈ op.items, item.Made)
    {d : StepDefinition} (hd : d ∈ (empty.after ops).definitions) : d.Made := by
  rw [(holds_empty.after ops).definitions] at hd
  obtain ⟨item, hi, hd⟩ := List.mem_filterMap.1 hd
  obtain ⟨op, hop, hi⟩ := mem_of_mem_accepted hi
  cases item with
  | step d' =>
    cases hd
    exact h op hop _ hi
  | hook k => cases hd
  | other kind => cases hd

end Registry

/-- Where ties are told to the caller, one is told by one request, and nothing by none. -/
theorem Executor.requests_of_tell {x : Executor} {text : String} {patterns : List String}
    {l l' : Ledger} {t : Trace} {o : Except Fault Unit} (hx : x.ties = .caller)
    (h : Ends (x.tell text patterns) l t o l') :
    t.map (·.request) = if patterns = [] then [] else [.tie text patterns] := by
  unfold tell at h
  cases patterns with
  | nil =>
    obtain ⟨rfl, _⟩ := ends_pure_iff.1 h
    rfl
  | cons p ps =>
    rw [hx] at h
    obtain ⟨_, _, _, rfl, _⟩ := Effect.ends_perform_proceed_iff.1 h
    rfl

/-- Where a tie is an error, matching comes to the same for a list of definitions when its order changes
and when definitions are added or removed that do not take the text, or stand below one that does. Where
the first counts, it is the first of the highest priority among those that take the text, and a tie is
told once, and nothing else. In a registry the patterns that are tied are different ones. -/
theorem Matcher.depends_on_leaders (text : String) :
    (∀ (m : Matcher) (ds ds' : List StepDefinition), m.ambiguity = .error → Rearranged text ds ds' →
      Alike (m.matchText text ds).result (m.matchText text ds').result) ∧
    (∀ (x : Executor) (ds : List StepDefinition), x.matcher.ambiguity = .first →
      let matched := x.matcher.matchText text ds
      ((∀ d ∈ ds, d.takes text = false) ∧ matched.result = .ok none ∨
        ∃ pre d post groups, ds = pre ++ d :: post ∧ d.pattern.fullMatch? text = some groups ∧
          (∀ d' ∈ ds, d'.takes text = true → d'.priority ≤ d.priority) ∧
          (∀ d' ∈ pre, d'.takes text = true → d'.priority < d.priority) ∧
          matched.result = (x.matcher.coercions.coerce d groups x.matcher.autoCoerce).map fun args =>
            some ⟨pre.length, d, args⟩) ∧
      (x.ties = .caller → ∀ (l l' : Ledger) (t : Trace) (o : Except Fault Unit),
        Ends (x.tell text matched.tied) l t o l' →
          t.map (·.request) =
            if 2 ≤ (leaders text ds).length then [.tie text ((leaders text ds).map (·.source))]
            else [])) ∧
    ∀ ops : List Registry.Operation, (∀ op ∈ ops, ∀ item ∈ op.items, item.Made) →
      ((leaders text (Registry.empty.after ops).definitions).map (·.source)).Nodup := by
  refine ⟨fun m ds ds' hm h => alike_of_leaders_perm hm h.leaders_perm, fun x ds hx => ?_,
    fun ops hmade => nodup_leaders (fun d => Registry.made_of_mem_after hmade)
      (Registry.holds_empty.after ops).nodup⟩
  intro matched
  rcases matchText_cases x.matcher text ds with
    ⟨hnil, hr⟩ | ⟨c, hc, rest, hl, ⟨pre, post, hds, ho, hpre⟩, hr⟩
  · have hmatched : matched = ⟨[], .ok none⟩ := hr
    refine ⟨.inl ⟨fun d hd => ?_, by rw [hmatched]⟩, fun hties l l' t o h => ?_⟩
    · have hnone := matchText_eq_none_iff.1 (congrArg Matched.result hr) d hd
      rw [StepDefinition.takes, hnone]
      rfl
    · rw [hmatched] at h
      rw [hnil]
      exact Executor.requests_of_tell hties h
  · obtain ⟨_, _, _, hgroups⟩ := getElem?_of_mem_candidatesFrom hc
    have hmem : c.definition ∈ leaders text ds := hl ▸ List.mem_cons_self
    obtain ⟨ht, htop⟩ := leads_iff.1 (List.mem_filter.1 hmem).2
    have hresult : matched.result = x.matcher.choose c := by
      rw [show matched = _ from hr, hx]
      split <;> rfl
    have htied : matched.tied = if rest = [] then [] else (leaders text ds).map (·.source) := by
      rw [show matched = _ from hr, hx]
      split <;> rfl
    refine ⟨.inr ⟨pre, c.definition, post, c.groups, hds, hgroups, htop, fun d hd hdt => ?_, ?_⟩,
      fun hties l l' t o h => ?_⟩
    · by_contra hnot
      have hlead : leads text ds d = true :=
        leads_iff.2 ⟨hdt, fun d' hd' ht' => Int.le_trans (htop d' hd' ht') (Int.not_lt.1 hnot)⟩
      cases hlead.symm.trans (hpre d hd)
    · rw [hresult, choose, ho]
      cases x.matcher.coercions.coerce c.definition c.groups x.matcher.autoCoerce <;> rfl
    · rw [Executor.requests_of_tell hties h, htied, hl]
      cases rest with
      | nil => rfl
      | cons d ds => simp

/-- A definition of low priority changes nothing for another that takes the text, a tie of two is told by
one request where the first counts, and made definitions are tied under different patterns. -/
theorem Matcher.depends_on_leaders_sample :
    let book := Sample.definition 2 "book"
    let hold := Sample.definition 3 "hold"
    let wait := { Sample.definition 1 "wait" with priority := -1 }
    let x := { Sample.executor [] with matcher := { Matcher.standard with ambiguity := .first }, ties := .caller }
    Rearranged "room" [book] [wait, book] ∧
      Alike (Matcher.standard.matchText "room" [book]).result
        (Matcher.standard.matchText "room" [wait, book]).result ∧
      (∀ (l l' : Ledger) (t : Trace) (o : Except Fault Unit),
        Ends (x.tell "room" (x.matcher.matchText "room" [book, hold]).tied) l t o l' →
          t.map (·.request) = [.tie "room" [".*", ".*"]]) ∧
      ∃ d e : StepDefinition, d.Made ∧ e.Made ∧ d.source = "room (.*)" ∧ e.source = "(.*) 5" ∧
        ((leaders "room 5" (Registry.empty.after
          [.registerAll [.step d, .step e]]).definitions).map (·.source)).Nodup := by
  intro book hold wait x
  have hidle : Idle "room" [book] wait := .inr ⟨book, List.mem_cons_self, by decide +kernel, by decide⟩
  have hadd : Rearranged "room" ([] ++ [book]) ([] ++ wait :: [book]) := .add hidle
  obtain ⟨halike, hfirst, _⟩ := depends_on_leaders "room"
  refine ⟨hadd, halike _ _ _ rfl hadd, fun l l' t o h => ?_, ?_⟩
  · have hleaders : leaders "room" [book, hold] = [book, hold] :=
      List.filter_eq_self.2 (by decide +kernel)
    rw [(hfirst x [book, hold] rfl).2 rfl l l' t o h, hleaders]
    rfl
  · have hmake : ∀ source, (StepDefinition.make (.text source) (Sample.callable 1 "book") none 0 (.text "step")
        [] none).toOption.any (fun d => d.source == source) = true →
          ∃ d : StepDefinition, d.Made ∧ d.source = source := by
      intro source h
      obtain ⟨d, hd, he⟩ := exists_ok_of_any h
      exact ⟨d, ⟨_, _, _, _, _, _, _, hd⟩, eq_of_beq he⟩
    obtain ⟨d, hd, hds⟩ := hmake "room (.*)" (by decide +kernel)
    obtain ⟨e, he, hes⟩ := hmake "(.*) 5" (by decide +kernel)
    refine ⟨d, e, hd, he, hds, hes, (depends_on_leaders "room 5").2.2 _ fun op hop item hitem => ?_⟩
    rw [List.mem_singleton.1 hop] at hitem
    rcases List.mem_cons.1 hitem with rfl | hitem
    · exact hd
    · rw [List.mem_singleton.1 hitem]
      exact he

end Rehearsal
