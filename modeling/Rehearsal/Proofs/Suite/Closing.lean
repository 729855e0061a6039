import Rehearsal.Proofs.Suite.Stall
import Rehearsal.Proofs.Suite.Surroundings

/-! The hooks after a suite. They are called however the features ended; what keeps them from being
called is the result of a hook itself, which is handed over before the next one is called: that of a
hook before the suite, as the features were not begun then, or that of a hook after it. Where the wait for
a pool has no end, the run does not come to them. -/

namespace Rehearsal
set_option autoImplicit false

namespace Record

def isClosing : Record → Bool
  | hook r => r.phase == .afterSuite
  | _ => false

/-- Is it the result of a hook of the suite? -/
def isSuiteHook : Record → Bool
  | hook r => r.phase == .beforeSuite || r.phase == .afterSuite
  | _ => false

end Record

/-- Hooks after the suite, and no others, are shown a result of it. -/
def Call.closes : Call → Bool
  | ⟨_, [.scope (.suite _ (some _))]⟩ => true
  | _ => false

/-- A hook after the suite is called, or the result of a hook of the suite is handed over. -/
def Moment.closing? : Moment Request.Answer Bool → Option Unit
  | ⟨.call c args, _, _⟩ => if Call.closes ⟨c, args⟩ then some () else none
  | ⟨.emit r, _, _⟩ => if r.isSuiteHook then some () else none
  | _ => none

/-- Of the results of hooks of the suite none is refused before the `n`th result of a hook after it. -/
def Trace.SparesClosing (t : Trace) (n : Nat) : Prop :=
  ∀ before r f after, t.handed = before ++ (r, some f) :: after → r.isSuiteHook = true →
    n ≤ ((before ++ [(r, some f)]).countP fun p => p.1.isClosing)

namespace Trace
variable {t : Trace}

theorem closes_eq_false (h : t.filterMap Moment.closing? = []) {k : Call} (hk : k ∈ t.calls) :
    k.closes = false := by
  obtain ⟨⟨r, x, b⟩, hm, hc⟩ := List.mem_filterMap.1 hk
  have hnone := List.filterMap_eq_nil_iff.1 h _ hm
  cases r with
  | call c args =>
    cases hc
    simpa [Moment.closing?] using hnone
  | _ => cases hc

theorem isSuiteHook_eq_false (h : t.filterMap Moment.closing? = []) {r : Record}
    (hr : r ∈ t.records) : r.isSuiteHook = false := by
  obtain ⟨p, hp, rfl⟩ := List.mem_map.1 hr
  obtain ⟨⟨r, x, b⟩, hm, hc⟩ := List.mem_filterMap.1 hp
  have hnone := List.filterMap_eq_nil_iff.1 h _ hm
  cases r with
  | emit r =>
    cases hc
    simpa [Moment.closing?] using hnone
  | _ => cases hc

theorem isClosing_eq_false (h : t.filterMap Moment.closing? = []) {r : Record}
    (hr : r ∈ t.records) : r.isClosing = false := by
  have hnot := isSuiteHook_eq_false h hr
  cases r with
  | hook r => exact (Bool.or_eq_false_iff.1 hnot).2
  | _ => rfl

theorem not_sparesClosing_of_getElem? {m : Nat} (n : Nat)
    (hf : (t.handed[n]?.bind (·.2)).isSome = true)
    (hhook : t.handed[n]?.any (·.1.isSuiteHook) = true)
    (hm : (t.handed.take (n + 1)).countP (fun p => p.1.isClosing) < m) : ¬ t.SparesClosing m := by
  intro hspare
  obtain ⟨r, f, hsplit, htake, hat⟩ := handed_split hf
  rw [hat] at hhook
  have hle := hspare _ r f _ hsplit hhook
  rw [← htake] at hle
  omega

end Trace

namespace Suite
variable {s : Suite} {l l' : List FeatureResult} {t : Trace} {features : List Feature}

/-- All hooks after the suite were called, each once and in the order of registration, after all other
calls. -/
def Closes (s : Suite) (features : List Feature) (t : Trace) : Prop :=
  ∃ early r, t.calls = early ++ (s.registry.hooksOf .afterSuite).map
      (callOf (.suite features (some r))) ∧ ∀ k ∈ early, k.closes = false

theorem blind_closing : Executor.Blind Moment.closing? where
  offstage m hm := by
    rcases m with ⟨r, x, b⟩
    cases r with
    | call _ _ => cases hm
    | emit _ => cases hm
    | _ => rfl
  record r f b hr := by
    cases r with
    | hook _ => cases hr
    | suite _ => cases hr
    | _ => rfl

theorem closing?_of_instanceBound (r : HookResult) (f : Option Fault) (b : Bool)
    (hr : r.phase.instanceBound = true) : Moment.closing? ⟨.emit (.hook r), f, b⟩ = none := by
  have hnot : Record.isSuiteHook (.hook r) = false := by
    cases hp : r.phase <;> simp_all [Record.isSuiteHook, HookPhase.instanceBound]
  simp [Moment.closing?, hnot]

theorem suiteActs_unclosing :
    SuiteActs s features (Unseen Moment.closing?) (fun r => r.isSuiteHook = false)
      fun scope => ∀ k, Call.closes ⟨k, [.scope scope]⟩ = false := by
  refine suiteActs_unseen blind_closing (fun _ _ _ _ _ => rfl) closing?_of_instanceBound ?_ ?_ ?_
    fun _ _ _ => rfl
  · intro r f b hr
    simp [Moment.closing?, hr]
  · intro k scope f b hscope
    simp [Moment.closing?, hscope k]
  · intro r hr
    cases r with
    | hook r =>
      cases hp : r.phase <;> simp_all [ofLoop, Record.isSuiteHook]
    | _ => simp_all [ofLoop, Record.isSuiteHook]

theorem closes_callOf (r : SuiteResult) (h : Hook) :
    (callOf (.suite features (some r)) h).closes = true := rfl

/-- Where the calls after all others are those of the first `n` hooks after the suite, no hook is
missing when there are no more of them. -/
theorem closes_iff_le {early : List Call} {n : Nat} {r : SuiteResult}
    (ht : t.calls = early ++ ((s.registry.hooksOf .afterSuite).take n).map
      (callOf (.suite features (some r)))) (hearly : ∀ k ∈ early, k.closes = false) :
    s.Closes features t ↔ (s.registry.hooksOf .afterSuite).length ≤ n := by
  have hlate : ∀ {e : List Call} {hs : List Hook} {r : SuiteResult}, (∀ k ∈ e, k.closes = false) →
      (e ++ hs.map (callOf (.suite features (some r)))).countP Call.closes = hs.length := by
    intro e hs r he
    rw [List.countP_append, List.countP_eq_zero.2 fun k hk => Bool.not_eq_true _ ▸ he k hk,
      List.countP_map, Nat.zero_add]
    exact List.countP_eq_length.2 fun h _ => closes_callOf r h
  constructor
  · rintro ⟨early', r', ht', hearly'⟩
    have hlen := congrArg (List.countP Call.closes) (ht'.symm.trans ht)
    rw [hlate hearly, hlate hearly', List.length_take] at hlen
    omega
  · intro hn
    rw [List.take_of_length_le hn] at ht
    exact ⟨early, r, ht, hearly⟩

theorem phase_of_mem_results {rs : List HookResult} {phase : HookPhase} {n : Nat}
    (hphases : rs.map (·.phase) = ((s.registry.hooksOf phase).take n).map (·.phase)) :
    ∀ r ∈ rs, r.phase = phase := by
  intro r hr
  have hmem : r.phase ∈ ((s.registry.hooksOf phase).take n).map (·.phase) :=
    hphases ▸ List.mem_map_of_mem hr
  obtain ⟨h, hh, hphase⟩ := List.mem_map.1 hmem
  rw [← hphase]
  exact phase_of_mem_hooksOf h (List.mem_of_mem_take hh)

theorem countP_isClosing {rs : List HookResult} {n : Nat} (ht : t.records = rs.map Record.hook)
    (hphases : rs.map (·.phase) = ((s.registry.hooksOf .afterSuite).take n).map (·.phase)) :
    t.records.countP Record.isClosing = ((s.registry.hooksOf .afterSuite).take n).length := by
  have hlen : rs.length = ((s.registry.hooksOf .afterSuite).take n).length := by
    simpa using congrArg List.length hphases
  rw [ht, List.countP_map, ← hlen]
  refine List.countP_eq_length.2 fun r hr => ?_
  simp [Record.isClosing, phase_of_mem_results hphases r hr]

theorem isSuiteHook_of_mem {rs : List HookResult} {phase : HookPhase} {n : Nat}
    (hsuite : phase = .beforeSuite ∨ phase = .afterSuite) (ht : t.records = rs.map Record.hook)
    (hphases : rs.map (·.phase) = ((s.registry.hooksOf phase).take n).map (·.phase)) :
    ∀ r ∈ t.records, r.isSuiteHook = true := by
  intro r hr
  rw [ht] at hr
  obtain ⟨k, hk, rfl⟩ := List.mem_map.1 hr
  rcases hsuite with rfl | rfl <;> simp [Record.isSuiteHook, phase_of_mem_results hphases k hk]

/-- A part of a run before the hooks after the suite: none of them is called there, and none of the
results of hooks of the suite is refused. -/
structure Opening (s : Suite) (t : Trace) : Prop where
  calls : ∀ k ∈ t.calls, k.closes = false
  records : s.hasSink = true → ∀ r ∈ t.records, r.isClosing = false
  taken : ∀ p ∈ t.handed, p.1.isSuiteHook = true → p.2 = none

theorem Opening.append {u : Trace} (ht : s.Opening t) (hu : s.Opening u) : s.Opening (t ++ u) where
  calls k hk := by
    rw [Trace.calls_append] at hk
    exact (List.mem_append.1 hk).elim (ht.calls k) (hu.calls k)
  records hsink r hr := by
    rw [Trace.records_append] at hr
    exact (List.mem_append.1 hr).elim (ht.records hsink r) (hu.records hsink r)
  taken p hp := by
    rw [Trace.handed_append] at hp
    exact (List.mem_append.1 hp).elim (ht.taken p) (hu.taken p)

theorem opening_of_unseen (h : t.filterMap Moment.closing? = []) : s.Opening t where
  calls _ hk := Trace.closes_eq_false h hk
  records _ _ hr := Trace.isClosing_eq_false h hr
  taken p hp hsuite := by
    cases (Trace.isSuiteHook_eq_false h (List.mem_map_of_mem hp)).symm.trans hsuite

section Before
variable {o : Except Fault (List HookResult)}
  (h : Goes (s.runHookList (.suite features none) (s.registry.hooksOf .beforeSuite)) l t o l')
  (ht : t.tame = true)
include h ht

theorem closes_eq_false_of_before : ∀ k ∈ t.calls, k.closes = false := by
  obtain ⟨n, hcalls, _, _⟩ := goes_runHookList h ht
  rw [hcalls]
  intro k hk
  obtain ⟨h, _, rfl⟩ := List.mem_map.1 hk
  rfl

theorem isClosing_eq_false_of_before (hsink : s.hasSink = true) :
    ∀ r ∈ t.records, r.isClosing = false := by
  obtain ⟨n, _, hrecords, _⟩ := goes_runHookList h ht
  obtain ⟨rs, hrs, hphases⟩ := hrecords hsink
  intro r hr
  rw [hrs] at hr
  obtain ⟨k, hk, rfl⟩ := List.mem_map.1 hr
  simp [Record.isClosing, phase_of_mem_results hphases k hk]

/-- Hooks before the suite that came to their end open it: none of their results was refused. -/
theorem opening_of_before {hooks : List HookResult} (ho : o = .ok hooks) : s.Opening t := by
  subst ho
  have htaken : t.taken = true :=
    hookActs_cut.runHookList trivial (fun _ _ _ _ => trivial) h ht
  refine ⟨closes_eq_false_of_before h ht, isClosing_eq_false_of_before h ht, fun p hp _ => ?_⟩
  exact Option.isNone_iff_eq_none.1 (List.all_eq_true.1 htaken p hp)

end Before

/-- A run in which the calls of the first `n` hooks after the suite stand last, in a part that only the
sink cuts short. -/
theorem closes_iff_of_parts {u v w : Trace} {e : Option Fault} {early : List Call} {n : Nat}
    {r : SuiteResult} (hu : s.Opening u) (hcut : s.executor.CutBy v e)
    (hcalls : v.calls = early ++ ((s.registry.hooksOf .afterSuite).take n).map
      (callOf (.suite features (some r)))) (hearly : ∀ k ∈ early, k.closes = false)
    (hcount : s.hasSink = true →
      v.records.countP Record.isClosing = ((s.registry.hooksOf .afterSuite).take n).length)
    (hhooks : s.hasSink = true → ∀ r ∈ v.records, r.isSuiteHook = true)
    (hn : e = none → (s.registry.hooksOf .afterSuite).length ≤ n) (hw : w.calls = [])
    (hend : e ≠ none → w = []) :
    s.Closes features (u ++ (v ++ w)) ↔ (s.hasSink = true →
      Trace.SparesClosing (u ++ (v ++ w)) (s.registry.hooksOf .afterSuite).length) := by
  have hall : Trace.calls (u ++ (v ++ w)) = (u.calls ++ early) ++
      ((s.registry.hooksOf .afterSuite).take n).map (callOf (.suite features (some r))) := by
    rw [Trace.calls_append, Trace.calls_append, hcalls, hw, List.append_nil, List.append_assoc]
  have hnone : ∀ k ∈ u.calls ++ early, k.closes = false :=
    fun k hk => (List.mem_append.1 hk).elim (hu.calls k) (hearly k)
  rw [closes_iff_le hall hnone]
  have hcount' : s.hasSink = true → v.handed.countP (fun p => p.1.isClosing) =
      ((s.registry.hooksOf .afterSuite).take n).length := by
    intro hsink
    rw [← hcount hsink, Trace.records, List.countP_map]
    rfl
  constructor
  · -- What is refused is the last of the part at the earliest, and then no hook is missing.
    rintro hle hsink before r' f after heq hsuite
    rw [Trace.handed_append, Trace.handed_append] at heq
    have hmem : ¬ before ++ [(r', some f)] <+: u.handed := by
      intro hpre
      have hmem : (r', some f) ∈ u.handed := hpre.subset (by simp)
      cases hu.taken _ hmem hsuite
    have hpre := Executor.prefix_of_refused heq.symm (Option.some_ne_none f) hmem hcut.dropLast
    have hmono := hpre.sublist.countP_le (p := fun p => p.1.isClosing)
    rw [List.countP_append, hcount' hsink, List.take_of_length_le hle] at hmono
    omega
  · intro hspare
    cases e with
    | none => exact hn rfl
    | some f =>
      obtain rfl := hend (Option.some_ne_none f)
      obtain ⟨hsink, v', r', b, rfl, _⟩ := hcut
      have hlast : Trace.handed (v' ++ [⟨.emit r', some f, b⟩]) = v'.handed ++ [(r', some f)] := by
        simp [Trace.handed, Moment.handed?]
      have hr' : r'.isSuiteHook = true :=
        hhooks hsink r' (by rw [Trace.records, hlast]; simp)
      have hle := hspare hsink (u.handed ++ v'.handed) r' f [] (by simp [hlast]) hr'
      have hzero : u.handed.countP (fun p => p.1.isClosing) = 0 :=
        List.countP_eq_zero.2 fun p hp =>
          Bool.not_eq_true _ ▸ hu.records hsink p.1 (List.mem_map_of_mem hp)
      rw [List.append_assoc, List.countP_append, hzero, ← hlast, hcount' hsink,
        List.length_take] at hle
      omega

/-- Where the hooks before the suite are cut short, those after it are not reached. -/
theorem closes_iff_of_cut {u : Trace} {e : Fault} (hu : s.Opening u)
    (h : Goes (s.runHookList (.suite features none) (s.registry.hooksOf .beforeSuite)) l t (.error e) l')
    (ht : t.tame = true) :
    s.Closes features (u ++ t) ↔ (s.hasSink = true →
      Trace.SparesClosing (u ++ t) (s.registry.hooksOf .afterSuite).length) := by
  have hcut : s.executor.CutBy t (some e) :=
    hookActs_cut.runHookList trivial (fun _ _ _ _ => trivial) h ht
  obtain ⟨_, _, hrecords, _⟩ := goes_runHookList h ht
  have hcalls : t.calls = t.calls ++ ((s.registry.hooksOf .afterSuite).take 0).map
      (callOf (.suite features (some (s.made [] [] false)))) := by simp
  rw [← List.append_nil t]
  refine closes_iff_of_parts hu hcut hcalls (closes_eq_false_of_before h ht) (fun hsink => ?_)
    (fun hsink => ?_) nofun rfl fun _ => rfl
  · exact List.countP_eq_zero.2 fun r hr =>
      Bool.not_eq_true _ ▸ isClosing_eq_false_of_before h ht hsink r hr
  · obtain ⟨rs, hrs, hphases⟩ := hrecords hsink
    exact isSuiteHook_of_mem (.inl rfl) hrs hphases

/-- Where the hooks after the suite are reached, all of them are called unless the sink cuts them short. -/
theorem closes_iff_of_reached {u w : Trace} {r : SuiteResult} {o : Except Fault (List HookResult)}
    (hu : s.Opening u)
    (h : Goes (s.runHookList (.suite features (some r)) (s.registry.hooksOf .afterSuite)) l t o l')
    (ht : t.tame = true) (hw : w.calls = []) (hend : errorIn o ≠ none → w = []) :
    s.Closes features (u ++ (t ++ w)) ↔ (s.hasSink = true →
      Trace.SparesClosing (u ++ (t ++ w)) (s.registry.hooksOf .afterSuite).length) := by
  have hcut := hookActs_cut.runHookList trivial (fun _ _ _ _ => trivial) h ht
  obtain ⟨n, hcalls, hrecords, hn⟩ := goes_runHookList h ht
  have hafterwards : ∀ h ∈ s.registry.hooksOf .afterSuite, h.phase.isBefore = false :=
    fun h hm => by rw [phase_of_mem_hooksOf h hm]; rfl
  have hcalls : t.calls = [] ++ _ := hcalls
  refine closes_iff_of_parts hu hcut hcalls nofun (fun hsink => ?_) (fun hsink => ?_)
    (hn hafterwards) hw hend
  · obtain ⟨rs, hrs, hphases⟩ := hrecords hsink
    exact countP_isClosing hrs hphases
  · obtain ⟨rs, hrs, hphases⟩ := hrecords hsink
    exact isSuiteHook_of_mem (.inr rfl) hrs hphases

theorem closes_runAll {o : Except Fault SuiteResult} (h : Goes (s.runAll features) [] t o l')
    (ht : t.tame = true) :
    s.Closes features t ↔ (s.hasSink = true →
      t.SparesClosing (s.registry.hooksOf .afterSuite).length) := by
  obtain ⟨b, t₀, _, rfl, hoff, t₁, rest, o₁, rfl, hbefore, hrest⟩ := goes_runAll_parts h (Trace.logged_of_tame ht)
  simp only [Trace.tame_cons, Trace.tame_append, Bool.and_eq_true] at ht
  obtain ⟨_, ht₀, ht₁, htrest⟩ := ht
  have hstart : s.Opening (⟨.resetAbort, (), b⟩ :: t₀) := by
    have hnil : t₀.filterMap Moment.closing? = [] := blind_closing.aside hoff
    exact opening_of_unseen hnil
  rw [← List.cons_append]
  generalize (⟨.resetAbort, (), b⟩ :: t₀ : Trace) = u₀ at hstart ⊢
  cases o₁ with
  | error e =>
    obtain ⟨rfl, _⟩ := hrest
    rw [List.append_nil]
    exact closes_iff_of_cut hstart hbefore ht₁
  | ok hooks =>
    obtain ⟨t₂, t₃, t₄, t₅, x, b', o₂, o₃, l₂, l₃, o₄, rfl, hloop, hrecover, hafter, hend⟩ := hrest
    simp only [Trace.tame_append, Trace.tame_cons, Bool.and_eq_true] at htrest
    have hmiddle : s.Opening (t₂ ++ (t₃ ++ [⟨.aborted, x, b'⟩])) := by
      have h₂ : t₂.filterMap Moment.closing? = [] :=
        suiteActs_unclosing.runFeatures (fun _ => id) hloop
      have h₃ : t₃.filterMap Moment.closing? = [] := suiteActs_unclosing.recover hrecover
      exact (opening_of_unseen h₂).append ((opening_of_unseen h₃).append (opening_of_unseen rfl))
    have hsplit : u₀ ++ (t₁ ++ (t₂ ++ (t₃ ++ ⟨.aborted, x, b'⟩ :: (t₄ ++ t₅)))) =
        (u₀ ++ (t₁ ++ (t₂ ++ (t₃ ++ [⟨.aborted, x, b'⟩])))) ++ (t₄ ++ t₅) := by simp
    rw [hsplit]
    refine closes_iff_of_reached (hstart.append ((opening_of_before hbefore ht₁ rfl).append hmiddle))
      hafter htrest.2.2.2.1 ?_ fun hne => ?_
    · cases o₄ with
      | error e => rw [hend.1]; rfl
      | ok after =>
        rcases hend with ⟨_, _, rfl, _⟩ | ⟨_, y, b'', t₆, rfl, hfinish⟩
        · rfl
        · have hcalls : t₆.calls = [] := (atRest_finish hfinish).1
          exact hcalls
    · cases o₄ with
      | error e => exact hend.1
      | ok after => exact absurd rfl hne

/-- A run that stalls has not come to the hooks after the suite. -/
theorem opening_of_stalls (h : (s.run features).Stalls t) (ht : t.tame = true) : s.Opening t := by
  obtain ⟨u, v, w, hooks, l, f, ends, e, rfl, hopening, hv, _, _, hover, _, _⟩ :=
    exists_pool_of_stalls suiteActs_unclosing h
  obtain ⟨b, t₀, t₁, rfl, _, hgreet, hbefore⟩ := goes_opening hopening
  simp only [List.cons_append, Trace.tame_cons, Trace.tame_append, Bool.and_eq_true] at ht
  have hstart : s.Opening (⟨.resetAbort, (), b⟩ :: t₀) := by
    have hnil : t₀.filterMap Moment.closing? = [] := blind_closing.aside (goes_log hgreet).2.1
    exact opening_of_unseen hnil
  have hpool : w.filterMap Moment.closing? = [] :=
    unseen_overlap blind_closing (fun _ _ _ _ _ => rfl) closing?_of_instanceBound hover
  rw [← List.cons_append]
  refine (hstart.append (opening_of_before hbefore ht.2.1.2 rfl)).append ?_
  exact (opening_of_unseen hv).append (opening_of_unseen hpool)

/-- A run that comes to its end has called all hooks after the suite, each once, in the order of
registration and after all other calls, exactly when the sink refuses the result of no hook before or after
the suite until it has the last of the results of hooks after it. One that stalls has called none of them; it
waits for a pool, and a record of a scenario in it was answered by an interrupt. -/
theorem closes_iff_sparesClosing (ht : t.tame = true) :
    (∀ o, (s.run features).Shows t o → (s.Closes features t ↔ (s.hasSink = true →
      t.SparesClosing (s.registry.hooksOf .afterSuite).length))) ∧
      ((s.run features).Stalls t → 1 < s.workers ∧ (∀ k ∈ t.calls, k.closes = false) ∧
        (s.Orderly features → ∃ r g, (r, some g) ∈ t.handed ∧ g.family = .interrupt)) := by
  refine ⟨fun o h => ?_, fun h => ⟨?_, (opening_of_stalls h ht).calls, fun ho => ?_⟩⟩
  · obtain ⟨l', hrun⟩ := shows_run_iff.1 h
    exact closes_runAll hrun ht
  · obtain ⟨_, _, _, _, _, _, _, _, _, _, _, hw, _⟩ := exists_pool_of_stalls suiteActs_unclosing h
    exact hw
  · obtain ⟨u, v, w, _, _, f, ends, e, rfl, _, _, _, hf, hover, he, hi⟩ :=
      exists_pool_of_stalls suiteActs_unclosing h
    simp only [Trace.tame_append, Bool.and_eq_true] at ht
    obtain ⟨r, hr⟩ := raised_overlap hf hover he ho ht.2.2
    refine ⟨r, e, ?_, hi⟩
    rw [Trace.handed_append, Trace.handed_append]
    exact List.mem_append_right _ (List.mem_append_right _ hr)

/-- The sink refuses the result of the hook before the suite, and the hook after it is not called. An
interrupt of the sink in a pool keeps the run from coming to that hook. -/
theorem closes_iff_sparesClosing_sample :
    let hooks := [Sample.hook .beforeSuite 1 "open", Sample.hook .afterSuite 2 "close"]
    let features := [Sample.feature "bookings"]
    (let s := Sample.suite hooks 1 false
      let w := Sample.surroundings
        (fun n => if n = 0 then some (.ofKind "OSError" "disk full") else none) fun _ => none
      let t := w.showing (s.run features) ⟨0, false⟩
      t.tame = true ∧ ¬ s.Closes features t) ∧
    let s := Sample.suite hooks 2 false
    let w := Sample.surroundings
      (fun n => if n = 1 then some (.ofKind "KeyboardInterrupt" "") else none) fun _ => none
    let t := w.showing (s.run features) ⟨0, false⟩
    t.tame = true ∧ (s.run features).Stalls t ∧ s.Orderly features ∧ ∀ k ∈ t.calls, k.closes = false := by
  intro hooks features
  refine ⟨?_, ?_⟩
  · intro s w t
    have hw : w.Tame := Sample.tame nofun
    have ht : t.tame = true := Surroundings.tame_showing hw _ _
    refine ⟨ht, fun hcloses => ?_⟩
    obtain ⟨o, _, hshows⟩ :=
      w.exists_shows_showing (p := s.run features) (s := ⟨0, false⟩) (by decide +kernel)
    have hspare := ((closes_iff_sparesClosing ht).1 o hshows).1 hcloses rfl
    refine Trace.not_sparesClosing_of_getElem? 0 ?_ ?_ ?_ hspare <;> decide +kernel
  · intro s w t
    have hw : w.Tame := Sample.tame nofun
    have ht : t.tame = true := Surroundings.tame_showing hw _ _
    have hstalls : (s.run features).Stalls t := w.stalls_showing (by decide +kernel)
    exact ⟨ht, hstalls, Sample.suite_orderly (by decide), ((closes_iff_sparesClosing ht).2 hstalls).2.1⟩

end Suite
end Rehearsal
