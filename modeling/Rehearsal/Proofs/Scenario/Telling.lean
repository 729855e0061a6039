import Rehearsal.Proofs.Scenario.Interruption
import Rehearsal.Proofs.Scenario.Unseen

/-! What the records of one run tell. A run that comes to its result opens with the first stage and ends with
the result. In between come the steps and the hooks that the result lists, and no other scenario is
opened. -/

namespace Rehearsal
set_option autoImplicit false

namespace Record

/-- The scenario that is opened by its first stage. -/
def opening? (r : Record) : Option String :=
  (r.stage?.filter (·.stage = .initializing)).map (·.scenarioId)

/-- The result of a hook of one of some phases. -/
def hookOf? (p : HookPhase → Bool) (r : Record) : Option HookResult := r.hook?.filter fun k => p k.phase

/-- Records that come while a scenario is on its way. -/
def midway : Record → Bool
  | stage e => e.stage != .initializing
  | step _ | hook _ => true
  | _ => false

theorem filterMap_between {α : Type} {g : Record → Option α} {first last : Record} {rs : List Record}
    (hfirst : g first = none) (hlast : g last = none) :
    (first :: (rs ++ [last])).filterMap g = rs.filterMap g := by
  rw [List.filterMap_cons_none hfirst, List.filterMap_append, List.filterMap_cons_none hlast,
    List.filterMap_nil, List.append_nil]

theorem filterMap_hookOf {p : HookPhase → Bool} {rs : List Record}
    (h : rs.filterMap (hookOf? fun k => !p k) = []) :
    rs.filterMap (hookOf? p) = rs.filterMap hook? := by
  rw [List.filterMap_eq_nil_iff] at h
  refine List.filterMap_congr fun r hr => ?_
  cases r with
  | hook k =>
    have hk := h _ hr
    simpa [hookOf?, hook?, Option.filter_eq_none_iff] using hk
  | _ => rfl

end Record

/-- The result of a hook of one of some phases, as it is handed over. -/
def Moment.hookOf? (p : HookPhase → Bool) (m : Moment Request.Answer Bool) : Option HookResult :=
  m.handed?.bind fun q => q.1.hookOf? p

namespace Trace
variable {t u : Trace} {r : ScenarioResult}

theorem filterMap_hookOf (p : HookPhase → Bool) :
    t.records.filterMap (Record.hookOf? p) = t.filterMap (Moment.hookOf? p) := by
  rw [records, handed, List.filterMap_map, List.filterMap_filterMap]
  rfl

/-- A trace goes on midway up to the last stage, behind which the result comes. -/
def Unfolds (t : Trace) (r : ScenarioResult) : Prop :=
  ∃ u v : Trace, t = u ++ v ∧ u.HandsOnly Record.midway ∧ r.stage ≠ .initializing ∧
    v.records = [.stage ⟨r.scenarioId, r.stage, none, none⟩, .scenario r]

theorem handsOnly_iff {q : Record → Bool} : t.HandsOnly q ↔ ∀ r ∈ t.records, q r = true := by
  rw [records, List.forall_mem_map]
  rfl

theorem Unfolds.records (h : t.Unfolds r) :
    ∃ own, t.records = own ++ [.scenario r] ∧ ∀ q ∈ own, q.midway = true := by
  obtain ⟨u, v, rfl, hu, hstage, hv⟩ := h
  refine ⟨u.records ++ [.stage ⟨r.scenarioId, r.stage, none, none⟩], by simp [hv], ?_⟩
  refine List.forall_mem_append.2 ⟨handsOnly_iff.1 hu, List.forall_mem_singleton.2 ?_⟩
  simpa [Record.midway] using hstage

end Trace

namespace Executor
variable {x : Executor} {c : Case} {l l' : Ledger} {t : Trace} {scenario : Scenario}
  {feature : Option Feature} {id : Option String} {r : ScenarioResult}

theorem stage_conclude (h : Ends (x.conclude c) l t (.ok r) l') : r.stage ≠ .initializing := by
  obtain ⟨stop, _, _, _, _, _, hannounce, _⟩ := parts_of_conclude h
  obtain ⟨_, rfl, _⟩ := ends_announce hannounce
  cases stop <;> exact nofun

theorem midway_cleanUp {a : Arena} (ha : a.nodes ≠ []) :
    Upholds (fun _ t _ _ => Trace.HandsOnly Record.midway t) (x.cleanUp c a) :=
  (acts_handsOnly fun _ => rfl).cleanUp ha trivial
    (fun _ _ _ _ h => (ends_transition h).2.handsOnly rfl) fun _ _ => trivial

theorem unfolds_runComposed {d : DispatchTable} (hd : d.Fit) (hx : x.emits = true)
    (h : Ends (x.runComposed c d) l t (.ok r) l') : t.Unfolds r := by
  obtain ⟨t₁, t₂, t₃, t₄, r₁, l₁, l₂, l₃, rfl, hproceed, hrecover, hclean, hconclude⟩ :=
    parts_of_runComposed h
  have hwork : Trace.HandsOnly Record.midway t₁ := by
    refine (runActs_handsOnly (fun _ => rfl) (fun _ => rfl) fun e he => ?_).proceedThrough hd hproceed
    have hne : e.stage ≠ .initializing := fun h => by rw [h] at he; cases he
    simpa [Record.midway] using hne
  have hrecovered : Trace.HandsOnly Record.midway t₂ := handsOnly_recover (fun _ _ => rfl) hrecover
  have hcleaned : Trace.HandsOnly Record.midway t₃ := midway_cleanUp hd.rooted hclean
  obtain ⟨stage, rfl, hrecords, _⟩ := ends_conclude hconclude
  exact ⟨t₁ ++ (t₂ ++ t₃), t₄, by simp, hwork.append (hrecovered.append hcleaned),
    stage_conclude hconclude, hrecords hx⟩

theorem unfolds_abandon {cause : Fault} {salvaged : Option Arena}
    (ha : ∀ a, salvaged = some a → a.nodes ≠ []) (hx : x.emits = true)
    (h : Ends (x.abandon c cause salvaged) l t (.ok r) l') : t.Unfolds r := by
  obtain ⟨t₁, t₂, t₃, t₄, l₁, l₂, rfl, hoff, hskip, hclean, hannounce⟩ := ends_abandon h
  have hlogged : Trace.HandsOnly Record.midway t₁ :=
    Trace.handsOnly_of_handed_nil (Trace.handed_of_offstage hoff)
  have hskipped : Trace.HandsOnly Record.midway t₂ := handsOnly_skipAll (fun _ _ => rfl) hskip
  have hcleaned : Trace.HandsOnly Record.midway t₃ := by
    cases salvaged with
    | none =>
      obtain ⟨rfl, _⟩ := ends_pure_iff.1 hclean
      exact Trace.handsOnly_of_handed_nil rfl
    | some a => exact midway_cleanUp (ha a rfl) hclean
  obtain ⟨_, rfl, hrecords⟩ := ends_announce hannounce
  exact ⟨t₁ ++ (t₂ ++ t₃), t₄, by simp, hlogged.append (hskipped.append hcleaned), nofun, hrecords hx⟩

theorem records_setUp {o : Except Broken DispatchTable} (hx : x.emits = true)
    (h : Ends (x.setUp c) l t (.ok o) l') :
    t.records = [.stage ⟨c.id, .initializing, none, none⟩] := by
  obtain ⟨_, u, v, rfl, hv, hu, _⟩ := ends_setUp h
  rw [Trace.records_append, hu.records hx, Trace.records_of_offstage hv]
  rfl

theorem blind_hookOf (p : HookPhase → Bool) : Blind (Moment.hookOf? p) where
  offstage m hm := by
    rw [Moment.hookOf?, (Moment.unseen_of_isOffstage hm).1]
    rfl
  record r f b hr := by
    cases r with
    | hook _ => cases hr
    | _ => rfl

/-- Hooks of other phases than those of scenarios and steps have no results in a run. -/
theorem hookOf_of_run {q : HookPhase → Bool} {o : Except Fault ScenarioResult}
    (hq : ∀ p, p.instanceBound = true → q p = false)
    (h : (x.run scenario feature id).Runs t o) : t.records.filterMap (Record.hookOf? q) = [] := by
  rw [Trace.filterMap_hookOf]
  refine (blind_hookOf q).run (fun _ _ _ _ _ => rfl) (fun r f b hr => ?_) h
  simp [Moment.hookOf?, Moment.handed?, Record.hookOf?, Record.hook?, hq r.phase hr]

/-- A run that comes to its result is told of from its first stage to its result, and the steps and hooks
in between are those of the result. -/
theorem records_of_run (h : (x.run scenario feature id).Runs t (.ok r)) (hx : x.emits = true) :
    ∃ own, t.records = .stage ⟨r.scenarioId, .initializing, none, none⟩ :: (own ++ [.scenario r]) ∧
      (∀ q ∈ own, q.midway = true) ∧ own.filterMap Record.step? = r.steps ∧
      own.filterMap (Record.hookOf? HookPhase.instanceBound) = r.hooks := by
  suffices hshape : ∃ own,
      t.records = .stage ⟨r.scenarioId, .initializing, none, none⟩ :: (own ++ [.scenario r]) ∧
        ∀ q ∈ own, q.midway = true by
    obtain ⟨own, hrecords, hown⟩ := hshape
    obtain ⟨hsteps, hhooks⟩ := listed_of_run h hx
    have hforeign : t.records.filterMap (Record.hookOf? fun p => !p.instanceBound) = [] :=
      hookOf_of_run (fun p hp => by rw [hp]; rfl) h
    rw [hrecords, Record.filterMap_between rfl rfl] at hforeign
    refine ⟨own, hrecords, hown, ?_, ?_⟩
    · rw [hsteps, Trace.steps, hrecords, Record.filterMap_between rfl rfl]
    · rw [hhooks, Trace.hooks, hrecords, Record.filterMap_between rfl rfl,
        Record.filterMap_hookOf hforeign]
  obtain ⟨l', hc⟩ := runs_run_iff.1 h
  have hid : r.scenarioId = (Case.named scenario feature id).id := by
    obtain ⟨_, _, rfl, _⟩ := exists_ledger_of_run h
    rfl
  cases caseRun_of_ends hc with
  | abandoned u v b hs ha hk =>
    obtain ⟨own, hrecords, hown⟩ := (unfolds_abandon ha hx hk).records
    exact ⟨own, by rw [Trace.records_append, records_setUp hx hs, hrecords, hid]; rfl, hown⟩
  | composed u v d hs hd hk =>
    obtain ⟨own, hrecords, hown⟩ := (unfolds_runComposed hd hx hk).records
    exact ⟨own, by rw [Trace.records_append, records_setUp hx hs, hrecords, hid]; rfl, hown⟩

end Executor
end Rehearsal
