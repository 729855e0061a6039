import Rehearsal.Proofs.Matching
import Rehearsal.Proofs.Registry
import Rehearsal.Proofs.Requests
import Rehearsal.Proofs.Scenario.Parts

/-! What the run of a scenario asks for. Once its contexts are there, or are known not to be, nothing more
is constructed, and whatever is called is called on a context. Before anything is constructed nobody is
called. An abort is requested where someone who is called is interrupted, or where the interrupt came from
elsewhere. -/

namespace Rehearsal
set_option autoImplicit false

namespace Request
variable (T : Terms Request.Answer Fault)

/-- Handing over and telling is within the terms, and so is what comes of it. -/
structure Spoken : Prop where
  emit : ∀ r, T.asks (.emit r)
  log : ∀ m, T.asks (.log m)
  refused : ∀ r f, T.answers (.emit r) (some f) → T.raises f
  unlogged : ∀ m f, T.answers (.log m) (some f) → T.raises f

/-- All that hooks and steps of a scenario come to is within the terms. -/
structure Staged : Prop extends Spoken T where
  call : ∀ k v args, T.asks (.call k (.value v :: args))
  aborted : T.asks .aborted
  tie : ∀ text patterns, T.asks (.tie text patterns)
  interrupted : ∀ k args f, T.answers (.call k args) (some f) → f.family = .interrupt →
    ∀ reason, T.asks (.abort reason)
  recovered : ∀ f, T.raises f → f.family = .interrupt → ∀ reason, T.asks (.abort reason)
  exited : ∀ k args f, T.answers (.call k args) (some f) → f.family = .exit → T.raises f
  untied : ∀ text patterns f, T.answers (.tie text patterns) (some f) → T.raises f
  ordinary : ∀ f : Fault, f.family = .ordinary → T.raises f

/-- To build contexts, and to tell them where they are, is within the terms. -/
structure Building : Prop where
  construct : ∀ factory params, T.asks (.construct factory params)
  attach : ∀ a, T.asks (.attach a)

/-- What a scenario comes to from its beginning is within the terms. No factory is interrupted. -/
structure Entire : Prop extends Staged T, Building T where
  contained : ∀ factory params f, T.answers (.construct factory params) (.error f) →
    Composition.escapes f = false

def builds : Request → Bool
  | .construct .. => true
  | _ => false

end Request

namespace Composition
variable {T : Terms Request.Answer Fault} {a : Arena}

/-- The fault, if it is not contained, was raised by a factory. -/
def Blames (T : Terms Request.Answer Fault) (f : Fault) : Prop :=
  escapes f = true → ∃ factory params, T.answers (.construct factory params) (.error f)

theorem blames_of_contained {f : Fault} (h : escapes f = false) : Blames T f :=
  fun he => nomatch h.symm.trans he

theorem asks_construct (hT : Request.Building T) (s : ContextSpec) :
    Program.Asks T.asks (fun _ => False) T.answers (fun r => ∀ f, r = .error f → Blames T f)
      (construct s) := by
  unfold construct
  split
  · rename_i f hf
    refine .done fun g hg => ?_
    cases hg
    exact blames_of_contained (escapes_namedParams hf)
  · exact .request (hT.construct _ _) fun r hr f hf _ => ⟨_, _, hf ▸ hr⟩

theorem asks_composeFrom (hT : Request.Building T) (specs : List (ContextSpec × Option ContextSpec)) :
    Program.Asks T.asks (fun _ => False) T.answers (fun r => ∀ b, r = .error b → Blames T b.fault)
      (composeFrom a specs) := by
  induction specs generalizing a with
  | nil => exact .ask (hT.attach a) fun _ _ => .done nofun
  | cons p rest ih =>
    rw [composeFrom]
    refine (asks_construct hT p.1).bind fun r hr => ?_
    rcases r with f | i
    · dsimp only
      split
      · refine .done fun b hb => ?_
        cases hb
        exact hr f rfl
      · have hsalvage : Program.Asks T.asks (fun _ => False) T.answers (fun _ => True) (salvage a) := by
          unfold salvage
          split
          · exact .done trivial
          · exact .ask (hT.attach a) fun _ _ => .done trivial
        refine hsalvage.bind fun _ _ => .done fun b hb => ?_
        cases hb
        exact blames_of_contained rfl
    · dsimp only
      split
      · rename_i f hf
        refine .done fun b hb => ?_
        cases hb
        unfold Arena.add at hf
        split at hf <;> cases hf
        exact blames_of_contained rfl
      · exact ih

/-- Up to the first call of a factory nothing is asked for, and without any there is nothing to hand
back. -/
theorem asks_composeFrom_empty {P : Request → Prop} {A : (r : Request) → r.Answer → Prop}
    {specs : List (ContextSpec × Option ContextSpec)} (hs : specs ≠ []) :
    Program.Asks P (fun r => r.builds = true) A (fun r => ∃ f, r = .error ⟨f, none⟩)
      (composeFrom .empty specs) := by
  cases specs with
  | nil => exact absurd rfl hs
  | cons p rest =>
    rw [composeFrom, construct]
    split
    · rename_i f hf
      rw [Program.pure_eq_done, Program.done_bind]
      dsimp only
      rw [if_neg (Bool.eq_false_iff.1 (escapes_namedParams hf))]
      exact .done ⟨_, rfl⟩
    · exact .stop rfl

end Composition

theorem asks_compose {T : Terms Request.Answer Fault} (hT : Request.Building T) (root : ContextSpec) :
    Program.Asks T.asks (fun _ => False) T.answers
      (fun r => ∀ b, r = .error b → Composition.Blames T b.fault) (compose root) := by
  unfold compose
  split
  · rename_i f hf
    refine .done fun b hb => ?_
    cases hb
    exact Composition.blames_of_contained (ContextSpec.escapes_validateFrom hf)
  · exact Composition.asks_composeFrom hT _

theorem asks_compose_unbuilt {P : Request → Prop} {A : (r : Request) → r.Answer → Prop}
    (root : ContextSpec) :
    Program.Asks P (fun r => r.builds = true) A (fun r => ∃ f, r = .error ⟨f, none⟩)
      (compose root) := by
  unfold compose
  split
  · exact .done ⟨_, rfl⟩
  · exact Composition.asks_composeFrom_empty root.walk_ne_nil

namespace Executor
variable {x : Executor} {c : Case} {T : Terms Request.Answer Fault}

section Spoken
variable (hT : Request.Spoken T)
include hT

theorem confined_emit (r : Record) : Confined T (x.emit r) := by
  unfold emit
  split
  · refine yields_bind (Effect.yields_perform (hT.emit r) fun _ => id) fun f hf => ?_
    exact Effect.yields_proceed (fun _ => trivial) fun e he => hT.refused r e (he ▸ hf)
  · exact confined_pure _

theorem confined_log {level : LogLevel} {message : String} {fields : List (String × Datum)} :
    Confined T (x.log level message fields) := by
  unfold log Effect.log
  split
  · refine yields_bind (Effect.yields_perform (hT.log _) fun _ => id) fun f hf => ?_
    exact Effect.yields_proceed (fun _ => trivial) fun e he => hT.unlogged _ e (he ▸ hf)
  · exact confined_pure _

theorem confined_recordHook (r : HookResult) : Confined T (x.recordHook r) :=
  confined_bind (confined_modify _) fun _ => confined_emit hT _

theorem confined_recordStep (r : StepResult) : Confined T (x.recordStep r) :=
  confined_bind (confined_modify _) fun _ => confined_emit hT _

theorem confined_skipAll {index : Nat} {ss : List Step} : Confined T (x.skipAll c index ss) := by
  induction ss generalizing index with
  | nil => exact confined_pure _
  | cons s ss ih => exact confined_bind (confined_recordStep hT _) fun _ => ih

theorem confined_announce {stage : Stage} : Confined T (x.announce c stage) := by
  refine confined_bind confined_get fun _ => confined_bind (confined_emit hT _) fun _ => ?_
  exact confined_bind (confined_emit hT _) fun _ => confined_pure _

theorem confined_warn {r : ScenarioResult} : Confined T (x.warn c r) := by
  unfold warn
  split
  · exact confined_log hT
  · exact confined_pure _

/-- Without contexts nothing is called. -/
theorem confined_abandon_none {cause : Fault} : Confined T (x.abandon c cause none) := by
  refine confined_bind (confined_log hT) fun _ => confined_bind (confined_modify _) fun _ => ?_
  refine confined_bind (confined_skipAll hT) fun _ => ?_
  exact confined_bind (confined_pure _) fun _ => confined_announce hT

end Spoken

section Staged
variable (hT : Request.Staged T)
include hT

theorem confined_stopped : Confined T x.stopped := by
  refine confined_bind confined_get fun l => ?_
  split
  · exact confined_pure _
  · split
    · exact Effect.confined_perform hT.aborted
    · exact confined_pure _

theorem confined_interrupt {place : String} (habort : ∀ reason, T.asks (.abort reason)) :
    Confined T (x.interrupt c place) := by
  refine confined_bind (confined_modify _) fun _ => ?_
  split
  · exact confined_bind (Effect.confined_perform (habort _)) fun _ => confined_log hT.toSpoken
  · exact confined_log hT.toSpoken

theorem confined_invoke {callable : Callable} {v : Value} {args : List Argument} {place : String} :
    Confined T (x.invoke c callable (.value v :: args) place) := by
  refine yields_bind (Effect.yields_perform (hT.call _ _ _) fun _ => id) fun f hf => ?_
  rcases f with _ | f
  · exact confined_pure _
  dsimp only
  split
  · exact confined_pure _
  · exact confined_bind (confined_log hT.toSpoken) fun _ => confined_pure _
  · rename_i hi
    exact confined_bind (confined_interrupt hT (hT.interrupted _ _ _ hf hi)) fun _ => confined_pure _
  · rename_i he
    exact yields_throw (hT.exited _ _ _ hf he)

theorem confined_runHook {a : Arena} {scope : Scope} {h : Hook} :
    Confined T (x.runHook c a scope h) := by
  have hsettle : Confined T (Effect.settle (a.ownerInstance h.owner) : Action Instance) :=
    Effect.yields_settle (fun _ _ => trivial)
      fun _ he => hT.ordinary _ (Arena.family_of_ownerInstance he)
  refine confined_bind hsettle fun i => ?_
  refine confined_bind (confined_invoke hT) fun _ => ?_
  exact confined_bind (confined_recordHook hT.toSpoken _) fun _ => confined_pure _

theorem confined_runHookList {a : Arena} {scope : Scope} {halt : Bool} {hs : List Hook} :
    Confined T (x.runHookList c a scope halt hs) := by
  induction hs with
  | nil => exact confined_pure _
  | cons h hs ih =>
    rw [runHookList]
    refine confined_bind (confined_runHook hT) fun status => ?_
    split
    · split
      · exact confined_bind ih fun _ => confined_pure _
      · exact confined_pure _
    · exact ih

theorem confined_runHooks {phase : HookPhase} {a : Arena} {scope : Scope} {halt : Bool} :
    Confined T (x.runHooks phase c a scope halt) := by
  have hsettle : Confined T (Effect.settle (x.registry.lookup phase scope.tags) : Action (List Hook)) :=
    Effect.yields_settle (fun _ _ => trivial) fun _ he => hT.ordinary _ (Registry.family_of_lookup he)
  exact confined_bind hsettle fun _ => confined_runHookList hT

theorem confined_tell {text : String} {patterns : List String} :
    Confined T (x.tell text patterns) := by
  unfold tell
  split
  · exact confined_pure _
  · split
    · exact confined_pure _
    · refine yields_bind (Effect.yields_perform (hT.tie _ _) fun _ => id) fun f hf => ?_
      exact Effect.yields_proceed (fun _ => trivial) fun e he => hT.untied _ _ e (he ▸ hf)
    · exact confined_log hT.toSpoken

end Staged

/-- What matching ends in is the failure of a step, or else is within the terms. -/
def Matches (x : Executor) (T : Terms Request.Answer Fault) : Prop :=
  ∀ text definitions f, (x.matcher.matchText text definitions).result = .error f →
    isMatchFailure f = true ∨ T.raises f

section Steps
variable (hT : Request.Staged T) (hm : x.Matches T)
include hT hm

theorem confined_dispatch {d : DispatchTable} {s : Step} : Confined T (x.dispatch c d s) := by
  refine confined_bind (confined_tell hT) fun _ => ?_
  split
  · rename_i f hf
    split
    · exact confined_pure _
    · rename_i hnot
      exact yields_throw ((hm _ _ f hf).resolve_left hnot)
  · exact confined_bind (confined_log hT.toSpoken) fun _ => confined_pure _
  · split
    · exact yields_throw (hT.ordinary _ (by decide))
    · exact confined_bind (confined_invoke hT) fun _ => confined_pure _

theorem confined_runStep {d : DispatchTable} {index : Nat} {s : Step} :
    Confined T (x.runStep c d index s) := by
  have hattempt : Confined T (x.attempt c d index s) := by
    refine confined_bind (confined_runHooks hT) fun ready => ?_
    split
    · exact confined_dispatch hT hm
    · exact confined_bind confined_get fun _ => confined_pure _
  have hreview : ∀ v, Confined T (x.review c d index s v) := by
    intro v
    refine confined_bind (confined_runHooks hT) fun clean => ?_
    split
    · exact confined_bind confined_get fun _ => confined_pure _
    · exact confined_pure _
  refine confined_bind hattempt fun v => confined_bind (hreview v) fun _ => ?_
  exact confined_bind (confined_recordStep hT.toSpoken _) fun _ => confined_pure _

theorem confined_runSteps {d : DispatchTable} {index : Nat} {skip : Bool} {ss : List Step} :
    Confined T (x.runSteps c d index skip ss) := by
  induction ss generalizing index skip with
  | nil => exact confined_pure _
  | cons s ss ih =>
    rw [runSteps]
    refine confined_bind ?_ fun stop => ?_
    · split
      · exact confined_pure _
      · exact confined_stopped hT
    · split
      · exact confined_bind (confined_recordStep hT.toSpoken _) fun _ => ih
      · refine confined_bind (confined_emit hT.toSpoken _) fun _ => ?_
        exact confined_bind (confined_runStep hT hm) fun _ => ih

theorem confined_proceedThrough {d : DispatchTable} : Confined T (x.proceedThrough c d) := by
  refine confined_bind (confined_emit hT.toSpoken _) fun _ => ?_
  exact confined_bind (confined_runHooks hT) fun _ => confined_runSteps hT hm

end Steps

section Cleanup
variable (hT : Request.Staged T)
include hT

/-- What broke off a run is within the terms, and so is what it is recovered to. -/
theorem yields_recover {S : Request → Prop} {r : Except Fault Unit}
    (hr : ∀ f, r = .error f → T.raises f) :
    Yields T S (fun r => ∀ f, r = .error f → T.raises f) (x.recover c r) := by
  cases r with
  | ok _ => exact yields_pure nofun
  | error f =>
    rw [recover]
    split
    · rename_i hi
      have habort := hT.recovered f (hr f rfl) (eq_of_beq hi)
      have hskip : Confined T (do x.interrupt c "executor"; x.skipRemaining c) :=
        confined_bind (confined_interrupt hT habort) fun _ =>
          confined_bind confined_get fun _ => confined_skipAll hT.toSpoken
      exact yields_observe (Confined.yields hskip)
    · exact yields_pure fun e he => hr e he

theorem confined_cleanUp {a : Arena} : Confined T (x.cleanUp c a) := by
  refine confined_bind (confined_emit hT.toSpoken _) fun _ => confined_bind confined_get fun _ => ?_
  exact confined_bind (confined_runHooks hT) fun _ => confined_pure _

theorem confined_conclude : Confined T (x.conclude c) := by
  refine confined_bind (confined_stopped hT) fun _ => ?_
  refine confined_bind (confined_announce hT.toSpoken) fun _ => ?_
  exact confined_bind (confined_warn hT.toSpoken) fun _ => confined_pure _

theorem confined_runComposed {d : DispatchTable} (hm : x.Matches T) :
    Confined T (x.runComposed c d) := by
  refine yields_bind (yields_observe (confined_proceedThrough hT hm)) fun r hr => ?_
  refine yields_bind (yields_recover hT hr) fun r' hr' => ?_
  refine confined_bind (confined_cleanUp hT) fun _ => ?_
  exact yields_bind (Effect.yields_settle (fun _ _ => trivial) hr') fun _ _ => confined_conclude hT

theorem confined_abandon {cause : Fault} {salvaged : Option Arena} :
    Confined T (x.abandon c cause salvaged) := by
  cases salvaged with
  | none => exact confined_abandon_none hT.toSpoken
  | some a =>
    refine confined_bind (confined_log hT.toSpoken) fun _ => confined_bind (confined_modify _) fun _ => ?_
    refine confined_bind (confined_skipAll hT.toSpoken) fun _ => ?_
    exact confined_bind (confined_cleanUp hT) fun _ => confined_announce hT.toSpoken

end Cleanup

/-- What sets up a scenario is contained where it fails. -/
theorem yields_setUp (hT : Request.Entire T) :
    Yields T (fun _ => False) (fun r => ∀ b, r = .error b → Composition.escapes b.fault = false)
      (x.setUp c) := by
  refine yields_bind (confined_emit hT.toSpoken _) fun _ _ => ?_
  refine yields_bind (yields_lift (asks_compose hT.toBuilding x.root)) fun r hr => ?_
  rcases r with b | a
  · refine yields_pure fun b' hb => ?_
    cases hb
    refine Bool.eq_false_iff.2 fun he => ?_
    obtain ⟨factory, params, hraised⟩ := hr b rfl he
    exact nomatch he.symm.trans (hT.contained factory params _ hraised)
  · dsimp only
    split
    · rename_i f hf
      refine yields_pure fun b hb => ?_
      cases hb
      exact DispatchTable.escapes_build hf
    · exact yields_pure nofun

theorem confined_runCase (hT : Request.Entire T) (hm : x.Matches T) : Confined T (x.runCase c) := by
  refine yields_bind (yields_setUp hT) fun r hr => ?_
  rcases r with b | d
  · dsimp only
    rw [if_neg (Bool.eq_false_iff.1 (hr b rfl))]
    exact confined_abandon hT.toStaged
  · exact confined_runComposed hT.toStaged hm

/-- Before a factory is called only records and messages are handed over. -/
theorem yields_runCase_unbuilt (hT : Request.Spoken T) (hraises : ∀ f, T.raises f) :
    Yields T (fun r => r.builds = true) (fun _ => True) (x.runCase c) := by
  have hsetUp : Yields T (fun r => r.builds = true) (fun r => ∃ f, r = .error ⟨f, none⟩)
      (x.setUp c) := by
    refine yields_bind (confined_emit hT _).yields fun _ _ => ?_
    refine yields_bind (yields_lift (asks_compose_unbuilt x.root)) fun r hr => ?_
    obtain ⟨f, rfl⟩ := hr
    exact yields_pure ⟨f, rfl⟩
  refine yields_bind hsetUp fun r hr => ?_
  obtain ⟨f, rfl⟩ := hr
  dsimp only
  split
  · exact yields_throw (hraises _)
  · exact (confined_abandon_none hT).yields

theorem asks_run {S : Request → Prop} {scenario : Scenario} {feature : Option Feature}
    {id : Option String} (h : Yields T S (fun _ => True) (x.runCase (.named scenario feature id))) :
    Program.Asks T.asks S T.answers (fun _ => True) (x.run scenario feature id) :=
  (h Ledger.empty).bind fun _ _ => .done trivial

end Executor
end Rehearsal
