import Rehearsal.Proofs.Scenario.Parts

/-! Surroundings that are given by tables: how the sink fares with each record in turn, how each
callable ends, and which callables request an abort. They keep the rules that runs rely on. A small
executor, of hooks only, is kept at hand for runs in them. -/

namespace Rehearsal
set_option autoImplicit false

structure Surroundings where
  /-- The fault in which handing over ends, by the number of records handed over before. -/
  sink : Nat → Option Fault
  /-- The fault in which a callable ends, by its id. -/
  outcome : Nat → Option Fault
  /-- Does the callable of an id request an abort? -/
  aborts : Nat → Bool
  build : Factory → Except Fault Instance

namespace Surroundings

structure Tally where
  handed : Nat
  requested : Bool

def serve (w : Surroundings) : (r : Request) → Tally → r.Answer × Tally
  | .emit _, s => (w.sink s.handed, ⟨s.handed + 1, s.requested⟩)
  | .log _, s => (none, s)
  | .call c _, s => (w.outcome c.id, ⟨s.handed, s.requested || w.aborts c.id⟩)
  | .construct f _, s => (w.build f, s)
  | .attach _, s => ((), s)
  | .aborted, s => (s.requested, s)
  | .abort _, s => ((), ⟨s.handed, true⟩)
  | .resetAbort, s => ((), ⟨s.handed, false⟩)
  | .tie .., s => (none, s)
  | .flush, s => (none, s)

/-- What can be seen of a routine, from the first record on. -/
def traceOf {α : Type} (w : Surroundings) (p : Routine α) : Trace :=
  p.record w.serve (·.requested) ⟨0, false⟩

def resultOf {α : Type} (w : Surroundings) (p : Routine α) : α := (p.runWith w.serve ⟨0, false⟩).1

variable {α : Type} (w : Surroundings) (p : Routine α)

theorem runs_traceOf : p.Runs (w.traceOf p) (w.resultOf p) :=
  Program.runs_record w.serve (·.requested) p ⟨0, false⟩

theorem heeds_record (s : Tally) :
    Trace.heeds s.requested (p.record w.serve (·.requested) s) = true := by
  induction p generalizing s with
  | done a => rfl
  | ask r next ih =>
    refine Bool.and_eq_true_iff.2 ⟨?_, ih _ _⟩
    rcases s with ⟨n, b⟩
    cases r <;> cases b <;> simp [Moment.heeds]

theorem heeds_traceOf : (w.traceOf p).heeds false = true := w.heeds_record p ⟨0, false⟩

/-- Is every callable, and every factory, one that does not exit, nor a factory interrupted? -/
structure Tame (w : Surroundings) : Prop where
  outcome : ∀ n f, w.outcome n = some f → f.family ≠ .exit
  build : ∀ factory f, w.build factory = .error f → Composition.escapes f = false

variable {w} in
theorem tame_record (hw : w.Tame) (s : Tally) :
    Trace.tame (p.record w.serve (·.requested) s) = true := by
  induction p generalizing s with
  | done a => rfl
  | ask r next ih =>
    refine Bool.and_eq_true_iff.2 ⟨?_, ih _ _⟩
    cases r with
    | call c args =>
      rw [Moment.tame_call, Option.all_eq_true]
      exact fun f hf => bne_iff_ne.2 (hw.outcome _ f hf)
    | construct factory params =>
      dsimp only [serve]
      cases hb : w.build factory with
      | ok _ => rfl
      | error f => simp [Moment.tame, hw.build factory f hb]
    | _ => rfl

variable {w} in
theorem tame_traceOf (hw : w.Tame) : (w.traceOf p).tame = true := tame_record p hw _

/-- The trace of a run goes on from that of its setting up. -/
theorem exists_traceOf_setUp (x : Executor) (scenario : Scenario) (feature : Option Feature)
    (id : Option String) :
    ∃ v, w.traceOf (x.run scenario feature id) =
      w.traceOf ((x.setUp (.named scenario feature id)).run.run Ledger.empty) ++ v := by
  rw [traceOf, Executor.run, Program.record_bind, Executor.runCase, ExceptT.run_bind,
    StateT.run_bind, Program.record_bind, List.append_assoc]
  exact ⟨_, rfl⟩

theorem prepared_traceOf {x : Executor} {scenario : Scenario} {feature : Option Feature}
    {id : Option String} {d : DispatchTable}
    (h : (w.resultOf ((x.setUp (.named scenario feature id)).run.run Ledger.empty)).1 = .ok (.ok d)) :
    x.Prepared (.named scenario feature id) (w.traceOf (x.run scenario feature id)) d := by
  have hs := w.runs_traceOf ((x.setUp (.named scenario feature id)).run.run Ledger.empty)
  rw [← Prod.eta (w.resultOf _), h] at hs
  obtain ⟨v, hv⟩ := w.exists_traceOf_setUp x scenario feature id
  exact ⟨_, v, _, hv, hs⟩

end Surroundings

def ContextSpec.leaf (factory : Factory) (aliasName : String) : ContextSpec :=
  ⟨factory, aliasName, .dict [], [], []⟩

theorem ContextSpec.walk_leaf (factory : Factory) (aliasName : String) :
    (leaf factory aliasName).walk = [(leaf factory aliasName, none)] := by
  rw [walk, walkFrom_of_next? (Pending.next?_cons _ _ _)]
  exact congrArg _ walkFrom_nil

theorem compose_leaf (factory : Factory) (aliasName : String) :
    compose (.leaf factory aliasName) =
      Composition.composeFrom Arena.empty [(.leaf factory aliasName, none)] := by
  rw [compose, ContextSpec.validate, ContextSpec.walk_leaf]
  rfl

namespace Sample

def callable (id : Nat) (name : String) : Callable := ⟨id, ⟨"booking", name, none⟩, none, true⟩

def hook (phase : HookPhase) (id : Nat) (name : String) : Hook :=
  ⟨phase, callable id name, none, none, ⟨"booking", name, none⟩⟩

/-- An executor that knows hooks and no steps, goes on after steps that it does not know, and hands
records over. -/
def executor (hooks : List Hook) : Executor where
  registry := ⟨[], hooks, true⟩
  root := .leaf ⟨callable 0 "Hotel", "Hotel", [], none⟩ "main"
  matcher := .standard
  ties := .nobody
  policy := ⟨.goOn, .goOn, false, false⟩
  logger := .silent
  emits := true
  watches := true

/-- A definition that takes every text of one line. -/
def definition (id : Nat) (name : String) : StepDefinition where
  pattern := ⟨".*", ⟨[.loop .greedy 0 none [.any]], .none, 0, []⟩⟩
  callable := callable id name
  owner := none
  priority := 0
  keyword := "step"
  types := []
  location := ⟨"booking", name, none⟩

def scenario : Scenario where
  name := "booking"
  steps := [⟨"a room is free", .int 3, .null, .null⟩, ⟨"it is booked", .int 4, .null, .null⟩]
  tags := []
  line := .null

/-- Surroundings in which contexts are built and no one requests an abort. -/
def surroundings (sink outcome : Nat → Option Fault) : Surroundings :=
  ⟨sink, outcome, fun _ => false, fun _ => .ok ⟨.null, []⟩⟩

variable {hooks : List Hook} {c : Case} {sink outcome : Nat → Option Fault}

theorem orderly (h : ∀ hook ∈ hooks, hook.tags = none) : (executor hooks).Orderly c where
  selects _ := ⟨_, Registry.lookup_of_unfiltered h⟩
  reports := CoercionTable.reports_standard

theorem tame (h : ∀ n f, outcome n = some f → f.family ≠ .exit) :
    (surroundings sink outcome).Tame := ⟨h, fun _ _ hf => nomatch hf⟩

def table : DispatchTable :=
  ⟨⟨[⟨"main", ⟨.null, []⟩, (executor []).root.effectiveCapabilities, none⟩]⟩, [], []⟩

theorem resultOf_setUp (h : sink 0 = none) :
    ((surroundings sink outcome).resultOf (((executor hooks).setUp c).run.run Ledger.empty)).1 =
      .ok (.ok table) := by
  have hstart : (((executor hooks).transition c .initializing none).run.run Ledger.empty).runWith
      (surroundings sink outcome).serve ⟨0, false⟩ = ((.ok (), Ledger.empty), ⟨1, false⟩) := by
    have htold : ((executor hooks).transition c .initializing none).run.run Ledger.empty =
        .ask (.emit (.stage ⟨c.id, .initializing, none, none⟩)) fun f =>
          (Effect.proceed f).run.run Ledger.empty := rfl
    rw [htold, Program.runWith, Surroundings.serve, surroundings]
    simp only [h]
    rfl
  have hc : compose (executor hooks).root = _ := compose_leaf ..
  rw [Surroundings.resultOf, Executor.setUp, hc, ExceptT.run_bind, StateT.run_bind,
    Program.runWith_bind, hstart]
  rfl

theorem prepared (h : sink 0 = none) {s : Scenario} {feature : Option Feature} {id : Option String} :
    (executor hooks).Prepared (.named s feature id)
      ((surroundings sink outcome).traceOf ((executor hooks).run s feature id)) table :=
  Surroundings.prepared_traceOf _ (resultOf_setUp h)

end Sample
end Rehearsal
