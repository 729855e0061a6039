import Rehearsal.Proofs.Suite.Completeness

/-! The exit code of a suite. It is read off a status that is folded through scenarios, features and
the suite, and off the signal; what it says can be told from the hooks and steps alone, wherever they
are in the tree of results, from the setups that failed, and from whether an abort was requested. -/

namespace Rehearsal
set_option autoImplicit false

namespace Status
variable {ss : List Status}

end Status

namespace Trace
variable {t : Trace}

end Trace

namespace Suite

variable {s : Suite} {t u : Trace} {features : List Feature} {f : Feature} {p : Scenario × Nat}
  {n : Nat}

/-- A scenario of the features was run, as a trace shows, without contexts that could be set up. -/
def FailedSetup (s : Suite) (features : List Feature) (t : Trace) (r : ScenarioResult) : Prop :=
  ∃ f ∈ features, ∃ p ∈ f.numbered, ∃ v : Trace, v.Sublist t ∧
    (s.executor.run p.1 (some f) (some (f.idOf p.2 p.1))).Runs v (.ok r) ∧
    ∀ d, ¬ s.executor.Prepared (.named p.1 (some f) (some (f.idOf p.2 p.1))) v d

theorem FailedSetup.status {r : ScenarioResult} (h : s.FailedSetup features t r) :
    r.status = .failed := by
  obtain ⟨f, _, p, _, v, _, hrun, hp⟩ := h
  exact Executor.failed_of_unprepared hrun hp

end Suite
end Rehearsal
