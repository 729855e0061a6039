import Rehearsal.Run.Program

/-! Runs and their traces. A program that comes to its end has made its requests in order and has got
an answer to each; `Runs` holds of every trace that some surroundings allow, and `record` is the one
that a given server leaves behind. Which answers are reasonable is not said here. -/

namespace Rehearsal
set_option autoImplicit false

/-- A request that was answered, and what was the case from then on. -/
structure Moment {R : Type} (Answer : R → Type) (Mark : Type) where
  request : R
  answer : Answer request
  mark : Mark

namespace Program

variable {R : Type} {Answer : R → Type} {Mark : Type} {α β : Type}

/-- The program ends with a value after the moments of a trace. -/
inductive Runs : Program Answer α → List (Moment Answer Mark) → α → Prop where
  | done (a : α) : Runs (.done a) [] a
  | ask {r : R} {next : Answer r → Program Answer α} {t : List (Moment Answer Mark)} {a : α}
      (x : Answer r) (m : Mark) : Runs (next x) t a → Runs (.ask r next) (⟨r, x, m⟩ :: t) a

variable {t u v : List (Moment Answer Mark)} {a b : α}

theorem runs_done_iff : Runs (.done a) t b ↔ t = [] ∧ b = a := by
  constructor
  · intro h
    cases h
    exact ⟨rfl, rfl⟩
  · rintro ⟨rfl, rfl⟩
    exact .done b

theorem runs_ask_iff {r : R} {next : Answer r → Program Answer α} :
    Runs (.ask r next) t a ↔ ∃ x m u, t = ⟨r, x, m⟩ :: u ∧ Runs (next x) u a := by
  constructor
  · intro h
    cases h with
    | ask x m h => exact ⟨x, m, _, rfl, h⟩
  · rintro ⟨x, m, u, rfl, h⟩
    exact .ask x m h

theorem runs_request_iff {r : R} {x : Answer r} :
    Runs (Program.request r) t x ↔ ∃ m, t = [⟨r, x, m⟩] := by
  rw [Program.request, runs_ask_iff]
  constructor
  · rintro ⟨y, m, u, rfl, h⟩
    obtain ⟨rfl, rfl⟩ := runs_done_iff.1 h
    exact ⟨m, rfl⟩
  · rintro ⟨m, rfl⟩
    exact ⟨x, m, [], rfl, .done x⟩

theorem runs_bind_iff {p : Program Answer α} {f : α → Program Answer β} {b : β} :
    Runs (p >>= f) t b ↔ ∃ u v a, t = u ++ v ∧ Runs p u a ∧ Runs (f a) v b := by
  induction p generalizing t with
  | done a =>
    rw [done_bind]
    constructor
    · exact fun h => ⟨[], t, a, rfl, .done a, h⟩
    · rintro ⟨u, v, a', rfl, hp, hf⟩
      obtain ⟨rfl, rfl⟩ := runs_done_iff.1 hp
      exact hf
  | ask r next ih =>
    rw [ask_bind, runs_ask_iff]
    constructor
    · rintro ⟨x, m, w, rfl, h⟩
      obtain ⟨u, v, a, rfl, hp, hf⟩ := (ih x).1 h
      exact ⟨⟨r, x, m⟩ :: u, v, a, rfl, .ask x m hp, hf⟩
    · rintro ⟨u, v, a, rfl, hp, hf⟩
      obtain ⟨x, m, w, rfl, hx⟩ := runs_ask_iff.1 hp
      exact ⟨x, m, w ++ v, rfl, (ih x).2 ⟨w, v, a, rfl, hx, hf⟩⟩

/-- A program does with the same answers what it did before: of two traces that begin alike both
hold the same run. -/
theorem Runs.unique {p : Program Answer α} {u' v' : List (Moment Answer Mark)} (h : Runs p u a)
    (h' : Runs p u' b) (he : u ++ v = u' ++ v') : u = u' ∧ a = b := by
  induction h generalizing u' with
  | done a =>
    obtain ⟨rfl, rfl⟩ := runs_done_iff.1 h'
    exact ⟨rfl, rfl⟩
  | @ask r next t a x m _ ih =>
    obtain ⟨y, n, w, rfl, hy⟩ := runs_ask_iff.1 h'
    rw [List.cons_append, List.cons_append, List.cons.injEq] at he
    obtain ⟨hm, he⟩ := he
    cases hm
    obtain ⟨rfl, rfl⟩ := ih hy he
    exact ⟨rfl, rfl⟩

section Server
variable {σ : Type} (serve : (r : R) → σ → Answer r × σ) (mark : σ → Mark)

/-- The moments of a run under a server, each marked by what its state shows afterwards. -/
def record : Program Answer α → σ → List (Moment Answer Mark)
  | done _, _ => []
  | ask r next, s =>
    let (x, s) := serve r s
    ⟨r, x, mark s⟩ :: record (next x) s

theorem runs_record (p : Program Answer α) (s : σ) :
    Runs p (p.record serve mark s) (p.runWith serve s).1 := by
  induction p generalizing s with
  | done a => exact .done a
  | ask r next ih => exact .ask _ _ (ih _ _)

theorem record_bind (p : Program Answer α) (f : α → Program Answer β) (s : σ) :
    (p >>= f).record serve mark s =
      p.record serve mark s ++
        (f (p.runWith serve s).1).record serve mark (p.runWith serve s).2 := by
  induction p generalizing s with
  | done a => rfl
  | ask r next ih => exact congrArg (List.cons _) (ih _ _)

end Server
end Program
end Rehearsal
