import Rehearsal.Proofs.Trace
import Rehearsal.Run.Composition

/-! What can be seen of a run: the records it hands over, the callables it calls, the signal by which
it is aborted. Everything here is read off a trace; a trace that continues another one shows what the
first one shows and then the rest. -/

namespace Rehearsal
set_option autoImplicit false

/-- What stands in one of two lists put together stands in the first or in the second. -/
theorem split_append {α : Type} {xs ys us vs : List α} {a : α} (h : xs ++ ys = us ++ a :: vs) :
    (∃ us', us = xs ++ us' ∧ ys = us' ++ a :: vs) ∨ ∃ vs', xs = us ++ a :: vs' ∧ vs = vs' ++ ys := by
  rcases List.append_eq_append_iff.1 h with ⟨zs, rfl, hzs⟩ | ⟨zs, rfl, hzs⟩
  · exact .inl ⟨zs, rfl, hzs⟩
  · cases zs with
    | nil => exact .inl ⟨[], by simp, hzs.symm⟩
    | cons b zs =>
      obtain ⟨rfl, rfl⟩ := List.cons.inj hzs
      exact .inr ⟨zs, rfl, rfl⟩

/-- A trace of the runner. Each moment is marked by whether an abort is requested from then on. -/
abbrev Trace := List (Moment Request.Answer Bool)

namespace Record

def hook? : Record → Option HookResult
  | hook r => some r
  | _ => none

def step? : Record → Option StepResult
  | step r => some r
  | _ => none

def stage? : Record → Option StageEvent
  | stage e => some e
  | _ => none

def announces (stage : Stage) (r : Record) : Bool := r.stage?.any (·.stage == stage)

end Record

structure Call where
  callable : Callable
  args : List Argument

namespace Moment

/-- The record that is handed over, with the fault that handing it over ended in. -/
def handed? : Moment Request.Answer Bool → Option (Record × Option Fault)
  | ⟨.emit r, x, _⟩ => some (r, x)
  | _ => none

def call? : Moment Request.Answer Bool → Option Call
  | ⟨.call c args, _, _⟩ => some ⟨c, args⟩
  | _ => none

def isInterrupt : Moment Request.Answer Bool → Bool
  | ⟨.call .., some f, _⟩ => f.family == .interrupt
  | _ => false

/-- What is called raises no exit, what builds a context raises neither an exit nor an interrupt, and
neither the log nor who is told of ties raises anything. -/
def tame : Moment Request.Answer Bool → Bool
  | ⟨.log _, some _, _⟩ | ⟨.tie .., some _, _⟩ => false
  | ⟨.call .., some f, _⟩ => f.family != .exit
  | ⟨.construct .., .error f, _⟩ => !Composition.escapes f
  | _ => true

/-- Asking for the signal shows what it is and leaves it, a reset clears it, and whoever else has a
turn may request an abort but cannot take a request back. -/
def heeds (requested : Bool) : Moment Request.Answer Bool → Bool
  | ⟨.aborted, true, m⟩ => requested && m
  | ⟨.aborted, false, m⟩ => !requested && !m
  | ⟨.abort _, _, m⟩ => m
  | ⟨.resetAbort, _, m⟩ => !m
  | ⟨_, _, m⟩ => !requested || m

/-- Neither is a record handed over nor a hook or a step called, and the signal is not reset. -/
def isOffstage : Moment Request.Answer Bool → Bool
  | ⟨.emit _, _, _⟩ | ⟨.call .., _, _⟩ | ⟨.resetAbort, _, _⟩ | ⟨.flush, _, _⟩ => false
  | _ => true

@[simp] theorem isInterrupt_call (c : Callable) (args : List Argument) (f : Option Fault) (b : Bool) :
    isInterrupt ⟨.call c args, f, b⟩ = f.any (·.family == .interrupt) := by
  cases f <;> rfl

@[simp] theorem tame_call (c : Callable) (args : List Argument) (f : Option Fault) (b : Bool) :
    tame ⟨.call c args, f, b⟩ = f.all (·.family != .exit) := by
  cases f <;> rfl

/-- Does the sink write out what it holds back, where it is asked to? -/
def flushes : Moment Request.Answer Bool → Bool
  | ⟨.flush, some _, _⟩ => false
  | _ => true

/-- Does the log take what it is told? -/
def logs : Moment Request.Answer Bool → Bool
  | ⟨.log _, some _, _⟩ => false
  | _ => true

theorem logs_of_tame {m : Moment Request.Answer Bool} (h : m.tame = true) : m.logs = true := by
  rcases m with ⟨r, x, b⟩
  cases r with
  | log _ =>
    change Option Fault at x
    cases x with
    | none => rfl
    | some f => cases h
  | _ => rfl

def isReset : Moment Request.Answer Bool → Bool
  | ⟨.resetAbort, _, _⟩ => true
  | _ => false

theorem unseen_of_isOffstage {m : Moment Request.Answer Bool} (h : m.isOffstage = true) :
    m.handed? = none ∧ m.call? = none ∧ m.isInterrupt = false ∧ m.isReset = false := by
  rcases m with ⟨r, x, b⟩
  cases r with
  | emit _ => cases h
  | call _ _ => cases h
  | resetAbort => cases h
  | flush => cases h
  | _ => exact ⟨rfl, rfl, rfl, rfl⟩

theorem mark_of_heeds {m : Moment Request.Answer Bool} (h : m.heeds true = true)
    (hr : m.isReset = false) : m.mark = true := by
  rcases m with ⟨r, x, b⟩
  cases r with
  | aborted =>
    change Bool at x
    cases x <;> simp_all [heeds]
  | _ => simp_all [heeds, isReset]

end Moment

namespace Trace

def handed (t : Trace) : List (Record × Option Fault) := t.filterMap Moment.handed?

def records (t : Trace) : List Record := t.handed.map (·.1)

def hooks (t : Trace) : List HookResult := t.records.filterMap Record.hook?

def steps (t : Trace) : List StepResult := t.records.filterMap Record.step?

def stages (t : Trace) : List StageEvent := t.records.filterMap Record.stage?

def calls (t : Trace) : List Call := t.filterMap Moment.call?

def interrupted (t : Trace) : Bool := t.any Moment.isInterrupt

def tame (t : Trace) : Bool := t.all Moment.tame

def flushed (t : Trace) : Bool := t.all Moment.flushes

def logged (t : Trace) : Bool := t.all Moment.logs

def taken (t : Trace) : Bool := t.handed.all (·.2.isNone)

/-- Is an abort requested after the trace, if it was before as given? -/
def signal : Bool → Trace → Bool
  | requested, [] => requested
  | _, m :: t => signal m.mark t

/-- The moments tell of one signal, which is requested at first as given. -/
def heeds : Bool → Trace → Bool
  | _, [] => true
  | requested, m :: t => m.heeds requested && heeds m.mark t

def offstage (t : Trace) : Bool := t.all Moment.isOffstage

def resets (t : Trace) : Bool := t.any Moment.isReset

variable (t u : Trace) (requested : Bool)

@[simp] theorem handed_nil : handed [] = [] := rfl

@[simp] theorem records_nil : records [] = [] := rfl

@[simp] theorem calls_nil : calls [] = [] := rfl

@[simp] theorem signal_nil : signal requested [] = requested := rfl

@[simp] theorem heeds_nil : heeds requested [] = true := rfl

@[simp] theorem handed_append : handed (t ++ u) = t.handed ++ u.handed := List.filterMap_append

@[simp] theorem records_append : records (t ++ u) = t.records ++ u.records := by simp [records]

@[simp] theorem hooks_append : hooks (t ++ u) = t.hooks ++ u.hooks := by simp [hooks]

@[simp] theorem steps_append : steps (t ++ u) = t.steps ++ u.steps := by simp [steps]

@[simp] theorem stages_append : stages (t ++ u) = t.stages ++ u.stages := by simp [stages]

@[simp] theorem calls_append : calls (t ++ u) = t.calls ++ u.calls := List.filterMap_append

@[simp] theorem interrupted_append : interrupted (t ++ u) = (t.interrupted || u.interrupted) :=
  List.any_append

@[simp] theorem tame_append : tame (t ++ u) = (t.tame && u.tame) := List.all_append

@[simp] theorem flushed_append : flushed (t ++ u) = (t.flushed && u.flushed) := List.all_append

@[simp] theorem logged_append : logged (t ++ u) = (t.logged && u.logged) := List.all_append

@[simp] theorem taken_append : taken (t ++ u) = (t.taken && u.taken) := by simp [taken]

@[simp] theorem offstage_append : offstage (t ++ u) = (t.offstage && u.offstage) := List.all_append

@[simp] theorem resets_append : resets (t ++ u) = (t.resets || u.resets) := List.any_append

@[simp] theorem signal_append : signal requested (t ++ u) = signal (signal requested t) u := by
  induction t generalizing requested with
  | nil => rfl
  | cons m t ih => exact ih m.mark

@[simp] theorem heeds_append :
    heeds requested (t ++ u) = (heeds requested t && heeds (signal requested t) u) := by
  induction t generalizing requested with
  | nil => rfl
  | cons m t ih => simp only [List.cons_append, heeds, ih, signal, Bool.and_assoc]

@[simp] theorem interrupted_cons (m : Moment Request.Answer Bool) :
    interrupted (m :: t) = (m.isInterrupt || t.interrupted) := List.any_cons

@[simp] theorem tame_cons (m : Moment Request.Answer Bool) : tame (m :: t) = (m.tame && t.tame) :=
  List.all_cons

variable {t u requested}

theorem handed_sublist (h : u.Sublist t) : u.handed.Sublist t.handed := h.filterMap _

theorem tame_of_sublist (h : u.Sublist t) (ht : t.tame = true) : u.tame = true := by
  rw [tame, List.all_eq_true] at ht ⊢
  exact fun m hm => ht m (h.subset hm)

theorem logged_of_tame (h : t.tame = true) : t.logged = true :=
  List.all_eq_true.2 fun m hm => Moment.logs_of_tame (List.all_eq_true.1 h m hm)

theorem flushed_of_sublist (h : u.Sublist t) (ht : t.flushed = true) : u.flushed = true := by
  rw [flushed, List.all_eq_true] at ht ⊢
  exact fun m hm => ht m (h.subset hm)

theorem handed_of_offstage (h : t.offstage = true) : t.handed = [] := by
  rw [handed, List.filterMap_eq_nil_iff]
  intro m hm
  exact (Moment.unseen_of_isOffstage (List.all_eq_true.1 h m hm)).1

/-- A refusal by its place. -/
theorem handed_split {n : Nat} (h : (t.handed[n]?.bind (·.2)).isSome = true) :
    ∃ r f, t.handed = t.handed.take n ++ (r, some f) :: t.handed.drop (n + 1) ∧
      t.handed.take (n + 1) = t.handed.take n ++ [(r, some f)] ∧ t.handed[n]? = some (r, some f) := by
  obtain ⟨f, hf⟩ := Option.isSome_iff_exists.1 h
  obtain ⟨⟨r, g⟩, hr, rfl⟩ := Option.bind_eq_some_iff.1 hf
  have hat := hr
  obtain ⟨hlt, hr⟩ := List.getElem?_eq_some_iff.1 hr
  refine ⟨r, f, ?_, ?_, hat⟩
  · rw [← hr, List.getElem_cons_drop, List.take_append_drop]
  · rw [List.take_succ_eq_append_getElem hlt, hr]

theorem split_of_not_mem_left {m : Moment Request.Answer Bool} {v w : Trace}
    (h : t ++ u = v ++ m :: w) (hm : m ∉ t) : ∃ v', v = t ++ v' ∧ u = v' ++ m :: w := by
  rcases split_append h with hright | ⟨w', rfl, _⟩
  · exact hright
  · exact absurd (by simp) hm

theorem split_of_not_mem_right {m : Moment Request.Answer Bool} {v w : Trace}
    (h : t ++ u = v ++ m :: w) (hm : m ∉ u) : ∃ w', t = v ++ m :: w' ∧ w = w' ++ u := by
  rcases split_append h with ⟨v', _, rfl⟩ | hleft
  · exact absurd (by simp) hm
  · exact hleft

/-- Where at most one record is refused, two parts do not each have one that is. -/
theorem exclusive_of_once (h : (t ++ u).handed.countP (·.2.isSome) ≤ 1) {r r' : Record} {f g : Fault}
    (hr : (r, some f) ∈ t.handed) (hr' : (r', some g) ∈ u.handed) : False := by
  rw [handed_append, List.countP_append] at h
  have ht : 0 < t.handed.countP (·.2.isSome) := List.countP_pos_iff.2 ⟨_, hr, rfl⟩
  have hu : 0 < u.handed.countP (·.2.isSome) := List.countP_pos_iff.2 ⟨_, hr', rfl⟩
  omega

theorem records_of_offstage (h : t.offstage = true) : t.records = [] := by
  rw [records, handed_of_offstage h]
  rfl

theorem steps_of_offstage (h : t.offstage = true) : t.steps = [] := by
  rw [steps, records_of_offstage h]
  rfl

theorem handed_of_call {c : Callable} {args : List Argument} {f : Option Fault} {m : Bool}
    (h : t.offstage = true) : handed (⟨.call c args, f, m⟩ :: t) = [] := by
  change handed t = []
  exact handed_of_offstage h

theorem taken_of_handed_nil (h : t.handed = []) : t.taken = true := by
  rw [taken, h]
  rfl

theorem calls_of_offstage (h : t.offstage = true) : t.calls = [] := by
  rw [calls, List.filterMap_eq_nil_iff]
  intro m hm
  exact (Moment.unseen_of_isOffstage (List.all_eq_true.1 h m hm)).2.1

theorem calls_cons_offstage {m : Moment Request.Answer Bool} (h : m.isOffstage = true) :
    calls (m :: t) = t.calls := by
  rw [calls, List.filterMap_cons, (Moment.unseen_of_isOffstage h).2.1]
  rfl

theorem records_of_call {c : Callable} {args : List Argument} {f : Option Fault} {m : Bool}
    (h : t.offstage = true) : records (⟨.call c args, f, m⟩ :: t) = [] := by
  rw [records, handed_of_call h]
  rfl

theorem interrupted_of_offstage (h : t.offstage = true) : t.interrupted = false := by
  rw [interrupted, List.any_eq_false]
  intro m hm
  rw [(Moment.unseen_of_isOffstage (List.all_eq_true.1 h m hm)).2.2.1]
  exact Bool.false_ne_true

theorem resets_of_offstage (h : t.offstage = true) : t.resets = false := by
  rw [resets, List.any_eq_false]
  intro m hm
  rw [(Moment.unseen_of_isOffstage (List.all_eq_true.1 h m hm)).2.2.2]
  exact Bool.false_ne_true

theorem signal_of_heeds (h : t.heeds true = true) (hr : t.resets = false) : t.signal true = true := by
  induction t with
  | nil => rfl
  | cons m t ih =>
    rw [heeds, Bool.and_eq_true] at h
    rw [resets, List.any_cons, Bool.or_eq_false_iff] at hr
    have hm : m.mark = true := Moment.mark_of_heeds h.1 hr.1
    rw [signal, hm]
    exact ih (hm ▸ h.2) hr.2

/-- Who is called fails at most, the sink takes every record, and the signal is heeded. -/
structure Smooth (requested : Bool) (t : Trace) : Prop where
  tame : t.tame = true
  taken : t.taken = true
  heeds : t.heeds requested = true

theorem smooth_append :
    Smooth requested (t ++ u) ↔
      t.Smooth requested ∧ u.Smooth (signal requested t) := by
  constructor
  · rintro ⟨ht, hk, hb⟩
    rw [tame_append, Bool.and_eq_true] at ht
    rw [taken_append, Bool.and_eq_true] at hk
    rw [heeds_append, Bool.and_eq_true] at hb
    exact ⟨⟨ht.1, hk.1, hb.1⟩, ht.2, hk.2, hb.2⟩
  · rintro ⟨ht, hu⟩
    refine ⟨?_, ?_, ?_⟩
    · rw [tame_append, ht.tame, hu.tame, Bool.and_self]
    · rw [taken_append, ht.taken, hu.taken, Bool.and_self]
    · rw [heeds_append, ht.heeds, hu.heeds, Bool.and_self]

/-- Who asks for the signal is told what it is. -/
theorem smooth_aborted {x b : Bool} :
    Smooth requested (⟨.aborted, x, b⟩ :: t) ↔
      (x = requested ∧ b = requested) ∧ t.Smooth requested := by
  have hm : Moment.heeds requested ⟨.aborted, x, b⟩ = true ↔ x = requested ∧ b = requested := by
    cases x <;> cases b <;> cases requested <;> simp [Moment.heeds]
  constructor
  · rintro ⟨ht, hk, hb⟩
    rw [heeds, Bool.and_eq_true, hm] at hb
    obtain ⟨⟨rfl, rfl⟩, hb⟩ := hb
    exact ⟨⟨rfl, rfl⟩, ht, hk, hb⟩
  · rintro ⟨⟨rfl, rfl⟩, ht, hk, hb⟩
    exact ⟨ht, hk, Bool.and_eq_true_iff.2 ⟨hm.2 ⟨rfl, rfl⟩, hb⟩⟩

end Trace
end Rehearsal
