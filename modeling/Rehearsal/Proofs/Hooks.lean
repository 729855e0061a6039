import Mathlib.Data.List.Forall2
import Rehearsal.Proofs.Observation

/-! How a run is bracketed by hooks: up to the first that fails before a part of it, and all of them
after it. What counts as a failure, and how a hook is called, differs between a suite and its
scenarios; it is left open here. So is what belongs to one of several things that have their turns. -/

namespace Rehearsal
set_option autoImplicit false

/-- What is called, with the fault that the call ended in. -/
def Moment.invocation? : Moment Request.Answer Bool → Option (Call × Option Fault)
  | ⟨.call c args, f, _⟩ => some (⟨c, args⟩, f)
  | _ => none

/-- Is it announced that a scenario or a step is begun? -/
def Record.begins (r : Record) : Bool := r.announces .initializing || r.announces .runningStep

def Moment.begins (m : Moment Request.Answer Bool) : Bool := m.handed?.any (·.1.begins)

namespace Trace
variable {t u : Trace} {requested : Bool}

def invocations (t : Trace) : List (Call × Option Fault) := t.filterMap Moment.invocation?

@[simp] theorem invocations_append : invocations (t ++ u) = t.invocations ++ u.invocations :=
  List.filterMap_append

theorem map_invocations (t : Trace) : t.invocations.map (·.1) = t.calls := by
  rw [invocations, calls, List.map_filterMap]
  congr 1
  funext m
  rcases m with ⟨r, x, b⟩
  cases r <;> rfl

theorem invocations_eq_nil (h : t.calls = []) : t.invocations = [] := by
  rw [← map_invocations, List.map_eq_nil_iff] at h
  exact h

theorem invocations_of_call {c : Callable} {args : List Argument} {f : Option Fault} {m : Bool}
    (h : t.offstage = true) : invocations (⟨.call c args, f, m⟩ :: t) = [(⟨c, args⟩, f)] := by
  change (⟨c, args⟩, f) :: invocations t = _
  rw [invocations_eq_nil (calls_of_offstage h)]

/-- Is a scenario or a step begun? -/
def begins (t : Trace) : Bool := t.any Moment.begins

@[simp] theorem begins_append : begins (t ++ u) = (t.begins || u.begins) := List.any_append

@[simp] theorem begins_cons (m : Moment Request.Answer Bool) :
    begins (m :: t) = (m.begins || t.begins) := List.any_cons

theorem begins_of_handed_nil (h : t.handed = []) : t.begins = false := by
  rw [begins, List.any_eq_false]
  intro m hm
  rw [Moment.begins, List.filterMap_eq_nil_iff.1 h m hm]
  exact Bool.false_ne_true

theorem begins_of_offstage (h : t.offstage = true) : t.begins = false :=
  begins_of_handed_nil (handed_of_offstage h)

/-- Nothing is called, and neither a scenario nor a step is begun. -/
def Idle (t : Trace) : Prop := t.calls = [] ∧ t.begins = false

theorem idle_of_offstage (h : t.offstage = true) : t.Idle :=
  ⟨calls_of_offstage h, begins_of_offstage h⟩

theorem Idle.append (ht : t.Idle) (hu : u.Idle) : Idle (t ++ u) := by
  simp [Idle, ht.1, ht.2, hu.1, hu.2]

/-- Nothing is begun while an abort is requested. -/
def complies : Bool → Trace → Bool
  | _, [] => true
  | requested, m :: t => !(m.begins && requested) && complies m.mark t

@[simp] theorem complies_append :
    complies requested (t ++ u) = (complies requested t && complies (signal requested t) u) := by
  induction t generalizing requested with
  | nil => rfl
  | cons m t ih => simp only [List.cons_append, complies, ih, signal, Bool.and_assoc]

theorem complies_of_begins (h : t.begins = false) : t.complies requested = true := by
  induction t generalizing requested with
  | nil => rfl
  | cons m t ih =>
    rw [begins_cons, Bool.or_eq_false_iff] at h
    rw [complies, h.1, ih h.2]
    rfl

/-- Where no request is taken back, nothing is begun after one. -/
theorem begins_of_complies (hc : t.complies true = true) (hb : t.heeds true = true)
    (hr : t.resets = false) : t.begins = false := by
  induction t with
  | nil => rfl
  | cons m t ih =>
    rw [complies, Bool.and_eq_true] at hc
    rw [heeds, Bool.and_eq_true] at hb
    rw [resets, List.any_cons, Bool.or_eq_false_iff] at hr
    have hm : m.mark = true := Moment.mark_of_heeds hb.1 hr.1
    rw [begins_cons, ih (hm ▸ hc.2) (hm ▸ hb.2) hr.2, Bool.or_false]
    simpa using hc.1

end Trace

/-- Hooks are called in order, up to and including the first that fails. Did none fail? -/
inductive UpToFailure (fits : Call → Hook → Prop) (fails : Option Fault → Bool) :
    List Hook → List (Call × Option Fault) → Bool → Prop where
  | nil : UpToFailure fits fails [] [] true
  | halt {k : Call} {h : Hook} {hs : List Hook} {f : Option Fault} :
      fits k h → fails f = true → UpToFailure fits fails (h :: hs) [(k, f)] false
  | next {k : Call} {h : Hook} {hs : List Hook} {ks : List (Call × Option Fault)} {f : Option Fault}
      {ready : Bool} : fits k h → fails f = false → UpToFailure fits fails hs ks ready →
        UpToFailure fits fails (h :: hs) ((k, f) :: ks) ready

/-- Hooks before a body are called up to the first that fails, which the body is told of. The hooks
after it are all called, each once and in order, and are shown what there is to show by then. -/
inductive Bracket {β γ : Type} (opens : Call → Hook → Prop) (fails : Option Fault → Bool)
    (before : List Hook) (body : Bool → Bool → Trace → β → Prop) (closes : γ → Call → Hook → Prop)
    (after : List Hook) (requested : Bool) : Trace → β → Prop where
  | intro {u v w : Trace} {ready : Bool} {b : β} (shown : γ) :
      UpToFailure opens fails before u.invocations ready → u.begins = false →
      body ready (u.signal requested) v b →
      List.Forall₂ (closes shown) w.calls after → w.begins = false →
        Bracket opens fails before body closes after requested (u ++ (v ++ w)) b

/-- Each of some things has a part of a trace, in order and without gaps. A part is told whether an
abort is requested as it begins. -/
inductive InTurn {α β : Type} (P : α → Bool → Trace → β → Prop) :
    List α → Bool → Trace → List β → Prop where
  | nil (requested : Bool) : InTurn P [] requested [] []
  | cons {a : α} {as : List α} {b : β} {bs : List β} {requested : Bool} {t u : Trace} :
      P a requested t b → InTurn P as (t.signal requested) u bs →
        InTurn P (a :: as) requested (t ++ u) (b :: bs)

/-- Something has its turn: it is skipped, where it may be, or it is started. It is not started while
an abort is requested, of which it asks at first. -/
inductive Turn {α β : Type} (may : Bool → Prop) (skip : α → β) (P : α → Trace → β → Prop) (a : α) :
    Bool → Trace → β → Prop where
  | skipped {requested : Bool} {t : Trace} : may requested → t.Idle → Turn may skip P a requested t (skip a)
  | started {t : Trace} {b : β} : P a t b → Turn may skip P a false (⟨.aborted, false, false⟩ :: t) b

/-- What hooks are before: some things have their turns, or all are skipped if one of the hooks
failed. -/
def TurnsIf {α β : Type} (may : Bool → Prop) (skip : α → β) (P : α → Trace → β → Prop) (as : List α)
    (ready requested : Bool) (t : Trace) (bs : List β) : Prop :=
  if ready then InTurn (Turn may skip P) as requested t bs else t.Idle ∧ bs = as.map skip

section Complies
variable {α β γ : Type} {opens : Call → Hook → Prop} {fails : Option Fault → Bool}
  {before after : List Hook} {body : Bool → Bool → Trace → β → Prop}
  {closes : γ → Call → Hook → Prop} {requested : Bool} {t : Trace}

theorem Bracket.complies {b : β} (h : Bracket opens fails before body closes after requested t b)
    (hbody : ∀ ready requested t b, body ready requested t b → t.complies requested = true) :
    t.complies requested = true := by
  cases h with
  | intro shown _ hu hv _ hw =>
    rw [Trace.complies_append, Trace.complies_append, Trace.complies_of_begins hu,
      hbody _ _ _ _ hv, Trace.complies_of_begins hw]
    rfl

/-- Nothing is lost when the bracket is widened by what neither calls nor begins anything. -/
theorem Bracket.precede {u : Trace} {b : β} (hu : u.Idle)
    (h : Bracket opens fails before body closes after (u.signal requested) t b) :
    Bracket opens fails before body closes after requested (u ++ t) b := by
  cases h with
  | @intro t₁ t₂ t₃ ready b shown hopen ht₁ hbody hclose ht₃ =>
    rw [← Trace.signal_append] at hbody
    rw [← List.nil_append t₁.invocations, ← Trace.invocations_eq_nil hu.1,
      ← Trace.invocations_append] at hopen
    rw [← List.append_assoc]
    refine .intro shown hopen ?_ hbody hclose ht₃
    rw [Trace.begins_append, hu.2, ht₁]
    rfl

section Turns
variable {may : Bool → Prop} {skip : α → β} {P : α → Trace → β → Prop} {as : List α} {bs : List β}
  (hP : ∀ a t b, P a t b → t.complies false = true)
include hP

theorem Turn.complies {a : α} {b : β} (h : Turn may skip P a requested t b) :
    t.complies requested = true := by
  cases h with
  | skipped _ hidle => exact Trace.complies_of_begins hidle.2
  | @started t _ hp =>
    have ht : t.complies false = true := hP a t b hp
    exact ht

theorem InTurn.complies (h : InTurn (Turn may skip P) as requested t bs) :
    t.complies requested = true := by
  induction h with
  | nil b => rfl
  | cons hturn _ ih => rw [Trace.complies_append, hturn.complies hP, ih, Bool.and_self]

theorem TurnsIf.complies {ready : Bool} (h : TurnsIf may skip P as ready requested t bs) :
    t.complies requested = true := by
  cases ready with
  | false => exact Trace.complies_of_begins h.1.2
  | true => exact InTurn.complies hP h

end Turns
end Complies
end Rehearsal
