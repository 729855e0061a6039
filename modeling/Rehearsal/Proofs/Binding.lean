import Rehearsal.Definition
import Rehearsal.Proofs.Except

/-! Which callables are accepted. A callable is refused when it is registered unless some number of
positional arguments, of those it may be given, binds to its parameters. The check counts parameters and
does not bind anything, so it relies on their order: those that take positional arguments come first, and
of these the ones that must be given. -/

namespace Rehearsal
set_option autoImplicit false

namespace Signature
variable {α : Type} {s : Signature}

/-- The positional parameters come before all others, and those without a default before those with one. -/
def Regular (s : Signature) : Prop :=
  s.Pairwise fun p q => q.isPositional = true →
    p.isPositional = true ∧ (p.optional = true → q.optional = true)

instance (s : Signature) : Decidable s.Regular :=
  inferInstanceAs (Decidable (s.Pairwise _))

/-- A call with so many positional arguments and no others binds, whatever the arguments are. -/
def Takes (s : Signature) (n : Nat) : Prop :=
  ∀ {α : Type} (callee : String) (args : List α), args.length = n →
    ∃ bound, s.bind callee args [] = .ok bound

/-- The number of positional arguments that must be given. -/
def least (s : Signature) : Nat := (s.positional.filter fun p => !p.optional).length

theorem isRequired_of_isPositional {p : Parameter} (h : p.isPositional = true) :
    p.isRequired = !p.optional := by
  rcases p with ⟨name, role, optional⟩
  cases role <;> simp_all [Parameter.isPositional, Parameter.isRequired, Parameter.isCollector]

theorem least_cons (p : Parameter) (ps : Signature) :
    least (p :: ps) = least ps + if p.isPositional && !p.optional then 1 else 0 := by
  rw [least, least, positional, positional, List.filter_filter, List.filter_filter, List.filter_cons,
    Bool.and_comm]
  split <;> rfl

theorem least_eq_zero_iff : s.least = 0 ↔ ∀ p ∈ s, p.isPositional = true → p.optional = true := by
  rw [least, List.length_eq_zero_iff, List.filter_eq_nil_iff]
  simp [positional]

/-- Behind a parameter that takes no positional argument, or need not be given one, none must be given. -/
theorem Regular.least_eq_zero {p : Parameter} {ps : Signature} (h : Regular (p :: ps))
    (hp : p.isPositional = false ∨ p.optional = true) : least ps = 0 := by
  refine least_eq_zero_iff.2 fun q hq hpos => ?_
  obtain ⟨hfirst, hdefault⟩ := (List.pairwise_cons.1 h).1 q hq hpos
  rcases hp with hp | hp
  · cases hp.symm.trans hfirst
  · exact hdefault hp

theorem missingNames_eq_nil_iff {bound : Bindings α} {p : Parameter → Bool} :
    missingNames bound p = [] ↔
      ∀ b ∈ bound, p b.1 = true → b.1.isRequired = true → isAbsent b.2 = false := by
  simp [missingNames]

/-- A parameter that takes no positional argument leaves none to those behind it. -/
theorem fillPositional_cons_of_not {p : Parameter} (hp : p.isPositional = false) (ps : Signature)
    (args : List α) : ∃ slot, fillPositional (p :: ps) args = (p, slot) :: fillPositional ps [] ∧
      (p.role = .keywordOnly → isAbsent slot = true) := by
  rw [fillPositional.eq_def]
  dsimp only
  rw [hp, if_neg Bool.false_ne_true]
  split
  · rename_i hr
    exact ⟨_, rfl, fun h => nomatch hr.symm.trans h⟩
  · rename_i hr
    exact ⟨_, rfl, fun h => nomatch hr.symm.trans h⟩
  · exact ⟨_, rfl, fun _ => rfl⟩

/-- Nothing positional is missing when as many arguments are given as must be. -/
theorem missingNames_positional_iff (h : s.Regular) (args : List α) :
    missingNames (s.fillPositional args) Parameter.isPositional = [] ↔ s.least ≤ args.length := by
  rw [missingNames_eq_nil_iff]
  induction s generalizing args with
  | nil => simp [fillPositional, least, positional]
  | cons p ps ih =>
    have hps : Regular ps := (List.pairwise_cons.1 h).2
    cases hp : p.isPositional with
    | false =>
      obtain ⟨slot, hslot, _⟩ := fillPositional_cons_of_not hp ps args
      have hzero := h.least_eq_zero (.inl hp)
      rw [hslot, List.forall_mem_cons, ih hps, least_cons, hp, hzero]
      simp
    | true =>
      cases args with
      | nil =>
        rw [fillPositional, if_pos hp, List.forall_mem_cons, ih hps, least_cons, hp,
          isRequired_of_isPositional hp]
        cases p.optional <;> simp [isAbsent]
      | cons a args =>
        rw [fillPositional, if_pos hp, List.forall_mem_cons, ih hps, least_cons, hp]
        cases ho : p.optional with
        | true => simp [isAbsent, h.least_eq_zero (.inr ho)]
        | false => simp [isAbsent]

theorem map_fst_fillPositional (s : Signature) (args : List α) :
    (s.fillPositional args).map (·.1) = s := by
  induction s generalizing args with
  | nil => rfl
  | cons p ps ih =>
    cases hp : p.isPositional with
    | false =>
      obtain ⟨slot, hslot, _⟩ := fillPositional_cons_of_not hp ps args
      rw [hslot, List.map_cons, ih]
    | true => cases args <;> rw [fillPositional, if_pos hp, List.map_cons, ih]

/-- Parameters that go by name only are not given by position. -/
theorem isAbsent_of_keywordOnly {args : List α} {b : Parameter × Slot α}
    (hb : b ∈ s.fillPositional args) (hr : b.1.role = .keywordOnly) : isAbsent b.2 = true := by
  have hnot : ∀ {p : Parameter}, p.isPositional = true → p.role ≠ .keywordOnly := by
    intro p hp hr
    simp [Parameter.isPositional, hr] at hp
  induction s generalizing args with
  | nil => cases hb
  | cons p ps ih =>
    cases hp : p.isPositional with
    | false =>
      obtain ⟨slot, hslot, habsent⟩ := fillPositional_cons_of_not hp ps args
      rw [hslot] at hb
      rcases List.mem_cons.1 hb with rfl | hb
      · exact habsent hr
      · exact ih hb
    | true =>
      cases args with
      | nil | cons _ _ =>
        rw [fillPositional, if_pos hp] at hb
        rcases List.mem_cons.1 hb with rfl | hb
        · exact absurd hr (hnot hp)
        · exact ih hb

theorem missingNames_keywordOnly_iff (args : List α) :
    missingNames (s.fillPositional args) (·.role == .keywordOnly) = [] ↔
      s.required.any (·.role == .keywordOnly) = false := by
  rw [missingNames_eq_nil_iff, List.any_eq_false, required]
  constructor
  · intro hgiven p hp hr
    obtain ⟨hs, hreq⟩ := List.mem_filter.1 hp
    rw [← map_fst_fillPositional s args] at hs
    obtain ⟨b, hb, rfl⟩ := List.mem_map.1 hs
    cases (hgiven b hb hr hreq).symm.trans (isAbsent_of_keywordOnly hb (eq_of_beq hr))
  · intro hnone b hb hr hreq
    have hs : b.1 ∈ s := map_fst_fillPositional s args ▸ List.mem_map_of_mem hb
    exact absurd hr (hnone b.1 (List.mem_filter.2 ⟨hs, hreq⟩))

theorem exists_bind_iff (h : s.Regular) (callee : String) (args : List α) :
    (∃ bound, s.bind callee args [] = .ok bound) ↔ s.takesPositional args.length = true ∧
      s.least ≤ args.length ∧ s.required.any (·.role == .keywordOnly) = false := by
  have hroom : (decide (s.positional.length < args.length) && !s.hasVariadic) =
      !s.takesPositional args.length := by
    rw [takesPositional]
    cases s.hasVariadic <;> simp [← decide_not]
  rw [← missingNames_positional_iff h, ← missingNames_keywordOnly_iff args, bind]
  simp only [fillAllNamed, except_ok_bind, hroom]
  generalize missingNames _ _ = unfilled
  generalize (missingNames _ fun p : Parameter => p.role == .keywordOnly) = unnamed
  cases s.takesPositional args.length with
  | false => exact iff_of_false (fun ⟨_, hb⟩ => nomatch hb) (fun hb => nomatch hb.1)
  | true =>
    cases unfilled with
    | cons _ _ => exact iff_of_false (fun ⟨_, hb⟩ => nomatch hb) (fun hb => nomatch hb.2.1)
    | nil =>
      cases unnamed with
      | cons _ _ => exact iff_of_false (fun ⟨_, hb⟩ => nomatch hb) (fun hb => nomatch hb.2.2)
      | nil => exact iff_of_true ⟨_, rfl⟩ ⟨rfl, rfl, rfl⟩

theorem takes_iff (h : s.Regular) {n : Nat} :
    s.Takes n ↔ s.takesPositional n = true ∧ s.least ≤ n ∧
      s.required.any (·.role == .keywordOnly) = false := by
  constructor
  · intro ht
    have hu := ht "" (List.replicate n ()) List.length_replicate
    rwa [exists_bind_iff h, List.length_replicate] at hu
  · rintro hn α callee args rfl
    exact (exists_bind_iff h callee args).2 hn

theorem least_le_length_positional : s.least ≤ s.positional.length :=
  List.filter_sublist.length_le

/-- What must be given is given by position, unless it goes by name only. -/
theorem length_required (h : s.required.any (·.role == .keywordOnly) = false) :
    s.required.length = s.least := by
  rw [List.any_eq_false] at h
  have hrole : ∀ p ∈ s, p.isRequired = (p.isPositional && !p.optional) := by
    intro p hp
    have hnot : p.isRequired = true → p.role ≠ .keywordOnly :=
      fun hr he => h p (List.mem_filter.2 ⟨hp, hr⟩) (beq_iff_eq.2 he)
    rcases p with ⟨name, role, optional⟩
    cases role <;> cases optional <;>
      simp_all [Parameter.isRequired, Parameter.isPositional, Parameter.isCollector]
  rw [required, least, positional, List.filter_filter, List.filter_congr hrole]
  simp only [Bool.and_comm]

end Signature

section Accepted
variable {c : Callable} {s : Signature} {subject : String} {count extra : Nat}

theorem ensureAccepts_eq_ok_iff (hc : c.isCallable = true) (hs : c.signature = some s) :
    ensureAccepts c count subject extra = .ok () ↔ s.takesPositional count = true ∧
      s.required.any (·.role == .keywordOnly) = false ∧ s.required.length ≤ count + extra := by
  rw [ensureAccepts, hc, hs]
  dsimp only
  generalize s.takesPositional count = room
  generalize s.required.any _ = named
  cases room <;> cases named <;> simp

/-- A callable is accepted when there is a number of positional arguments, of those it may be given, that
binds. -/
theorem ensureAccepts_iff_exists_takes (hc : c.isCallable = true) (hs : c.signature = some s)
    (hreg : s.Regular) :
    ensureAccepts c count subject extra = .ok () ↔
      ∃ n, count ≤ n ∧ n ≤ count + extra ∧ s.Takes n := by
  simp only [ensureAccepts_eq_ok_iff hc hs, Signature.takes_iff hreg]
  constructor
  · rintro ⟨hroom, hnamed, hlen⟩
    rw [Signature.length_required hnamed] at hlen
    refine ⟨max count s.least, Nat.le_max_left _ _, by omega, ?_, Nat.le_max_right _ _, hnamed⟩
    have hleast := s.least_le_length_positional
    rw [Signature.takesPositional, Bool.or_eq_true, decide_eq_true_eq] at hroom ⊢
    exact hroom.imp_right fun hcount => by omega
  · rintro ⟨n, hcount, hn, hroom, hleast, hnamed⟩
    rw [Signature.length_required hnamed]
    rw [Signature.takesPositional, Bool.or_eq_true, decide_eq_true_eq] at hroom ⊢
    exact ⟨hroom.imp_right (Nat.le_trans hcount), hnamed, Nat.le_trans hleast hn⟩

theorem isCallable_of_ensureAccepts (h : ensureAccepts c count subject extra = .ok ()) :
    c.isCallable = true := by
  cases hc : c.isCallable with
  | true => rfl
  | false =>
    rw [ensureAccepts, hc] at h
    cases h

end Accepted

/-- A hook that was made and not refused. -/
def Hook.Made (h : Hook) : Prop :=
  ∃ phase callable owner tags location, Hook.make phase callable owner tags location = .ok h

/-- A step definition that was made and not refused. -/
def StepDefinition.Made (d : StepDefinition) : Prop :=
  ∃ pattern callable owner priority keyword types location,
    StepDefinition.make pattern callable owner priority keyword types location = .ok d

/-- All that is put into a hook when it is made, once its callable was looked at. -/
theorem Hook.of_make {phase tags : Value} {callable : Callable} {owner : Option String}
    {location : Option SourceLocation} {h : Hook} (hm : make phase callable owner tags location = .ok h) :
    HookPhase.ofValue phase = .ok h.phase ∧ tagsOf tags = .ok h.tags ∧ h.callable = callable ∧
      h.owner = owner ∧ ∃ subject, ensureAccepts h.callable (argumentCount h.phase) subject 0 = .ok () := by
  obtain ⟨p, hphase, hm⟩ := except_bind_eq_ok_iff.1 hm
  obtain ⟨filter, htags, hm⟩ := except_bind_eq_ok_iff.1 hm
  dsimp only at hm
  split at hm
  · cases hm
  · rename_i haccepts
    cases hm
    exact ⟨hphase, htags, rfl, rfl, _, haccepts⟩

/-- A hook that was made can be called with the arguments that its phase gives. -/
theorem Hook.Made.takes {h : Hook} {s : Signature} (hm : h.Made) (hs : h.callable.signature = some s)
    (hreg : s.Regular) : s.Takes (Hook.argumentCount h.phase) := by
  obtain ⟨phase, callable, owner, tags, location, hm⟩ := hm
  obtain ⟨_, _, _, _, subject, haccepts⟩ := Hook.of_make hm
  obtain ⟨n, hle, hge, ht⟩ := (ensureAccepts_iff_exists_takes
    (isCallable_of_ensureAccepts haccepts) hs hreg).1 haccepts
  obtain rfl : n = Hook.argumentCount h.phase := Nat.le_antisymm hge hle
  exact ht

theorem StepDefinition.source_of_compilePattern {source : String} {p : Pattern}
    (h : compilePattern source = .ok p) : p.source = source ∧ Pattern.compile source = .ok p := by
  unfold compilePattern at h
  split at h
  · rename_i compiled hcompiled
    cases h
    refine ⟨?_, hcompiled⟩
    obtain ⟨parsed, _, hp⟩ := except_bind_eq_ok_iff.1 hcompiled
    obtain ⟨_, _, hp⟩ := except_bind_eq_ok_iff.1 hp
    exact (congrArg Pattern.source (Except.ok.inj hp)).symm
  · split at h <;> cases h

/-- All that is put into a definition when it is made, once its pattern was read and its callable was looked
at. -/
theorem StepDefinition.of_make {pattern keyword : Value} {callable : Callable} {owner : Option String}
    {priority : Int} {types : List (Option String)} {location : Option SourceLocation}
    {d : StepDefinition}
    (hm : make pattern callable owner priority keyword types location = .ok d) :
    pattern = .text d.source ∧ Pattern.compile d.source = .ok d.pattern ∧
      checkKeyword keyword = .ok d.keyword ∧ d.callable = callable ∧ d.owner = owner ∧
      d.priority = priority ∧ d.types = types ∧
      ensureAccepts d.callable (1 + d.arity) ("step '" ++ d.source ++ "'") 1 = .ok () := by
  unfold StepDefinition.make at hm
  split at hm
  · split at hm
    · cases hm
    · obtain ⟨kept, hkeyword, hm⟩ := except_bind_eq_ok_iff.1 hm
      obtain ⟨compiled, hcompiled, hm⟩ := except_bind_eq_ok_iff.1 hm
      by_cases hlt : compiled.arity < types.length
      · rw [if_pos hlt] at hm
        cases hm
      · rw [if_neg hlt] at hm
        split at hm
        · cases hm
        · rename_i haccepts
          cases hm
          obtain ⟨rfl, hcompiles⟩ := source_of_compilePattern hcompiled
          exact ⟨rfl, hcompiles, hkeyword, rfl, rfl, rfl, rfl, haccepts⟩
  · cases hm

/-- A definition that was made can be called with its context and its captures, or with one more. -/
theorem StepDefinition.Made.takes {d : StepDefinition} {s : Signature} (hm : d.Made)
    (hs : d.callable.signature = some s) (hreg : s.Regular) :
    s.Takes (1 + d.arity) ∨ s.Takes (1 + d.arity + 1) := by
  obtain ⟨_, _, _, _, _, _, _, hm⟩ := hm
  obtain ⟨_, _, _, _, _, _, _, haccepts⟩ := of_make hm
  obtain ⟨n, hle, hge, ht⟩ := (ensureAccepts_iff_exists_takes
    (isCallable_of_ensureAccepts haccepts) hs hreg).1 haccepts
  rcases Nat.le_or_eq_of_le_succ hge with hn | rfl
  · exact .inl (Nat.le_antisymm hn hle ▸ ht)
  · exact .inr ht

end Rehearsal
