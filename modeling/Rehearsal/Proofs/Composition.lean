import Rehearsal.Proofs.Contexts.Tree
import Rehearsal.Proofs.Observation

/-! The composition of contexts as seen from outside. No record is handed over, no hook
and no step is called; what is handed back, complete or not, has a root. -/

namespace Rehearsal
set_option autoImplicit false

namespace Value

theorem escapes_entryOf {index : Nat} {item : Value} {f : Fault} (h : entryOf index item = .error f) :
    Composition.escapes f = false := by
  rw [entryOf] at h
  split at h
  · cases h
    rfl
  · split at h
    · cases h
    · cases h
      rfl
  · cases h
    rfl

theorem escapes_entriesFrom {same : Value → Value → Bool} {index : Nat} {items : List Value}
    {acc : List (Value × Value)} {f : Fault} (h : entriesFrom same index items acc = .error f) :
    Composition.escapes f = false := by
  induction items generalizing index acc with
  | nil => cases h
  | cons item items ih =>
    rcases except_bind_eq_error_iff.1 h with hi | ⟨a, _, hr⟩
    · exact escapes_entryOf hi
    · exact ih hr

theorem escapes_toEntries {same : Value → Value → Bool} {v : Value} {f : Fault}
    (h : v.toEntries same = .error f) : Composition.escapes f = false := by
  unfold toEntries at h
  split at h
  · cases h
  · rcases except_bind_eq_error_iff.1 h with hi | ⟨items, _, hr⟩
    · unfold iterate at hi
      split at hi <;> cases hi
      rfl
    · exact escapes_entriesFrom hr

end Value

namespace ContextSpec

theorem escapes_validateFrom {seen specs : List ContextSpec} {f : Fault}
    (h : validateFrom seen specs = .error f) : Composition.escapes f = false := by
  obtain ⟨_, _, _, _, _, _, rfl⟩ := exists_of_validateFrom h
  rfl

theorem walk_ne_nil (s : ContextSpec) : s.walk ≠ [] := by
  rw [walk, walkFrom_of_next? (Pending.next?_cons s none [])]
  exact List.cons_ne_nil _ _

end ContextSpec

namespace Composition
variable {t : Trace}

theorem escapes_namedParams {params : Value} {f : Fault} (h : namedParams params = .error f) :
    escapes f = false := by
  rcases except_bind_eq_error_iff.1 h with he | ⟨entries, _, hr⟩
  · exact Value.escapes_toEntries he
  · obtain ⟨⟨k, v⟩, _, hk⟩ := exists_of_mapM_eq_error hr
    dsimp only at hk
    split at hk
    · cases hk
    · cases hk
      rfl

theorem runs_construct {s : ContextSpec} {r : Except Fault Instance} (h : (construct s).Runs t r) :
    t.offstage = true ∧ (t.tame = true → ∀ f, r = .error f → escapes f = false) := by
  rw [construct] at h
  split at h
  · rename_i f hf
    obtain ⟨rfl, rfl⟩ := Program.runs_done_iff.1 h
    refine ⟨rfl, fun _ g hg => ?_⟩
    cases hg
    exact escapes_namedParams hf
  · obtain ⟨m, rfl⟩ := Program.runs_request_iff.1 h
    refine ⟨rfl, fun ht g hg => ?_⟩
    subst hg
    simpa [Trace.tame, Moment.tame] using ht

/-- Contexts that are handed on are told where they are. -/
theorem runs_attach {α : Type} {a : Arena} {x r : α}
    (h : Program.Runs (Program.request (.attach a) >>= fun _ => .done x) t r) :
    r = x ∧ ∃ m, t = [⟨.attach a, (), m⟩] := by
  obtain ⟨u, v, _, rfl, hu, hv⟩ := Program.runs_bind_iff.1 h
  obtain ⟨m, rfl⟩ := Program.runs_request_iff.1 hu
  obtain ⟨rfl, rfl⟩ := Program.runs_done_iff.1 hv
  exact ⟨rfl, m, rfl⟩

theorem runs_salvage {a : Arena} {r : Option Arena} (h : (salvage a).Runs t r) :
    (a.nodes = [] ∧ t = [] ∧ r = none) ∨
      (a.nodes ≠ [] ∧ r = some a ∧ ∃ m, t = [⟨.attach a, (), m⟩]) := by
  rw [salvage] at h
  split at h
  · rename_i ha
    obtain ⟨rfl, rfl⟩ := Program.runs_done_iff.1 h
    exact .inl ⟨List.length_eq_zero_iff.1 (eq_of_beq ha), rfl, rfl⟩
  · rename_i ha
    exact .inr ⟨fun hn => ha (beq_iff_eq.2 (List.length_eq_zero_iff.2 hn)), runs_attach h⟩

theorem rooted_of_salvage {a : Arena} {r : Option Arena} (h : (salvage a).Runs t r) :
    t.offstage = true ∧ ∀ b, r = some b → b.nodes ≠ [] := by
  rcases runs_salvage h with ⟨_, rfl, rfl⟩ | ⟨hn, rfl, _, rfl⟩
  · exact ⟨rfl, nofun⟩
  · exact ⟨rfl, fun b hb => Option.some.inj hb ▸ hn⟩

/-- What composition ends with: contexts that have a root, or a failure that leaves contexts with a
root or none, and that is contained unless a factory was interrupted. -/
structure Composed (t : Trace) (r : Except Broken Arena) : Prop where
  offstage : t.offstage = true
  rooted : ∀ a, r = .ok a → a.nodes ≠ []
  salvaged : ∀ b a, r = .error b → b.salvaged = some a → a.nodes ≠ []
  contained : t.tame = true → ∀ b, r = .error b → escapes b.fault = false

/-- How composition goes on with a context. It is constructed and added, and then it is the turn of the
others, or nothing more is constructed. -/
inductive Placing (a : Arena) (s : ContextSpec) (parent : Option ContextSpec)
    (rest : List (ContextSpec × Option ContextSpec)) : Trace → Except Broken Arena → Prop where
  | escaped (u : Trace) {f : Fault} : (construct s).Runs u (.error f) → escapes f = true →
      Placing a s parent rest u (.error ⟨f, none⟩)
  | failed (u v : Trace) {f : Fault} {salvaged : Option Arena} :
      (construct s).Runs u (.error f) → escapes f = false → (salvage a).Runs v salvaged →
      Placing a s parent rest (u ++ v) (.error ⟨.construction s.aliasName s.identity f, salvaged⟩)
  | clashed (u : Trace) {inst : Instance} {f : Fault} : (construct s).Runs u (.ok inst) →
      a.add ⟨s.aliasName, inst, s.effectiveCapabilities, parent.bind fun p => a.find? p.aliasName⟩ =
        .error f →
      Placing a s parent rest u (.error ⟨f, none⟩)
  | placed (u v : Trace) {inst : Instance} {b : Arena} {r : Except Broken Arena} :
      (construct s).Runs u (.ok inst) →
      a.add ⟨s.aliasName, inst, s.effectiveCapabilities, parent.bind fun p => a.find? p.aliasName⟩ =
        .ok b →
      (composeFrom b rest).Runs v r → Placing a s parent rest (u ++ v) r

theorem runs_composeFrom_cons {a : Arena} {s : ContextSpec} {parent : Option ContextSpec}
    {rest : List (ContextSpec × Option ContextSpec)} {r : Except Broken Arena}
    (h : (composeFrom a ((s, parent) :: rest)).Runs t r) : Placing a s parent rest t r := by
  rw [composeFrom] at h
  obtain ⟨u, v, i, rfl, hu, hv⟩ := Program.runs_bind_iff.1 h
  rcases i with f | inst
  · dsimp only at hv
    split at hv
    · rename_i he
      obtain ⟨rfl, rfl⟩ := Program.runs_done_iff.1 hv
      rw [List.append_nil]
      exact .escaped u hu he
    · rename_i he
      obtain ⟨w, w', o, rfl, hw, hd⟩ := Program.runs_bind_iff.1 hv
      obtain ⟨rfl, rfl⟩ := Program.runs_done_iff.1 hd
      rw [List.append_nil]
      exact .failed u w hu (Bool.not_eq_true _ ▸ he) hw
  · dsimp only at hv
    split at hv
    · rename_i f hf
      obtain ⟨rfl, rfl⟩ := Program.runs_done_iff.1 hv
      rw [List.append_nil]
      exact .clashed u hu hf
    · rename_i b hb
      exact .placed u v hu hb hv

theorem composed_composeFrom {a : Arena} {specs : List (ContextSpec × Option ContextSpec)}
    {r : Except Broken Arena} (hn : a.nodes ≠ [] ∨ specs ≠ [])
    (h : (composeFrom a specs).Runs t r) : Composed t r := by
  induction specs generalizing a t with
  | nil =>
    obtain ⟨rfl, m, rfl⟩ := runs_attach h
    refine ⟨rfl, ?_, nofun, nofun⟩
    intro b hb
    cases hb
    exact hn.resolve_right (· rfl)
  | cons p rest ih =>
    -- A composition that fails leaves what was salvaged, and is contained if the fault is.
    have hbroken : ∀ {t : Trace} {f : Fault} {salvaged : Option Arena}, t.offstage = true →
        (∀ a, salvaged = some a → a.nodes ≠ []) → (t.tame = true → escapes f = false) →
          Composed t (.error ⟨f, salvaged⟩) := by
      intro t f salvaged ht hs hf
      refine ⟨ht, nofun, ?_, ?_⟩
      · rintro b a hb ha
        cases hb
        exact hs a ha
      · rintro htame b hb
        cases hb
        exact hf htame
    cases runs_composeFrom_cons h with
    | escaped u hu _ => exact hbroken (runs_construct hu).1 nofun fun ht => (runs_construct hu).2 ht _ rfl
    | failed u v hu _ hv =>
      refine hbroken ?_ (rooted_of_salvage hv).2 fun _ => rfl
      rw [Trace.offstage_append, (runs_construct hu).1, (rooted_of_salvage hv).1]
      rfl
    | clashed u hu hf =>
      refine hbroken (runs_construct hu).1 nofun fun _ => ?_
      rw [Arena.add] at hf
      split at hf <;> cases hf
      rfl
    | placed u v hu hb hv =>
      obtain ⟨_, rfl⟩ := Arena.add_eq_ok_iff.1 hb
      have hr := ih (.inl (List.append_ne_nil_of_right_ne_nil _ (List.cons_ne_nil _ _))) hv
      refine ⟨?_, hr.rooted, hr.salvaged, fun ht => hr.contained ?_⟩
      · rw [Trace.offstage_append, (runs_construct hu).1, hr.offstage]
        rfl
      · rw [Trace.tame_append, Bool.and_eq_true] at ht
        exact ht.2

end Composition

theorem composed_compose {root : ContextSpec} {t : Trace} {r : Except Broken Arena}
    (h : (compose root).Runs t r) : Composition.Composed t r := by
  rw [compose] at h
  split at h
  · rename_i f hf
    obtain ⟨rfl, rfl⟩ := Program.runs_done_iff.1 h
    refine ⟨rfl, nofun, ?_, ?_⟩
    · rintro b a hb ha
      cases hb
      cases ha
    · rintro _ b hb
      cases hb
      exact ContextSpec.escapes_validateFrom hf
  · exact Composition.composed_composeFrom (.inr root.walk_ne_nil) h

end Rehearsal
