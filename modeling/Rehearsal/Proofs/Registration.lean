import Rehearsal.Proofs.Bootstrap.Findings
import Rehearsal.Proofs.Selection

/-! What a registry holds after any sequence of operations, some of which are refused. It is what was
accepted, in that order, and no two definitions share a key. Behind a registry are three stores: the
definitions in a list, an index of them by key, and a list of hooks for each phase. They stay in step,
also where an operation is refused. -/

namespace Rehearsal
set_option autoImplicit false

namespace Tag
variable {t : String} {f : Fault}

/-- What a text says as a tag. -/
def plain (t : String) : String := String.ofList (bare t.toList)

theorem normalize_eq_plain (h : bare t.toList ≠ []) : normalize t = .ok (plain t) :=
  normalize_eq_ok_iff.2 ⟨by rw [plain, String.toList_ofList], by rwa [plain, String.toList_ofList]⟩

end Tag

namespace Hook
variable {h : Hook} {tags : Option (List String)}

/-- The filter of the hook admits the tags. Without a filter, or without tags, all is admitted. -/
def admits (h : Hook) (tags : Option (List String)) : Bool :=
  match h.tags, tags with
  | some filter, some tags => filter.holds (tags.map Tag.plain)
  | _, _ => true

/-- A hook with a filter cannot tell whether it applies when nothing is left of one of the tags. -/
def Balks (h : Hook) (tags : Option (List String)) : Prop :=
  h.tags ≠ none ∧ ∃ t ∈ tags.getD [], Tag.bare t.toList = []

theorem appliesTo_eq_admits (hb : ¬ h.Balks tags) : h.appliesTo tags = .ok (h.admits tags) := by
  unfold appliesTo admits
  cases hf : h.tags with
  | none => rfl
  | some filter =>
    cases tags with
    | none => rfl
    | some tags =>
      have hplain : tags.mapM Tag.normalize = .ok (tags.map Tag.plain) := by
        refine mapM_eq_ok_iff.2 (List.forall₂_map_right_iff.2 (List.forall₂_same.2 fun t ht => ?_))
        exact Tag.normalize_eq_plain fun hnil => hb ⟨hf ▸ nofun, t, ht, hnil⟩
      exact except_bind_eq_ok_iff.2 ⟨_, hplain, rfl⟩

theorem not_exists_appliesTo (hb : h.Balks tags) : ¬ ∃ b, h.appliesTo tags = .ok b := by
  obtain ⟨hf, t, ht, hnil⟩ := hb
  cases tags with
  | none => cases ht
  | some tags =>
    rw [exists_appliesTo_iff]
    rintro (hnone | hall)
    · exact hf hnone
    · exact Tag.exists_normalize_iff.1 (hall t ht) hnil

end Hook

namespace Registry
variable {r r' : Registry} {phase : HookPhase} {tags : Option (List String)}

/-- The hooks of a phase that admit the tags, in their order. -/
theorem lookup_eq_ok (h : ∀ hook ∈ r.hooksOf phase, ¬ hook.Balks tags) :
    r.lookup phase tags = .ok ((r.hooksOf phase).filter (·.admits tags)) := by
  have hmark : ((r.hooksOf phase).mapM fun hook => do return (hook, ← hook.appliesTo tags)) =
      .ok ((r.hooksOf phase).map fun hook => (hook, hook.admits tags)) := by
    refine mapM_eq_ok_iff.2 (List.forall₂_map_right_iff.2 (List.forall₂_same.2 fun hook hm => ?_))
    exact except_bind_eq_ok_iff.2 ⟨_, Hook.appliesTo_eq_admits (h hook hm), rfl⟩
  rw [lookup, hmark, except_ok_bind, List.filter_map, List.map_map]
  exact congrArg Except.ok (List.map_id' _)

theorem lookup_eq_blankTag (h : ∃ hook ∈ r.hooksOf phase, hook.Balks tags) :
    r.lookup phase tags = .error .blankTag := by
  obtain ⟨hook, hm, hb⟩ := h
  cases hl : r.lookup phase tags with
  | ok hooks => exact absurd (exists_lookup_iff.1 ⟨hooks, hl⟩ hook hm) (Hook.not_exists_appliesTo hb)
  | error f => rw [eq_blankTag_of_lookup hl]

/-- What is done to a registry. -/
inductive Operation where
  | register (item : Item)
  | registerAll (items : List Item)
  | freeze

/-- What an operation leaves, and what it raises. -/
def Operation.act (op : Operation) (r : Registry) : Registry × Option Fault :=
  match op with
  | register item =>
    match r.register item with
    | .ok r' => (r', none)
    | .error f => (r, some f)
  | registerAll items => r.registerAll items
  | freeze => (r.freeze, none)

/-- The items that an operation hands over. -/
def Operation.items : Operation → List Item
  | register item => [item]
  | registerAll items => items
  | freeze => []

/-- The registry when operations were tried one after another. -/
def after (r : Registry) (ops : List Operation) : Registry := ops.foldl (fun r op => (op.act r).1) r

/-- Of the items handed over, those that are registered before one is refused. -/
def taken (r : Registry) : List Item → List Item
  | [] => []
  | item :: items =>
    match r.register item with
    | .ok r' => item :: r'.taken items
    | .error _ => []

/-- The items that are registered when operations are tried one after another. -/
def accepted (r : Registry) : List Operation → List Item
  | [] => []
  | op :: ops => r.taken op.items ++ (op.act r).1.accepted ops

/-- The items are all that a registry holds: definitions and hooks each in their order, and no two
definitions under one key. -/
structure Holds (r : Registry) (items : List Item) : Prop where
  definitions : r.definitions = items.filterMap Item.definition?
  registered : r.registered = items.filterMap Item.hook?
  size : r.size = items.length
  nodup : (r.definitions.map StepDefinition.key).Nodup

theorem holds_empty : empty.Holds [] := ⟨rfl, rfl, rfl, List.nodup_nil⟩

theorem hasKey_iff {key : String × Nat × Int} :
    r.hasKey key = true ↔ ∃ d ∈ r.definitions, d.key = key := by
  simp [hasKey]

/-- What a registry accepts before it is frozen: a definition under a key of its own, and any hook. -/
theorem register_eq_ok_iff {item : Item} :
    r.register item = .ok r' ↔ r.frozen = false ∧
      ((∃ d, item = .step d ∧ (∀ d' ∈ r.definitions, d'.key ≠ d.key) ∧
          r' = { r with definitions := r.definitions ++ [d] }) ∨
        ∃ h, item = .hook h ∧ r' = { r with registered := r.registered ++ [h] }) := by
  cases hf : r.frozen with
  | true => simp [register.eq_def, hf]
  | false =>
    cases item with
    | step d =>
      have hfresh : (∀ d' ∈ r.definitions, d'.key ≠ d.key) ↔ ¬ r.hasKey d.key = true := by
        simp [hasKey_iff]
      by_cases hk : r.hasKey d.key = true
      · simp [register.eq_def, hf, hfresh, hk]
      · simpa [register.eq_def, hf, hfresh, hk] using eq_comm
    | hook h => simp [register.eq_def, hf, eq_comm]
    | other kind => simp [register.eq_def, hf]

theorem Holds.register {items : List Item} {item : Item} (h : r.Holds items)
    (hr : r.register item = .ok r') : r'.Holds (items ++ [item]) := by
  obtain ⟨_, ⟨d, rfl, hfresh, rfl⟩ | ⟨k, rfl, rfl⟩⟩ := register_eq_ok_iff.1 hr
  · refine ⟨?_, ?_, ?_, ?_⟩
    · rw [List.filterMap_append, ← h.definitions]
      rfl
    · rw [List.filterMap_append, ← h.registered]
      exact (List.append_nil _).symm
    · rw [List.length_append, ← h.size]
      simp [Registry.size, Nat.add_right_comm]
    · rw [List.map_append, List.nodup_append]
      refine ⟨h.nodup, List.nodup_cons.2 ⟨nofun, List.nodup_nil⟩, ?_⟩
      rintro key hkey _ hd rfl
      obtain ⟨d', hd', he⟩ := List.mem_map.1 hkey
      exact hfresh d' hd' (he.trans (List.mem_singleton.1 hd))
  · refine ⟨?_, ?_, ?_, h.nodup⟩
    · rw [List.filterMap_append, ← h.definitions]
      exact (List.append_nil _).symm
    · rw [List.filterMap_append, ← h.registered]
      rfl
    · rw [List.length_append, ← h.size]
      simp [Registry.size, Nat.add_assoc]

/-- Registering items one by one stops at the first that is refused, and keeps what was registered before. -/
theorem registerAll_cases (r : Registry) (items : List Item) :
    ∃ rest, items = r.taken items ++ rest ∧
      (rest = [] ∧ (r.registerAll items).2 = none ∨
        ∃ item later f, rest = item :: later ∧ (r.registerAll items).2 = some f ∧
          (r.registerAll items).1.register item = .error f) := by
  induction items generalizing r with
  | nil => exact ⟨[], rfl, .inl ⟨rfl, rfl⟩⟩
  | cons item items ih =>
    rw [taken, registerAll]
    cases hr : r.register item with
    | error f => exact ⟨item :: items, rfl, .inr ⟨item, items, f, rfl, rfl, hr⟩⟩
    | ok r' =>
      obtain ⟨rest, heq, hrest⟩ := ih r'
      exact ⟨rest, congrArg (item :: ·) heq, hrest⟩

theorem Holds.registerAll {items : List Item} (h : r.Holds items) (more : List Item) :
    (r.registerAll more).1.Holds (items ++ r.taken more) := by
  induction more generalizing r items with
  | nil => rwa [taken, List.append_nil]
  | cons item more ih =>
    rw [taken, Registry.registerAll]
    cases hr : r.register item with
    | error f => rwa [List.append_nil]
    | ok r' =>
      have := ih (h.register hr)
      rwa [List.append_assoc] at this

theorem Holds.freeze {items : List Item} (h : r.Holds items) : r.freeze.Holds items :=
  ⟨h.definitions, h.registered, h.size, h.nodup⟩

theorem act_of_ok {item : Item} (h : r.register item = .ok r') :
    (Operation.register item).act r = (r', none) := by rw [Operation.act, h]

theorem act_of_error {item : Item} {f : Fault} (h : r.register item = .error f) :
    (Operation.register item).act r = (r, some f) := by rw [Operation.act, h]

/-- An attempt to register one item is that to register a list of it. -/
theorem act_register (item : Item) :
    (Operation.register item).act r = (Operation.registerAll [item]).act r := by
  rw [Operation.act, Operation.act, registerAll]
  cases r.register item <;> rfl

theorem Holds.act {items : List Item} (h : r.Holds items) (op : Operation) :
    (op.act r).1.Holds (items ++ r.taken op.items) := by
  cases op with
  | register item =>
    rw [act_register]
    exact h.registerAll [item]
  | registerAll more => exact h.registerAll more
  | freeze =>
    rw [Operation.items, taken, List.append_nil]
    exact h.freeze

theorem Holds.after {items : List Item} (h : r.Holds items) (ops : List Operation) :
    (r.after ops).Holds (items ++ r.accepted ops) := by
  induction ops generalizing r items with
  | nil => rwa [accepted, List.append_nil]
  | cons op ops ih =>
    rw [accepted, ← List.append_assoc]
    exact ih (h.act op)

theorem frozen_of_register {item : Item} (h : r.register item = .ok r') : r'.frozen = r.frozen := by
  obtain ⟨_, ⟨d, _, _, rfl⟩ | ⟨k, _, rfl⟩⟩ := register_eq_ok_iff.1 h <;> rfl

theorem frozen_registerAll (r : Registry) (items : List Item) :
    (r.registerAll items).1.frozen = r.frozen := by
  induction items generalizing r with
  | nil => rfl
  | cons item items ih =>
    rw [registerAll]
    cases hr : r.register item with
    | error f => rfl
    | ok r' => exact (ih r').trans (frozen_of_register hr)

/-- A registry is frozen once it was told to be. -/
theorem frozen_after_iff (ops : List Operation) :
    (r.after ops).frozen = true ↔ r.frozen = true ∨ .freeze ∈ ops := by
  induction ops generalizing r with
  | nil => simp [after]
  | cons op ops ih =>
    rw [after, List.foldl_cons, ← after, ih, List.mem_cons]
    cases op with
    | register item => rw [act_register, Operation.act, frozen_registerAll]; simp
    | registerAll items => rw [Operation.act, frozen_registerAll]; simp
    | freeze => simp [Operation.act, Registry.freeze]

/-- Nothing changes what a frozen registry holds. -/
theorem act_of_frozen (h : r.frozen = true) (op : Operation) : (op.act r).1 = r := by
  have hall : ∀ items, (r.registerAll items).1 = r := by
    intro items
    cases items with
    | nil => rfl
    | cons item items => rw [registerAll, register.eq_def, if_pos h]
  cases op with
  | register item => rw [act_register]; exact hall [item]
  | registerAll items => exact hall items
  | freeze => rw [Operation.act, Registry.freeze, ← h]

/-- The stores behind a registry: the definitions in their order, and under their keys, and the hooks of
each phase in theirs. -/
structure Stores where
  definitions : List StepDefinition
  index : String × Nat × Int → Option StepDefinition
  filed : HookPhase → List Hook
  frozen : Bool

namespace Stores

def empty : Stores := ⟨[], fun _ => none, fun _ => [], false⟩

def register (s : Stores) (item : Item) : Stores × Option Fault :=
  if s.frozen then (s, some .registryFrozen)
  else
    match item with
    | .step d =>
      match s.index d.key with
      | some _ => (s, some (.duplicatePattern d.source d.arity d.priority))
      | none =>
        ({ s with
          index := Function.update s.index d.key (some d)
          definitions := s.definitions ++ [d] }, none)
    | .hook h => ({ s with filed := Function.update s.filed h.phase (s.filed h.phase ++ [h]) }, none)
    | .other kind => (s, some (.unregistrable kind))

def registerAll (s : Stores) : List Item → Stores × Option Fault
  | [] => (s, none)
  | item :: items =>
    match s.register item with
    | (s, none) => s.registerAll items
    | (s, some f) => (s, some f)

def act (s : Stores) : Operation → Stores × Option Fault
  | .register item => s.register item
  | .registerAll items => s.registerAll items
  | .freeze => ({ s with frozen := true }, none)

def after (s : Stores) (ops : List Operation) : Stores := ops.foldl (fun s op => (s.act op).1) s

/-- The stores are in step with each other, and with a registry. -/
structure Keep (s : Stores) (r : Registry) : Prop where
  definitions : s.definitions = r.definitions
  index : ∀ key, s.index key = r.definitions.find? (·.key == key)
  filed : ∀ phase, s.filed phase = r.hooksOf phase
  frozen : s.frozen = r.frozen

theorem keep_empty : empty.Keep Registry.empty := ⟨rfl, fun _ => rfl, fun _ => rfl, rfl⟩

variable {s : Stores}

theorem Keep.register (h : s.Keep r) (item : Item) :
    (s.register item).1.Keep ((Operation.register item).act r).1 ∧
      (s.register item).2 = ((Operation.register item).act r).2 := by
  cases hf : r.frozen with
  | true =>
    have hs : s.register item = (s, some .registryFrozen) := by
      simp [Stores.register.eq_def, h.frozen, hf]
    have hr : r.register item = .error .registryFrozen := by simp [Registry.register.eq_def, hf]
    rw [hs, act_of_error hr]
    exact ⟨h, rfl⟩
  | false =>
    have hs : s.frozen = false := h.frozen.trans hf
    cases item with
    | other kind =>
      have hr : r.register (.other kind) = .error (.unregistrable kind) := by
        simp [Registry.register.eq_def, hf]
      rw [act_of_error hr, Stores.register.eq_def, hs]
      exact ⟨h, rfl⟩
    | hook k =>
      have hr : r.register (.hook k) = .ok { r with registered := r.registered ++ [k] } :=
        register_eq_ok_iff.2 ⟨hf, .inr ⟨k, rfl, rfl⟩⟩
      rw [act_of_ok hr, Stores.register.eq_def, hs]
      refine ⟨⟨h.definitions, h.index, fun phase => ?_, hf.symm⟩, rfl⟩
      dsimp only
      rw [hooksOf, List.filter_append, ← hooksOf, ← h.filed]
      by_cases hp : phase = k.phase
      · subst hp
        simp
      · simp [Function.update_of_ne hp, Ne.symm hp]
    | step d =>
      cases hi : s.index d.key with
      | some d' =>
        have hr : r.register (.step d) = .error (.duplicatePattern d.source d.arity d.priority) := by
          have hfind := (h.index d.key).symm.trans hi
          have hk : r.hasKey d.key = true :=
            hasKey_iff.2 ⟨d', List.mem_of_find?_eq_some hfind, by simpa using List.find?_some hfind⟩
          simp [Registry.register.eq_def, hf, hk]
        rw [act_of_error hr, Stores.register.eq_def, hs]
        simp only [hi]
        exact ⟨h, rfl⟩
      | none =>
        have hfind := (h.index d.key).symm.trans hi
        have hr : r.register (.step d) = .ok { r with definitions := r.definitions ++ [d] } := by
          refine register_eq_ok_iff.2 ⟨hf, .inl ⟨d, rfl, fun d' hd' he => ?_, rfl⟩⟩
          exact List.find?_eq_none.1 hfind d' hd' (beq_iff_eq.2 he)
        rw [act_of_ok hr, Stores.register.eq_def, hs]
        simp only [hi]
        refine ⟨⟨congrArg (· ++ [d]) h.definitions, fun key => ?_, h.filed, hf.symm⟩, rfl⟩
        dsimp only
        by_cases hk : key = d.key
        · subst hk
          simp [List.find?_append, hfind]
        · simp [List.find?_append, Function.update_of_ne hk, h.index, Ne.symm hk]

theorem Keep.registerAll (h : s.Keep r) (items : List Item) :
    (s.registerAll items).1.Keep (r.registerAll items).1 ∧
      (s.registerAll items).2 = (r.registerAll items).2 := by
  induction items generalizing s r with
  | nil => exact ⟨h, rfl⟩
  | cons item items ih =>
    obtain ⟨hkeep, hraise⟩ := h.register item
    rw [Stores.registerAll, Registry.registerAll]
    cases hs : s.register item with
    | mk s' raised =>
      rw [hs] at hkeep hraise
      cases hr : r.register item with
      | ok r' =>
        rw [act_of_ok hr] at hkeep hraise
        cases hraise
        exact ih hkeep
      | error f =>
        rw [act_of_error hr] at hkeep hraise
        cases hraise
        exact ⟨hkeep, rfl⟩

theorem Keep.act (h : s.Keep r) (op : Operation) :
    (s.act op).1.Keep (op.act r).1 ∧ (s.act op).2 = (op.act r).2 := by
  cases op with
  | register item => exact h.register item
  | registerAll items => exact h.registerAll items
  | freeze => exact ⟨⟨h.definitions, h.index, h.filed, rfl⟩, rfl⟩

theorem Keep.after (h : s.Keep r) (ops : List Operation) : (s.after ops).Keep (r.after ops) := by
  induction ops generalizing s r with
  | nil => exact h
  | cons op ops ih => exact ih (h.act op).1

/-- What is refused changes no store. -/
theorem register_of_raised {item : Item} {f : Fault} (h : (s.register item).2 = some f) :
    (s.register item).1 = s := by
  unfold Stores.register at h ⊢
  split
  · rfl
  · rename_i hf
    rw [if_neg hf] at h
    cases item with
    | other kind => rfl
    | hook k => cases h
    | step d =>
      dsimp only at h ⊢
      cases hi : s.index d.key with
      | some d' => rfl
      | none =>
        rw [hi] at h
        cases h

theorem act_of_frozen (h : s.frozen = true) (op : Operation) : (s.act op).1 = s := by
  have hone : ∀ item, s.register item = (s, some .registryFrozen) := by
    intro item
    rw [Stores.register.eq_def, if_pos h]
  cases op with
  | register item => rw [act, hone]
  | registerAll items =>
    cases items with
    | nil => rfl
    | cons item items => rw [act, Stores.registerAll, hone]
  | freeze => rw [act, ← h]

end Stores

/-- What a registry holds after any operations. The stores are in step. The definitions are the accepted
ones in their order, under keys of their own, and as long as nothing is frozen one is refused for a key
that is taken, and for nothing else. An item that is refused leaves all as it was, and of a list those
before it stay. Once frozen nothing changes. As many items are counted as were accepted. Of the accepted
hooks of a phase those are chosen that admit the tags, unless one of them has a filter and of some tag
nothing is left. -/
theorem contents_after (ops : List Operation) :
    let r := empty.after ops
    let stores := Stores.empty.after ops
    let items := empty.accepted ops
    stores.Keep r ∧ r.definitions = items.filterMap Item.definition? ∧
      (r.definitions.map StepDefinition.key).Nodup ∧ r.size = items.length ∧
      (.freeze ∉ ops → ∀ d : StepDefinition,
        (r.register (.step d) = .error (.duplicatePattern d.source d.arity d.priority) ↔
          ∃ d' ∈ r.definitions, d'.key = d.key) ∧
        ((∃ r', r.register (.step d) = .ok r') ↔ ¬ ∃ d' ∈ r.definitions, d'.key = d.key)) ∧
      (∀ item f, ((Operation.register item).act r).2 = some f →
        ((Operation.register item).act r).1 = r ∧ (stores.register item).1 = stores) ∧
      (∀ more f, (r.registerAll more).2 = some f → ∃ item later, more = r.taken more ++ item :: later ∧
        (r.registerAll more).1.register item = .error f ∧
        (r.registerAll more).1.Holds (items ++ r.taken more)) ∧
      (.freeze ∈ ops → ∀ op : Operation, (op.act r).1 = r ∧ (stores.act op).1 = stores) ∧
      ∀ phase tags, let hooks := (items.filterMap Item.hook?).filter (·.phase == phase)
        ((∃ h ∈ hooks, h.Balks tags) → r.lookup phase tags = .error .blankTag) ∧
        ((¬ ∃ h ∈ hooks, h.Balks tags) → r.lookup phase tags = .ok (hooks.filter (·.admits tags))) := by
  intro r stores items
  have hkeep : stores.Keep r := Stores.keep_empty.after ops
  have hholds : r.Holds items := holds_empty.after ops
  have hfrozen : r.frozen = true ↔ .freeze ∈ ops := (frozen_after_iff ops).trans (by simp [empty])
  refine ⟨hkeep, hholds.definitions, hholds.nodup, hholds.size, fun hopen d => ?_, fun item f hf => ?_,
    fun more f hf => ?_, fun hclosed op => ?_, fun phase tags => ?_⟩
  · have hr : r.frozen = false := by simpa [← hfrozen] using hopen
    rw [← hasKey_iff, register.eq_def, hr]
    by_cases hk : r.hasKey d.key = true <;> simp [hk]
  · have hs : (stores.register item).2 = some f := (hkeep.register item).2.trans hf
    refine ⟨?_, Stores.register_of_raised hs⟩
    cases hr : r.register item with
    | ok r' =>
      rw [act_of_ok hr] at hf
      cases hf
    | error f => rw [act_of_error hr]
  · obtain ⟨rest, heq, ⟨_, hnone⟩ | ⟨item, later, f', rfl, hraised, href⟩⟩ := registerAll_cases r more
    · cases hnone.symm.trans hf
    · cases hraised.symm.trans hf
      exact ⟨item, later, heq, href, hholds.registerAll more⟩
  · have hr : r.frozen = true := hfrozen.2 hclosed
    exact ⟨act_of_frozen hr op, Stores.act_of_frozen (hkeep.frozen.trans hr) op⟩
  · intro hooks
    have hhooks : r.hooksOf phase = hooks := by rw [hooksOf, hholds.registered]
    rw [← hhooks]
    exact ⟨lookup_eq_blankTag, fun hnone => lookup_eq_ok fun h hm hb => hnone ⟨h, hm, hb⟩⟩

/-- A hook that does not want `@slow` admits a tag of which nothing is left, but asked for the hooks of
such a tag a registry raises. -/
theorem lookup_raises_on_blank :
    let hook : Hook :=
      { Sample.hook .beforeSuite 1 "warm" with tags := some ⟨"~@slow", [[⟨"slow", true⟩]]⟩ }
    let ops : List Operation := [.register (.hook hook)]
    TagFilter.parse "~@slow" = .ok ⟨"~@slow", [[⟨"slow", true⟩]]⟩ ∧
      empty.accepted ops = [.hook hook] ∧ hook.admits (some [""]) = true ∧
      (empty.after ops).lookup .beforeSuite (some [""]) = .error .blankTag :=
  ⟨rfl, rfl, by decide, rfl⟩

end Registry
end Rehearsal
