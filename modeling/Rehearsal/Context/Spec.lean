import Rehearsal.Context.Class

/-! Declared contexts: a tree of factories under aliases. The walk through it visits every context
before those under it, and those under it in the order of declaration. -/

namespace Rehearsal
set_option autoImplicit false

/-- What builds a context. -/
structure Factory where
  callable : Callable
  /-- How messages name it. -/
  identity : String
  /-- The capabilities that it declares. -/
  capabilities : List String
  /-- The class, when the factory is one. -/
  contextClass : Option ContextClass

structure ContextSpec where
  factory : Factory
  aliasName : String
  params : Value
  capabilities : List String
  subcontexts : List ContextSpec

/-- The alias of a context that is given none. -/
def rootAlias : String := "main"

namespace ContextSpec

def capabilitiesOf (v : Value) : Except Fault (List String) :=
  return (← v.setItems).map Value.display

/-- A context must have an alias, and its factory must be callable. -/
def make (factory : Factory) (aliasName params capabilities : Value)
    (subcontexts : List ContextSpec) : Except Fault ContextSpec :=
  match aliasName with
  | .text name =>
    if name.isEmpty then .error .blankAlias
    else if !factory.callable.isCallable then .error (.factoryNotCallable name)
    else (capabilitiesOf capabilities).map fun caps => ⟨factory, name, params, caps, subcontexts⟩
  | _ => .error .blankAlias

def identity (s : ContextSpec) : String := s.factory.identity

/-- The capabilities of the declaration together with those of its factory. -/
def effectiveCapabilities (s : ContextSpec) : List String :=
  sortedSet (s.capabilities ++ s.factory.capabilities)

mutual

def count : ContextSpec → Nat
  | ⟨_, _, _, _, subcontexts⟩ => 1 + countAll subcontexts

def countAll : List ContextSpec → Nat
  | [] => 0
  | s :: ss => count s + countAll ss

end

theorem count_eq (s : ContextSpec) : s.count = 1 + countAll s.subcontexts := by
  rcases s with ⟨_, _, _, _, _⟩
  rw [count]

mutual

/-- The contexts of a tree in preorder, each with the one it is declared under. -/
def preorder (parent : Option ContextSpec) : ContextSpec → List (ContextSpec × Option ContextSpec)
  | ⟨factory, aliasName, params, capabilities, subcontexts⟩ =>
    (⟨factory, aliasName, params, capabilities, subcontexts⟩, parent) ::
      preorderAll (some ⟨factory, aliasName, params, capabilities, subcontexts⟩) subcontexts

def preorderAll (parent : Option ContextSpec) :
    List ContextSpec → List (ContextSpec × Option ContextSpec)
  | [] => []
  | s :: ss => preorder parent s ++ preorderAll parent ss

end

theorem countAll_append (a b : List ContextSpec) :
    countAll (a ++ b) = countAll a + countAll b := by
  induction a with
  | nil => simp [countAll]
  | cons s ss ih => simp [countAll, ih, Nat.add_assoc]

/-- The stack of a walk, its top first: contexts still to be visited, each with its parent. -/
abbrev Pending := List (ContextSpec × Option ContextSpec)

namespace Pending

/-- How many contexts are still to be visited, with all those under the ones on the stack. -/
def weight (pending : Pending) : Nat := countAll (pending.map (·.1))

/-- Puts contexts on the stack one after the other, so that the last of them is its new top. -/
def push (pending : Pending) (parent : ContextSpec) (children : List ContextSpec) : Pending :=
  children.foldl (fun stack child => (child, some parent) :: stack) pending

/-- One turn of a walk: it takes the top off the stack and puts what is under it on, from the last of the
children to the first. -/
def next? : Pending → Option ((ContextSpec × Option ContextSpec) × Pending)
  | [] => none
  | (s, parent) :: rest => some ((s, parent), push rest s s.subcontexts.reverse)

theorem push_eq (pending : Pending) (parent : ContextSpec) (children : List ContextSpec) :
    push pending parent children = (children.map fun c => (c, some parent)).reverse ++ pending := by
  induction children generalizing pending with
  | nil => rfl
  | cons child children ih =>
    rw [List.map_cons, List.reverse_cons, List.append_assoc]
    exact ih ((child, some parent) :: pending)

/-- Children that are put on from the last to the first lie on the stack in their order. -/
theorem next?_cons (s : ContextSpec) (parent : Option ContextSpec) (rest : Pending) :
    next? ((s, parent) :: rest) =
      some ((s, parent), s.subcontexts.map (fun child => (child, some s)) ++ rest) := by
  rw [next?, push_eq, List.map_reverse, List.reverse_reverse]

theorem next?_eq_none_iff {pending : Pending} : pending.next? = none ↔ pending = [] := by
  cases pending <;> simp [next?]

theorem next?_eq_some_iff {pending rest : Pending} {entry : ContextSpec × Option ContextSpec} :
    pending.next? = some (entry, rest) ↔ ∃ below, pending = entry :: below ∧
      rest = entry.1.subcontexts.map (fun child => (child, some entry.1)) ++ below := by
  cases pending with
  | nil => simp [next?]
  | cons top below =>
    rw [next?_cons, Option.some_inj, Prod.mk.injEq]
    constructor
    · rintro ⟨rfl, rfl⟩
      exact ⟨below, rfl, rfl⟩
    · rintro ⟨_, h, rfl⟩
      cases h
      exact ⟨rfl, rfl⟩

/-- Each turn leaves one context fewer. -/
theorem weight_of_next? {pending rest : Pending} {entry : ContextSpec × Option ContextSpec}
    (h : pending.next? = some (entry, rest)) : pending.weight = rest.weight + 1 := by
  obtain ⟨below, rfl, rfl⟩ := next?_eq_some_iff.1 h
  simp only [weight, List.map_cons, List.map_append, List.map_map, Function.comp_def, List.map_id',
    countAll, countAll_append, count_eq]
  omega

end Pending

/-- Turns are taken until the stack is empty. -/
def walkFrom (pending : Pending) : List (ContextSpec × Option ContextSpec) :=
  match _ : pending.next? with
  | none => []
  | some (entry, rest) => entry :: walkFrom rest
termination_by pending.weight
decreasing_by
  have := Pending.weight_of_next? ‹_›
  omega

theorem walkFrom_nil : walkFrom [] = [] := by
  rw [walkFrom]
  rfl

theorem walkFrom_of_next? {pending rest : Pending} {entry : ContextSpec × Option ContextSpec}
    (h : pending.next? = some (entry, rest)) : walkFrom pending = entry :: walkFrom rest := by
  rw [walkFrom]
  split
  · rename_i hnone
    cases h.symm.trans hnone
  · rename_i hsome
    cases h.symm.trans hsome
    rfl

/-- Every context of a tree, parents first, with its parent. -/
def walk (s : ContextSpec) : List (ContextSpec × Option ContextSpec) := walkFrom [(s, none)]

/-- The contexts in walk order, unless two of them share an alias. -/
def validateFrom : (seen : List ContextSpec) → List ContextSpec → Except Fault (List ContextSpec)
  | seen, [] => .ok seen
  | seen, s :: ss =>
    match seen.find? (·.aliasName == s.aliasName) with
    | some first => .error (.aliasTaken s.aliasName first.identity s.identity)
    | none => validateFrom (seen ++ [s]) ss

def validate (s : ContextSpec) : Except Fault (List ContextSpec) :=
  validateFrom [] (s.walk.map (·.1))

end ContextSpec
end Rehearsal
