import Rehearsal.Context.Spec

/-! The contexts of one scenario: an arena of nodes that refer to each other by id, and the ways to
find one of them, by alias or by what it is capable of. -/

namespace Rehearsal
set_option autoImplicit false
open Rehearsal.Text

/-- A constructed context, with the ids of its class and of those that the class extends. -/
structure Instance where
  value : Value
  lineage : List Nat

structure Node where
  aliasName : String
  inst : Instance
  capabilities : List String
  parent : Option Nat

/-- Nodes in the order of construction. The id of a node is its position, the root is node 0. -/
structure Arena where
  nodes : List Node

namespace Arena

def empty : Arena := ⟨[]⟩

def size (a : Arena) : Nat := a.nodes.length

def has (a : Arena) (aliasName : String) : Bool := a.nodes.any (·.aliasName == aliasName)

def find? (a : Arena) (aliasName : String) : Option Nat := a.nodes.findIdx? (·.aliasName == aliasName)

def find (a : Arena) (aliasName : String) : Except Fault Nat :=
  match a.find? aliasName with
  | some id => .ok id
  | none => .error (.unknownAlias aliasName)

/-- Adds a node and gives it the next id. -/
def add (a : Arena) (node : Node) : Except Fault Arena :=
  if a.has node.aliasName then .error (.duplicateAlias node.aliasName) else .ok ⟨a.nodes ++ [node]⟩

def node (a : Arena) (id : Int) : Except Fault Node :=
  match (if id < 0 then none else a.nodes[id.toNat]?) with
  | some n => .ok n
  | none => .error (.unknownAlias ("#" ++ toString id))

def resolve (a : Arena) (aliasName : String) : Except Fault Node := do
  a.node (← a.find aliasName)

/-- The context that something with an owner runs on; without an owner it is the root. -/
def ownerInstance (a : Arena) : Option String → Except Fault Instance
  | none => return (← a.node 0).inst
  | some aliasName => return (← a.resolve aliasName).inst

def binds (a : Arena) : Option String → Bool
  | none => true
  | some aliasName => a.has aliasName

def numbered (a : Arena) : List (Node × Nat) := a.nodes.zipIdx

def aliases (a : Arena) : List String := a.nodes.map (·.aliasName)

theorem length_aliases (a : Arena) : a.aliases.length = a.size := by simp [aliases, size]

theorem has_iff {a : Arena} {aliasName : String} : a.has aliasName = true ↔ aliasName ∈ a.aliases := by
  simp [has, aliases]

theorem add_eq_ok_iff {a b : Arena} {node : Node} :
    a.add node = .ok b ↔ node.aliasName ∉ a.aliases ∧ b = ⟨a.nodes ++ [node]⟩ := by
  unfold add
  split <;> rename_i h <;> rw [has_iff] at h <;> simp [h, eq_comm]

theorem aliases_add {a b : Arena} {node : Node} (h : a.add node = .ok b) :
    b.aliases = a.aliases ++ [node.aliasName] := by
  obtain ⟨_, rfl⟩ := add_eq_ok_iff.1 h
  simp [aliases]

theorem node_eq_ok_iff {a : Arena} {i : Nat} {n : Node} : a.node i = .ok n ↔ a.nodes[i]? = some n := by
  have hi : ¬ (i : Int) < 0 := by omega
  rw [node, if_neg hi, Int.toNat_natCast]
  cases a.nodes[i]? <;> simp

/-- Whoever is bound has a context to run on, once there is a root. -/
theorem exists_ownerInstance {a : Arena} {owner : Option String} (ha : a.nodes ≠ [])
    (hb : a.binds owner = true) : ∃ i, a.ownerInstance owner = .ok i := by
  cases owner with
  | none =>
    obtain ⟨n, ns, hn⟩ := List.exists_cons_of_ne_nil ha
    have h : a.node 0 = .ok n := node_eq_ok_iff.2 (by simp [hn])
    exact ⟨n.inst, by rw [ownerInstance, h]; rfl⟩
  | some aliasName =>
    have hs : (a.find? aliasName).isSome = true := by
      rw [find?, List.findIdx?_isSome]
      exact hb
    obtain ⟨i, hi⟩ := Option.isSome_iff_exists.1 hs
    have hlt : i < a.nodes.length := (List.findIdx?_eq_some_iff_findIdx_eq.1 hi).1
    have h : a.node i = .ok a.nodes[i] := node_eq_ok_iff.2 (by simp [hlt])
    refine ⟨a.nodes[i].inst, ?_⟩
    rw [ownerInstance, resolve, find, hi]
    exact congrArg (fun r => r >>= fun n => .ok n.inst) h

theorem nodup_aliases_add {a b : Arena} {node : Node} (h : a.add node = .ok b)
    (ha : a.aliases.Nodup) : b.aliases.Nodup := by
  rw [aliases_add h, List.nodup_append]
  refine ⟨ha, by simp, ?_⟩
  intro x hx y hy hxy
  rw [List.mem_singleton] at hy
  subst hxy hy
  exact (add_eq_ok_iff.1 h).1 hx

end Arena

/-- What a context is asked for. -/
inductive CapabilityQuery where
  /-- To be an instance of a class. -/
  | ofClass (id : Nat) (name : String)
  | tag (name : String)
  /-- To have every one of some tags. -/
  | tags (names : List String)
deriving DecidableEq, Repr

namespace CapabilityQuery

def ofValue : Value → Except Fault CapabilityQuery
  | .text s => .ok (.tag s)
  | v => return .tags ((← v.setItems).map Value.display)

def provides (q : CapabilityQuery) (n : Node) : Bool :=
  match q with
  | ofClass id _ => n.inst.lineage.contains id
  | tag name => n.capabilities.contains name
  | tags names => !names.isEmpty && names.all n.capabilities.contains

def shown : CapabilityQuery → String
  | ofClass _ name => quoted name
  | tag name => quoted name
  | tags names => quotedList (names.mergeSort fun a b => decide (a ≤ b))

end CapabilityQuery

/-- The one node that provides what is asked for, with its id. -/
def Arena.resolveByCapability (a : Arena) (q : CapabilityQuery) : Except Fault (Node × Nat) :=
  match a.numbered.filter fun n => q.provides n.1 with
  | [] => .error (.noCapability q.shown)
  | [n] => .ok n
  | many => .error (.ambiguousCapability q.shown (many.map (·.1.aliasName)))

/-- A node as it is known to whoever looks around from it: by its arena and its id. -/
structure Arena.Place where
  arena : Arena
  id : Nat

/-- The place of an id, if there is a node under it. -/
def Arena.place (a : Arena) (id : Int) : Except Fault Place := do
  let _ ← a.node id
  return ⟨a, id.toNat⟩

namespace Arena.Place

def node (p : Place) : Except Fault Node := p.arena.node p.id

def root (p : Place) : Except Fault Place := p.arena.place 0

/-- Every place leads to all aliases of its arena, also to those above it and beside it. -/
def resolve (p : Place) (aliasName : String) : Except Fault Place := do
  p.arena.place (← p.arena.find aliasName)

def resolveByCapability (p : Place) (q : CapabilityQuery) : Except Fault Place :=
  (p.arena.resolveByCapability q).map fun n => ⟨p.arena, n.2⟩

end Arena.Place
end Rehearsal
