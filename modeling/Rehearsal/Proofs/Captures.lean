import Rehearsal.Proofs.Matching

/-! How many captures there are. Matching enters and leaves groups and makes no others, so a text that is
taken has as many captures as its pattern has groups, and a step as many arguments. -/

namespace Rehearsal
set_option autoImplicit false

namespace Pattern
variable {text : Text} {flags : Flags} {k : Rest} {s : Spot}

/-- The spot that is reached, if one is, has so many groups. -/
def Sized (n : Nat) (o : Option Spot) : Prop := ∀ r, o = some r → r.marks.size = n

/-- A spot that is reached has as many groups as the one it is reached from. -/
def Keeps (k : Rest) : Prop := ∀ s, Sized s.marks.size (k s)

theorem sized_none {n : Nat} : Sized n none := nofun

theorem keeps_some : Keeps some := fun _ _ h => Option.some.inj h ▸ rfl

namespace Keeps
variable (hk : Keeps k)
include hk

theorem shrink {least extra : Nat} : Sized s.marks.size (Pattern.shrink k s least extra) := by
  induction extra with
  | zero => exact hk _
  | succ extra ih =>
    rw [Pattern.shrink]
    split
    · rename_i h
      exact h ▸ hk _
    · exact ih

theorem grow {extra : Nat} : Sized s.marks.size (Pattern.grow k s extra) := by
  induction extra generalizing s with
  | zero => exact hk _
  | succ extra ih =>
    rw [Pattern.grow]
    split
    · rename_i h
      exact h ▸ hk _
    · exact ih

theorem runUnits {test : Char → Bool} {greed : Greed} {least : Nat} {most : Option Nat} :
    Sized s.marks.size (Pattern.runUnits text test greed least most k s) := by
  unfold Pattern.runUnits
  dsimp only
  generalize runLength _ _ _ _ = n
  split
  · exact sized_none
  · cases greed with
    | greedy => exact hk.shrink
    | lazy => exact hk.grow
    | possessive => exact hk _

section Rounds
variable {body : Rest → Rest} (hbody : ∀ {k}, Keeps k → Keeps (body k)) {least : Nat} {most : Option Nat}
include hbody

theorem runGreedy {fuel done : Nat} {last : Option Nat} :
    Keeps (Pattern.runGreedy body least most k fuel done last) := by
  induction fuel generalizing done last with
  | zero => exact fun _ => sized_none
  | succ fuel ih =>
    intro s
    rw [Pattern.runGreedy]
    split
    · exact hbody ih s
    · split
      · split
        · rename_i h
          exact h ▸ hbody ih s
        · exact hk s
      · exact hk s

theorem runLazy {fuel done : Nat} {last : Option Nat} :
    Keeps (Pattern.runLazy body least most k fuel done last) := by
  induction fuel generalizing done last with
  | zero => exact fun _ => sized_none
  | succ fuel ih =>
    intro s
    rw [Pattern.runLazy]
    split
    · exact hbody ih s
    · split
      · rename_i h
        exact h ▸ hk s
      · split
        · exact hbody ih s
        · exact sized_none

theorem runPossessive {fuel done : Nat} {last : Option Nat} :
    Keeps (Pattern.runPossessive body least most k fuel done last) := by
  have hround : ∀ {s r}, body some s = some r → r.marks.size = s.marks.size :=
    fun {s r} => hbody keeps_some s r
  induction fuel generalizing done last with
  | zero => exact fun _ => sized_none
  | succ fuel ih =>
    intro s
    rw [Pattern.runPossessive]
    split
    · split
      · rename_i r h
        exact hround h ▸ ih r
      · exact sized_none
    · split
      · split
        · rename_i r h
          exact hround h ▸ ih r
        · exact hk s
      · exact hk s

end Rounds
end Keeps

mutual

theorem Node.keeps_run (text : Text) (flags : Flags) {k : Rest} (hk : Keeps k) (node : Node) :
    Keeps (Node.run text flags node k) := by
  intro s
  cases node with
  | one code | any | set negated items =>
    rw [Node.run]
    split
    · split
      · exact hk _
      · exact sized_none
    · exact sized_none
  | other code =>
    rw [Node.run]
    split
    · split
      · exact sized_none
      · exact hk _
    · exact sized_none
  | anchor a =>
    rw [Node.run]
    split
    · exact hk s
    · exact sized_none
  | loop greed least most body =>
    have hbody : ∀ {k}, Keeps k → Keeps (runSeq text flags body k) :=
      fun hk => keeps_runSeq text flags hk body
    rw [Node.run]
    split
    · exact hk.runUnits
    · cases greed with
      | greedy => exact hk.runGreedy hbody s
      | lazy => exact hk.runLazy hbody s
      | possessive => exact hk.runPossessive hbody s
  | group id added removed body =>
    rw [Node.run.eq_def]
    dsimp only
    cases id with
    | some id =>
      have hleave : Keeps fun s => k (s.leave id) := fun s => by
        have hsize : (s.leave id).marks.size = s.marks.size := Array.size_modify
        exact hsize ▸ hk (s.leave id)
      have henter : (s.enter id).marks.size = s.marks.size := Array.size_modify
      exact henter ▸ keeps_runSeq text _ hleave body (s.enter id)
    | none => exact keeps_runSeq text _ hk body s
  | atomic body =>
    rw [Node.run]
    split
    · rename_i r h
      exact keeps_runSeq text flags keeps_some body s r h ▸ hk r
    · exact sized_none
  | choice branches =>
    rw [Node.run]
    exact keeps_runChoice text flags hk branches s
  | look behind negated body =>
    rw [Node.run.eq_def]
    dsimp only
    have hbody : ∀ p, Sized s.marks.size (runSeq text flags body some ⟨p, s.marks⟩) :=
      fun p => keeps_runSeq text flags keeps_some body ⟨p, s.marks⟩
    split
    · rename_i r h
      have hr : r.marks.size = s.marks.size := by
        split at h
        · cases h
        · exact hbody _ r h
      exact hr ▸ hk ⟨s.position, r.marks⟩
    · exact hk s
    · exact sized_none
  | backref id =>
    rw [Node.run]
    split
    · split
      · exact hk _
      · exact sized_none
    · exact sized_none
  | conditional id yes no =>
    rw [Node.run.eq_def]
    dsimp only
    split
    · exact keeps_runSeq text flags hk yes s
    · cases no with
      | some no => exact keeps_runSeq text flags hk no s
      | none => exact hk s

theorem keeps_runSeq (text : Text) (flags : Flags) {k : Rest} (hk : Keeps k) (nodes : List Node) :
    Keeps (runSeq text flags nodes k) := by
  cases nodes with
  | nil => exact hk
  | cons n ns => exact Node.keeps_run text flags (keeps_runSeq text flags hk ns) n

theorem keeps_runChoice (text : Text) (flags : Flags) {k : Rest} (hk : Keeps k)
    (branches : List (List Node)) : Keeps (runChoice text flags branches k) := by
  intro s
  cases branches with
  | nil => exact sized_none
  | cons b bs =>
    rw [runChoice]
    split
    · rename_i h
      exact h ▸ keeps_runSeq text flags hk b s
    · exact keeps_runChoice text flags hk bs s

end

/-- A text that is taken has a capture for each group of its pattern. -/
theorem length_of_fullMatch? {p : Pattern} {text : String} {groups : List (Option String)}
    (h : p.fullMatch? text = some groups) : groups.length = p.arity := by
  obtain ⟨r, hr, rfl⟩ := Option.map_eq_some_iff.1 h
  have hfinish : Keeps fun s => if s.position == text.toList.toArray.size then some s else none := by
    intro s
    dsimp only
    split
    · exact keeps_some s
    · exact sized_none
  rw [List.length_map, Array.length_toList, keeps_runSeq _ _ hfinish _ _ r hr, Array.size_replicate]

end Pattern

/-- A step is given as many captures as its definition has groups. -/
theorem Matcher.length_args {m : Matcher} {text : String} {definitions : List StepDefinition}
    {sm : StepMatch} (h : (m.matchText text definitions).result = .ok (some sm)) :
    sm.args.length = sm.definition.arity := by
  obtain ⟨groups, hgroups, hargs⟩ := captures_of_matchText h
  rw [← hargs.length_eq, List.length_zipIdx]
  exact Pattern.length_of_fullMatch? hgroups

end Rehearsal
