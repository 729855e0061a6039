import Rehearsal.Proofs.Bootstrap.Decoration

/-! Functions that several modules show. Discovery comes to a function with marks where it is shown first, and
passes it over wherever it is shown again, so that a module can show the functions of others. -/

namespace Rehearsal
set_option autoImplicit false

namespace ModuleEntry

/-- Does an entry show a function with marks? -/
def isMarked (e : ModuleEntry) : Bool := e.isFunction && !e.marks.isEmpty

/-- Is a function with marks among those that entries show? -/
def Shown (es : List ModuleEntry) (id : Nat) : Prop := ∃ e ∈ es, e.isMarked = true ∧ e.callable.id = id

/-- The place of an entry that shows a function with marks for the first time. -/
def FirstAt (es : List ModuleEntry) (i : Nat) : Prop :=
  ∃ e, es[i]? = some e ∧ e.isMarked = true ∧ ¬ Shown (es.take i) e.callable.id

theorem shown_cons {e : ModuleEntry} {es : List ModuleEntry} {id : Nat} :
    Shown (e :: es) id ↔ (e.isMarked = true ∧ e.callable.id = id) ∨ Shown es id := by
  simp only [Shown, List.mem_cons, or_and_right, exists_or, exists_eq_left]

theorem firstAt_concat {es : List ModuleEntry} {e : ModuleEntry} {i : Nat} :
    FirstAt (es ++ [e]) i ↔
      FirstAt es i ∨ i = es.length ∧ e.isMarked = true ∧ ¬ Shown es e.callable.id := by
  rcases Nat.lt_trichotomy i es.length with hlt | rfl | hgt
  · rw [FirstAt, List.getElem?_append_left hlt, List.take_append_of_le_length (Nat.le_of_lt hlt)]
    exact ⟨.inl, fun h => h.resolve_right fun h => absurd h.1 (Nat.ne_of_lt hlt)⟩
  · rw [FirstAt, List.getElem?_concat_length, List.take_left]
    constructor
    · rintro ⟨e', he, h⟩
      cases he
      exact .inr ⟨rfl, h⟩
    · rintro (⟨e', he, _⟩ | ⟨_, h⟩)
      · rw [List.getElem?_eq_none (Nat.le_refl _)] at he
        cases he
      · exact ⟨e, rfl, h⟩
  · constructor
    · rintro ⟨e', he, _⟩
      rw [List.getElem?_eq_none (by rwa [List.length_append])] at he
      cases he
    · rintro (⟨e', he, _⟩ | ⟨h, _⟩)
      · rw [List.getElem?_eq_none (Nat.le_of_lt hgt)] at he
        cases he
      · exact absurd h (Nat.ne_of_gt hgt)

end ModuleEntry

namespace Discovery
variable {seen : List Nat} {es es' : List ModuleEntry} {e : ModuleEntry} {id : Nat}

theorem markedFunctions_cons : markedFunctions seen (e :: es) =
    if e.isMarked = true ∧ e.callable.id ∉ seen then e :: markedFunctions (e.callable.id :: seen) es
    else markedFunctions seen es := by
  have hnew : (e.isMarked && !seen.contains e.callable.id) = true ↔
      e.isMarked = true ∧ e.callable.id ∉ seen := by
    rw [Bool.and_eq_true, Bool.not_eq_true', List.contains_eq_mem, decide_eq_false_iff_not]
  exact if_congr hnew rfl rfl

/-- The functions that were seen once entries were gone through. -/
def seenAfter (seen : List Nat) (es : List ModuleEntry) : List Nat :=
  ((markedFunctions seen es).map (·.callable.id)).reverse ++ seen

theorem seenAfter_cons : seenAfter seen (e :: es) =
    if e.isMarked = true ∧ e.callable.id ∉ seen then seenAfter (e.callable.id :: seen) es
    else seenAfter seen es := by
  rw [seenAfter, markedFunctions_cons]
  split
  · rw [List.map_cons, List.reverse_cons, List.append_assoc, List.singleton_append, seenAfter]
  · rfl

theorem nodup_seenAfter (h : seen.Nodup) : (seenAfter seen es).Nodup := by
  induction es generalizing seen with
  | nil => exact h
  | cons e es ih =>
    rw [seenAfter_cons]
    split <;> rename_i hnew
    · exact ih (List.nodup_cons.2 ⟨hnew.2, h⟩)
    · exact ih h

theorem markedFunctions_again :
    markedFunctions seen (markedFunctions seen es) = markedFunctions seen es := by
  induction es generalizing seen with
  | nil => rfl
  | cons e es ih =>
    rw [markedFunctions_cons]
    split <;> rename_i hnew
    · rw [markedFunctions_cons, if_pos hnew, ih]
    · exact ih

theorem markedFunctions_append : markedFunctions seen (es ++ es') =
    markedFunctions seen es ++ markedFunctions (seenAfter seen es) es' := by
  induction es generalizing seen with
  | nil => rfl
  | cons e es ih =>
    rw [List.cons_append, markedFunctions_cons, markedFunctions_cons, seenAfter_cons]
    split
    · rw [ih, List.cons_append]
    · exact ih

theorem mem_seenAfter_iff : id ∈ seenAfter seen es ↔ id ∈ seen ∨ ModuleEntry.Shown es id := by
  induction es generalizing seen with
  | nil => simp [seenAfter, markedFunctions, ModuleEntry.Shown]
  | cons e es ih =>
    rw [seenAfter_cons, ModuleEntry.shown_cons]
    split <;> rename_i hnew
    · rw [ih, List.mem_cons, or_assoc, or_left_comm, eq_comm, and_iff_right hnew.1]
    · rw [ih]
      refine ⟨Or.imp_right .inr, ?_⟩
      rintro (hid | ⟨hmarked, rfl⟩ | hid)
      · exact .inl hid
      · exact .inl (not_not.1 fun hnot => hnew ⟨hmarked, hnot⟩)
      · exact .inr hid

/-- Where everything was seen before, nothing is found. -/
theorem markedFunctions_of_seen (h : ∀ e ∈ es, e.isMarked = true → e.callable.id ∈ seen) :
    markedFunctions seen es = [] := by
  induction es with
  | nil => rfl
  | cons e es ih =>
    obtain ⟨he, hrest⟩ := List.forall_mem_cons.1 h
    rw [markedFunctions_cons, if_neg fun hnew => hnew.2 (he hnew.1), ih hrest]

/-- What is found comes from the places where functions are shown for the first time, one after the other. By
induction from the last entry: whether it is at such a place depends on those before it only. -/
theorem markedFunctions_places (es : List ModuleEntry) : ∃ places : List Nat, places.Pairwise (· < ·) ∧
    (∀ i, i ∈ places ↔ ModuleEntry.FirstAt es i) ∧
    List.Forall₂ (fun i e => es[i]? = some e) places (markedFunctions [] es) := by
  induction es using List.reverseRecOn with
  | nil => exact ⟨[], .nil, fun i => by simp [ModuleEntry.FirstAt], .nil⟩
  | append_singleton es e ih =>
    obtain ⟨places, hsorted, hmem, hfound⟩ := ih
    have hlt : ∀ i ∈ places, i < es.length := by
      intro i hi
      obtain ⟨e', he, _⟩ := (hmem i).1 hi
      exact (List.getElem?_eq_some_iff.1 he).1
    have hkept : List.Forall₂ (fun i e' => (es ++ [e])[i]? = some e') places (markedFunctions [] es) :=
      hfound.imp fun i e' he => by rwa [List.getElem?_append_left (List.getElem?_eq_some_iff.1 he).1]
    have hseen : e.callable.id ∈ seenAfter [] es ↔ ModuleEntry.Shown es e.callable.id :=
      mem_seenAfter_iff.trans (or_iff_right List.not_mem_nil)
    rw [markedFunctions_append]
    by_cases hfirst : e.isMarked = true ∧ ¬ ModuleEntry.Shown es e.callable.id
    · refine ⟨places ++ [es.length], ?_, ?_, List.rel_append hkept ?_⟩
      · refine List.pairwise_append.2 ⟨hsorted, List.pairwise_singleton _ _, ?_⟩
        intro i hi j hj
        rw [List.mem_singleton.1 hj]
        exact hlt i hi
      · intro i
        rw [List.mem_append, List.mem_singleton, hmem, ModuleEntry.firstAt_concat, and_iff_left hfirst]
      · rw [markedFunctions_cons, if_pos ⟨hfirst.1, mt hseen.1 hfirst.2⟩]
        exact .cons List.getElem?_concat_length .nil
    · refine ⟨places, hsorted, ?_, ?_⟩
      · intro i
        rw [hmem, ModuleEntry.firstAt_concat, or_iff_left fun h => hfirst h.2]
      · have hnone : markedFunctions (seenAfter [] es) [e] = [] := by
          apply markedFunctions_of_seen
          intro e' he hmarked
          obtain rfl := List.mem_singleton.1 he
          exact hseen.2 (not_not.1 fun hnot => hfirst ⟨hmarked, hnot⟩)
        rwa [hnone, List.append_nil]

/-- Entries that show nothing new change nothing, wherever they stand. -/
theorem markedFunctions_repeat {later : List ModuleEntry}
    (h : ∀ e ∈ es', e.isMarked = true → ModuleEntry.Shown es e.callable.id) :
    markedFunctions [] (es ++ es' ++ later) = markedFunctions [] (es ++ later) := by
  have hnone : markedFunctions (seenAfter [] es) es' = [] :=
    markedFunctions_of_seen fun e he hmarked => mem_seenAfter_iff.2 (.inr (h e he hmarked))
  have hfound : markedFunctions [] (es ++ es') = markedFunctions [] es := by
    rw [markedFunctions_append, hnone, List.append_nil]
  rw [markedFunctions_append, seenAfter, hfound, ← seenAfter, ← markedFunctions_append]

/-- Entries that show no function change nothing either. -/
theorem markedFunctions_plain :
    markedFunctions seen (es.filter (·.isFunction)) = markedFunctions seen es := by
  induction es generalizing seen with
  | nil => rfl
  | cons e es ih =>
    rw [List.filter_cons]
    cases hplain : e.isFunction with
    | true => rw [if_pos rfl, markedFunctions_cons, markedFunctions_cons, ih, ih]
    | false =>
      rw [if_neg Bool.false_ne_true, ih, markedFunctions_cons, if_neg]
      simp [ModuleEntry.isMarked, hplain]

end Discovery

namespace StepModule

/-- What modules show, in their order and in that of the names in each. -/
def shown (ms : List StepModule) : List ModuleEntry := ms.flatMap (·.entries)

/-- Modules show again what others show: there are no other functions with marks in them. -/
def Repeat (ms' ms : List StepModule) : Prop :=
  ∀ e ∈ shown ms', e.isMarked = true → ModuleEntry.Shown (shown ms) e.callable.id

/-- A module without what is no function. -/
def plain (m : StepModule) : StepModule := { m with entries := m.entries.filter (·.isFunction) }

theorem shown_append (ms ms' : List StepModule) : shown (ms ++ ms') = shown ms ++ shown ms' :=
  List.flatMap_append

end StepModule

namespace Discovery

/-- Modules are gone through as if each function with marks were shown once, where it is shown first. -/
structure Singles (ms : List StepModule) (firsts : List ModuleEntry) : Prop where
  places : ∃ places : List Nat, places.Pairwise (· < ·) ∧
    (∀ i, i ∈ places ↔ ModuleEntry.FirstAt (StepModule.shown ms) i) ∧
    List.Forall₂ (fun i e => (StepModule.shown ms)[i]? = some e) places firsts
  once : (firsts.map (·.callable.id)).Nodup
  all : ∀ id, id ∈ firsts.map (·.callable.id) ↔ ModuleEntry.Shown (StepModule.shown ms) id
  /-- The items are those of one function after the other. -/
  found : ofModules ms = do return (← firsts.mapM ofEntry).flatten
  /-- Those of one function are what its decorators define. -/
  got : ∀ e ∈ firsts, ∀ items, ofEntry e = .ok items → ∀ ds, e.marks.LeftBy ds →
    Site.Gets (.function e.callable) ds ds items
  built : ∀ root name, buildRegistry root ms = buildRegistry root [⟨name, firsts⟩]

/-- Modules can be left out after others. -/
structure Idle (ms ms' : List StepModule) : Prop where
  found : ofModules (ms ++ ms') = ofModules ms
  between : ∀ later, ofModules (ms ++ ms' ++ later) = ofModules (ms ++ later)
  built : ∀ root later, buildRegistry root (ms ++ ms' ++ later) = buildRegistry root (ms ++ later)

theorem ofModules_plain (ms : List StepModule) : ofModules (ms.map (·.plain)) = ofModules ms := by
  have hshown : (ms.map (·.plain)).flatMap (·.entries) = (ms.flatMap (·.entries)).filter (·.isFunction) := by
    rw [List.flatMap_map, List.filter_flatMap]
    rfl
  rw [ofModules, hshown, markedFunctions_plain, ← ofModules]

theorem singles (ms : List StepModule) : Singles ms (markedFunctions [] (StepModule.shown ms)) := by
  refine ⟨markedFunctions_places _, ?_, ?_, rfl, ?_, ?_⟩
  · have hnodup : (seenAfter [] (StepModule.shown ms)).Nodup := nodup_seenAfter List.nodup_nil
    rwa [seenAfter, List.append_nil, (List.reverse_perm _).nodup_iff] at hnodup
  · intro id
    have hmem : id ∈ seenAfter [] (StepModule.shown ms) ↔ _ := mem_seenAfter_iff
    rwa [seenAfter, List.append_nil, List.mem_reverse, or_iff_right List.not_mem_nil] at hmem
  · intro e _ items h ds hds
    rw [ofEntry_eq] at h
    exact (Marks.yields_of_findings h).gets hds.leaves.1 hds.leaves.2
  · intro root name
    have hsame : ofModules [⟨name, markedFunctions [] (StepModule.shown ms)⟩] = ofModules ms := by
      rw [ofModules, List.flatMap_singleton, markedFunctions_again]
      rfl
    rw [buildRegistry, buildRegistry, hsame]

theorem idle_of_repeat {ms ms' : List StepModule} (h : StepModule.Repeat ms' ms) : Idle ms ms' := by
  have hbetween : ∀ later, ofModules (ms ++ ms' ++ later) = ofModules (ms ++ later) := by
    intro later
    rw [ofModules, ← StepModule.shown, StepModule.shown_append, StepModule.shown_append,
      markedFunctions_repeat h, ← StepModule.shown_append, StepModule.shown, ← ofModules]
  refine ⟨?_, hbetween, ?_⟩
  · have hnone := hbetween []
    rwa [List.append_nil, List.append_nil] at hnone
  · intro root later
    rw [buildRegistry, hbetween, ← buildRegistry]

/-- Functions that several modules show are harmless. Each is found once, where it is shown first, with what
its decorators define; what is no function counts for nothing; and modules that show only what others show
could as well be missing. -/
theorem shared_once {ms ms' : List StepModule} (h : StepModule.Repeat ms' ms) :
    Idle ms ms' ∧ (∃ firsts, Singles ms firsts) ∧ ofModules (ms.map (·.plain)) = ofModules ms :=
  ⟨idle_of_repeat h, ⟨_, singles ms⟩, ofModules_plain ms⟩

end Discovery

namespace Sample

/-- A module that shows what another shows, under another name, and something that is no function. -/
def reception : StepModule :=
  ⟨"reception", [⟨"tally", true, callable 3 "count",
      ⟨[⟨.text "it is counted", "then", .int 0, []⟩], [⟨.afterScenario, none⟩]⟩⟩,
    ⟨"bell", false, callable 4 "bell", ⟨[⟨.text "it rings", "when", .int 0, []⟩], []⟩⟩]⟩

end Sample

/-- A step and a hook are found, and once only. -/
theorem Discovery.shared_once_sample : StepModule.Repeat [Sample.reception] [Sample.inventory] ∧
    (∃ items, Discovery.ofModules [Sample.inventory, Sample.reception] = .ok items ∧ items.length = 2) ∧
    Discovery.Idle [Sample.inventory] [Sample.reception] ∧
    (∃ firsts, Discovery.Singles [Sample.inventory] firsts) ∧
    Discovery.ofModules ([Sample.inventory].map (·.plain)) = Discovery.ofModules [Sample.inventory] := by
  have hrepeat : StepModule.Repeat [Sample.reception] [Sample.inventory] := by
    intro e he hmarked
    rcases List.mem_cons.1 he with rfl | he
    · exact ⟨_, List.mem_singleton_self _, rfl, rfl⟩
    · obtain rfl := List.mem_singleton.1 he
      cases hmarked
  obtain ⟨items, hitems, hlength⟩ : ∃ items, Discovery.ofModules [Sample.inventory, Sample.reception] =
      .ok items ∧ (items.length == 2) = true := exists_ok_of_any (by decide +kernel)
  exact ⟨hrepeat, ⟨items, hitems, eq_of_beq hlength⟩, shared_once hrepeat⟩

end Rehearsal
