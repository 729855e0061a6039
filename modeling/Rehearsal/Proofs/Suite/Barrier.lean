import Mathlib.Data.List.Nodup
import Rehearsal.Proofs.Suite.Threads

/-! What waits for scenarios. Hooks after a feature wait for the scenarios of it and of all features before;
hooks before a feature and its scenarios wait for those of the features before; hooks after the suite wait
for all. A pool keeps this up whoever leads, as long as the leading thread keeps pace: it goes on to another
turn when it has seen the ends of all jobs that it handed over, one by one or by shutting the pool down. -/

namespace Rehearsal
set_option autoImplicit false

/-- Is a ticket that of a scenario? -/
def Ticket.Names (t : Ticket) (features : List Feature) : Prop :=
  ∃ f, features[t.turn]? = some f ∧ t.number < f.scenarios.length

theorem Ticket.Names.turn_lt {t : Ticket} {features : List Feature} (h : t.Names features) :
    t.turn < features.length := by
  obtain ⟨f, hf, _⟩ := h
  exact (List.getElem?_eq_some_iff.1 hf).1

namespace Request

/-- Has a scenario to be over before something is asked for in a turn? -/
def waitsFor (turn : Nat) : Request → Ticket → Prop
  | .call _ [.scope (.feature _ none)], t => t.turn < turn
  | .call _ [.scope (.feature _ (some _))], t => t.turn ≤ turn
  | .call _ [.scope (.suite _ (some _))], _ => True
  | _, _ => False

/-- Hooks are told of the suite, or of the feature whose turn it is. -/
def Fits (features : List Feature) (turn : Nat) : Request → Prop
  | .call _ [.scope (.feature f _)] => features[turn]? = some f
  | .call _ [.scope (.suite fs _)] => fs = features
  | _ => True

end Request

namespace Threads
open Threads (Event)

namespace Event

/-- Has a scenario to be over before something is done? -/
def waitsFor : Event → Ticket → Prop
  | led turn m, t => m.request.waitsFor turn t
  | picked t', t => t.turn < t'.turn
  | _, _ => False

def submitted? : Event → Option Ticket
  | submitted t _ => some t
  | _ => none

/-- Hooks are told of what they belong to, and a job is the run of the scenario that its ticket names. -/
def Fits (s : Suite) (features : List Feature) : Event → Prop
  | led turn m => m.request.Fits features turn
  | submitted t j => ∃ f c, features[t.turn]? = some f ∧ f.scenarios[t.number]? = some c ∧
      j = s.scenarioJob f c t.number
  | _ => True

end Event

def tickets (h : List Event) : List Ticket := h.filterMap Event.submitted?

@[simp] theorem tickets_append (h h' : List Event) : tickets (h ++ h') = tickets h ++ tickets h' :=
  List.filterMap_append

/-- Whatever has to wait for the scenarios of a feature that are in the pool comes after their ends. -/
structure Barred (s : Suite) (features : List Feature) (h : List Event) : Prop where
  fits : ∀ e ∈ h, e.Fits s features
  once : (tickets h).Nodup
  waits : ∀ u e v, h = u ++ e :: v → ∀ t : Ticket, t.Names features →
    t.turn ∈ (tickets h).map (·.turn) → e.waitsFor t → ∃ o, .ended t o ∈ u

/-- How far the leading thread has come: whose turn it is, how many jobs of this turn it has handed over,
and of how many it has seen the ends. What belongs to turns before is over. -/
structure Progress where
  turn : Nat
  submitted : Nat
  collected : Nat

namespace Progress

/-- All scenarios of a feature are handed over, or none of them. -/
def Whole (features : List Feature) (g : Progress) : Prop :=
  g.submitted = 0 ∨ ∀ f, features[g.turn]? = some f → g.submitted = f.scenarios.length

/-- The scenarios that may be asked to be over are over. -/
def Admits (features : List Feature) (g : Progress) (turn : Nat) (r : Request) : Prop :=
  r.Fits features turn ∧ ∀ t : Ticket, t.Names features → r.waitsFor turn t → t.turn < g.turn

end Progress

/-- The leading thread keeps pace from some progress on. -/
inductive Abides (s : Suite) (features : List Feature) {α : Type} (Q : Progress → α → Prop) :
    Progress → Threaded α → Prop where
  | done {g : Progress} {a : α} : Q g a → Abides s features Q g (.done a)
  | turn {g : Progress} {turn : Nat} {p : Threaded α} :
      g.collected = g.submitted → g.Whole features → g.turn < turn →
      Abides s features Q ⟨turn, 0, 0⟩ p → Abides s features Q g p
  | single {g : Progress} {turn : Nat} {r : Request} {next : r.Answer → Threaded α} :
      g.Admits features turn r → (∀ x, Abides s features Q g (next x)) →
      Abides s features Q g (.ask (.single turn r) next)
  | submit {g : Progress} {j : Job} {next : Unit → Threaded α} :
      g.collected ≤ g.submitted → (Event.submitted ⟨g.turn, g.submitted⟩ j).Fits s features →
      Abides s features Q { g with submitted := g.submitted + 1 } (next ()) →
      Abides s features Q g (.ask (.submit ⟨g.turn, g.submitted⟩ j) next)
  | await {g : Progress} {next : Except Fault ScenarioResult → Threaded α} :
      (∀ o, Abides s features Q { g with collected := g.collected + 1 } (next o)) →
      Abides s features Q g (.ask (.await ⟨g.turn, g.collected⟩) next)
  | shutDown {g : Progress} {next : Unit → Threaded α} :
      Abides s features Q { g with collected := g.submitted } (next ()) →
      Abides s features Q g (.ask .shutDown next)
  | stall {g : Progress} {next : ThreadRequest.stall.Answer → Threaded α} :
      Abides s features Q g (.ask .stall next)

/-- What is in the pool, and what was done, when the leading thread has come so far. -/
structure Kept (s : Suite) (features : List Feature) (g : Progress) (h : List Event)
    (tasks : List (Ticket × Task)) : Prop where
  barred : Barred s features h
  entered : tasks.map (·.1) = tickets h
  place : ∀ t ∈ tickets h, t.turn < g.turn ∨ t.turn = g.turn ∧ t.number < g.submitted
  unended : ∀ p ∈ tasks, p.2.isEnded = false → p.1.turn = g.turn ∧ g.collected ≤ p.1.number
  told : ∀ t o, (t, .ended o) ∈ tasks → .ended t o ∈ h
  past : ∀ e ∈ h, ∀ t : Ticket, t.Names features → e.waitsFor t → t.turn < g.turn
  whole : ∀ t : Ticket, t.Names features → t.turn ∈ (tickets h).map (·.turn) → t.turn < g.turn →
    t ∈ tickets h
  present : ∀ n < g.submitted, ⟨g.turn, n⟩ ∈ tickets h

section Kept
variable {s : Suite} {features : List Feature} {g : Progress} {h : List Event}
  {tasks tasks' : List (Ticket × Task)} {e : Event}

theorem Event.submitted?_of_waitsFor {t : Ticket} (he : e.waitsFor t) : e.submitted? = none := by
  cases e with
  | submitted _ _ => exact he.elim
  | _ => rfl

/-- The scenarios of a turn that is over have ended. -/
theorem Kept.ended (hk : Kept s features g h tasks) {t : Ticket} (ht : t.Names features)
    (hin : t.turn ∈ (tickets h).map (·.turn)) (hlt : t.turn < g.turn) : ∃ o, .ended t o ∈ h := by
  have hmem := hk.whole t ht hin hlt
  rw [← hk.entered] at hmem
  obtain ⟨⟨_, task⟩, hp, rfl⟩ := List.mem_map.1 hmem
  cases task with
  | ended o => exact ⟨o, hk.told _ o hp⟩
  | _ => exact absurd (hk.unended _ hp rfl).1 (Nat.ne_of_lt hlt)

theorem Barred.concat (hb : Barred s features h) (hfits : e.Fits s features)
    (honce : (tickets (h ++ [e])).Nodup)
    (hold : ∀ e' ∈ h, ∀ t : Ticket, t.Names features → e'.waitsFor t →
      ∀ t', e.submitted? = some t' → t'.turn ≠ t.turn)
    (hnew : ∀ t : Ticket, t.Names features → t.turn ∈ (tickets h).map (·.turn) → e.waitsFor t →
      ∃ o, .ended t o ∈ h) : Barred s features (h ++ [e]) := by
  refine ⟨List.forall_mem_append.2 ⟨hb.fits, List.forall_mem_singleton.2 hfits⟩, honce, ?_⟩
  intro u e' v hsplit t ht hin hw
  rw [tickets_append, List.map_append, List.mem_append] at hin
  rcases split_append hsplit with ⟨u', rfl, hrest⟩ | ⟨v', rfl, _⟩
  · obtain ⟨rfl, rfl⟩ : u' = [] ∧ e = e' := by
      cases u' with
      | nil => exact ⟨rfl, (List.cons.inj hrest).1⟩
      | cons _ _ => simp at hrest
    have hin : t.turn ∈ (tickets h).map (·.turn) := by
      refine hin.resolve_right fun hlate => ?_
      rw [tickets, List.filterMap_cons, Event.submitted?_of_waitsFor hw] at hlate
      cases hlate
    obtain ⟨o, ho⟩ := hnew t ht hin hw
    exact ⟨o, List.mem_append_left _ ho⟩
  · have hin : t.turn ∈ (tickets (u ++ e' :: v')).map (·.turn) := by
      refine hin.resolve_right fun hlate => ?_
      obtain ⟨t', ht', hturn⟩ := List.mem_map.1 hlate
      have hsub : e.submitted? = some t' := by simpa [tickets] using ht'
      exact hold e' (by simp) t ht hw t' hsub hturn
    exact hb.waits u e' v' rfl t ht hin hw

/-- Nothing is handed over, and what has to be over is. -/
theorem Kept.quiet (hk : Kept s features g h tasks) (collected : Nat) (he : e.submitted? = none)
    (hfits : e.Fits s features)
    (hwaits : ∀ t : Ticket, t.Names features → e.waitsFor t → t.turn < g.turn)
    (hsame : tasks'.map (·.1) = tasks.map (·.1))
    (hunended : ∀ p ∈ tasks', p.2.isEnded = false → p.1.turn = g.turn ∧ collected ≤ p.1.number)
    (hover : ∀ t o, (t, .ended o) ∈ tasks' → (t, .ended o) ∈ tasks ∨ e = .ended t o) :
    Kept s features { g with collected := collected } (h ++ [e]) tasks' := by
  have htickets : tickets (h ++ [e]) = tickets h := by
    rw [tickets_append]
    simp [tickets, he]
  refine ⟨?_, ?_, ?_, hunended, ?_, ?_, ?_, ?_⟩
  · refine hk.barred.concat hfits (htickets ▸ hk.barred.once) ?_ ?_
    · intro e' _ t _ _ t' ht'
      cases he.symm.trans ht'
    · exact fun t ht hin hw => hk.ended ht hin (hwaits t ht hw)
  · rw [hsame, hk.entered, htickets]
  · rw [htickets]
    exact hk.place
  · intro t o ht
    rcases hover t o ht with ht | rfl
    · exact List.mem_append_left _ (hk.told t o ht)
    · exact List.mem_append_right _ (List.mem_singleton_self _)
  · exact List.forall_mem_append.2 ⟨hk.past, List.forall_mem_singleton.2 hwaits⟩
  · rw [htickets]
    exact hk.whole
  · rw [htickets]
    exact hk.present

/-- The next job of the turn is handed over. -/
theorem Kept.submit (hk : Kept s features g h tasks) {j : Job}
    (hfits : (Event.submitted ⟨g.turn, g.submitted⟩ j).Fits s features)
    (hcollected : g.collected ≤ g.submitted) :
    Kept s features { g with submitted := g.submitted + 1 }
      (h ++ [.submitted ⟨g.turn, g.submitted⟩ j]) (tasks ++ [(⟨g.turn, g.submitted⟩, .waiting j)]) := by
  have hfresh : (⟨g.turn, g.submitted⟩ : Ticket) ∉ tickets h := by
    intro hmem
    rcases hk.place _ hmem with hlt | ⟨_, hlt⟩ <;> exact Nat.lt_irrefl _ hlt
  have htickets : tickets (h ++ [.submitted ⟨g.turn, g.submitted⟩ j]) =
      tickets h ++ [⟨g.turn, g.submitted⟩] := tickets_append ..
  refine ⟨?_, ?_, ?_, ?_, ?_, ?_, ?_, ?_⟩
  · refine hk.barred.concat hfits ?_ ?_ ?_
    · rw [htickets]
      exact List.nodup_append_comm.1 (List.nodup_cons.2 ⟨hfresh, hk.barred.once⟩)
    · intro e he t ht hw t' ht' hturn
      cases ht'
      exact Nat.ne_of_gt (hk.past e he t ht hw) hturn
    · exact fun _ _ _ => False.elim
  · rw [List.map_append, hk.entered, htickets]
    rfl
  · rw [htickets]
    refine List.forall_mem_append.2 ⟨fun t ht => ?_, List.forall_mem_singleton.2 ?_⟩
    · exact (hk.place t ht).imp_right fun ⟨hturn, hlt⟩ => ⟨hturn, Nat.lt_succ_of_lt hlt⟩
    · exact .inr ⟨rfl, Nat.lt_succ_self _⟩
  · exact List.forall_mem_append.2 ⟨hk.unended, List.forall_mem_singleton.2 fun _ => ⟨rfl, hcollected⟩⟩
  · intro t o ht
    rcases List.mem_append.1 ht with ht | ht
    · exact List.mem_append_left _ (hk.told t o ht)
    · simp at ht
  · exact List.forall_mem_append.2 ⟨hk.past, List.forall_mem_singleton.2 fun _ _ => False.elim⟩
  · intro t ht hin hlt
    rw [htickets] at hin ⊢
    rw [List.map_append, List.mem_append] at hin
    refine List.mem_append_left _ (hk.whole t ht (hin.resolve_right fun hlate => ?_) hlt)
    rw [List.map_singleton, List.mem_singleton] at hlate
    exact Nat.ne_of_lt hlt hlate
  · intro n hn
    rw [htickets]
    rcases Nat.lt_succ_iff_lt_or_eq.1 hn with hn | rfl
    · exact List.mem_append_left _ (hk.present n hn)
    · exact List.mem_append_right _ (List.mem_singleton_self _)

/-- The ends of all jobs of a turn were seen, so that it is over. -/
theorem Kept.turn (hk : Kept s features g h tasks) (hall : g.collected = g.submitted)
    (hwhole : g.Whole features) {turn : Nat} (hlt : g.turn < turn) :
    Kept s features ⟨turn, 0, 0⟩ h tasks := by
  have hended : ∀ p ∈ tasks, p.2.isEnded = true := by
    intro p hp
    by_contra hne
    obtain ⟨hturn, hle⟩ := hk.unended p hp (Bool.not_eq_true _ ▸ hne)
    have hin : p.1 ∈ tickets h := hk.entered ▸ List.mem_map_of_mem hp
    rcases hk.place _ hin with hbefore | ⟨_, hbefore⟩ <;> omega
  have hplace : ∀ t ∈ tickets h, t.turn ≤ g.turn :=
    fun t ht => (hk.place t ht).elim Nat.le_of_lt fun ⟨hturn, _⟩ => Nat.le_of_eq hturn
  refine ⟨hk.barred, hk.entered, ?_, ?_, hk.told, ?_, ?_, nofun⟩
  · exact fun t ht => .inl (Nat.lt_of_le_of_lt (hplace t ht) hlt)
  · intro p hp hne
    cases (hended p hp).symm.trans hne
  · exact fun e he t ht hw => Nat.lt_trans (hk.past e he t ht hw) hlt
  · intro t ht hin _
    obtain ⟨t', ht', hturn⟩ := List.mem_map.1 hin
    rcases Nat.lt_or_eq_of_le (hplace t' ht') with hbefore | hnow
    · exact hk.whole t ht hin (hturn ▸ hbefore)
    -- A job of this turn was handed over, and so all of them were.
    · have hpos : t'.number < g.submitted := by
        rcases hk.place t' ht' with hbefore | ⟨_, hlt⟩
        · exact absurd hnow (Nat.ne_of_lt hbefore)
        · exact hlt
      obtain ⟨f, hf, hnumber⟩ := ht
      have hsize : g.submitted = f.scenarios.length := by
        rcases hwhole with hzero | hsize
        · omega
        · exact hsize f (by rw [← hnow, hturn, hf])
      have hmem := hk.present t.number (hsize ▸ hnumber)
      rwa [← hnow, hturn] at hmem

/-- A worker goes on with a job, by an event that says so when it ends. -/
theorem Kept.worker {before after : List (Ticket × Task)} {t : Ticket} {a b : Task}
    (hk : Kept s features g h (before ++ (t, a) :: after)) (ha : a.isEnded = false)
    (he : e.submitted? = none) (hfits : e.Fits s features)
    (hwaits : ∀ t', e.waitsFor t' → t'.turn < t.turn) (hend : ∀ o, b = .ended o → e = .ended t o) :
    Kept s features g (h ++ [e]) (before ++ (t, b) :: after) := by
  have hturn := hk.unended (t, a) (by simp) ha
  refine hk.quiet g.collected he hfits (fun t' _ hw => hturn.1 ▸ hwaits t' hw) (by simp) ?_ ?_
  · intro p hp hne
    rcases List.mem_append.1 hp with hp | hp
    · exact hk.unended p (List.mem_append_left _ hp) hne
    · rcases List.mem_cons.1 hp with rfl | hp
      · exact hturn
      · exact hk.unended p (List.mem_append_right _ (List.mem_cons_of_mem _ hp)) hne
  · intro t' o ht'
    rcases List.mem_append.1 ht' with ht' | ht'
    · exact .inl (List.mem_append_left _ ht')
    · rcases List.mem_cons.1 ht' with heq | ht'
      · obtain ⟨rfl, hb⟩ := Prod.mk.inj heq
        exact .inr (hend o hb.symm)
      · exact .inl (List.mem_append_right _ (List.mem_cons_of_mem _ ht'))

/-- The end of the next job is seen. -/
theorem Kept.await (hk : Kept s features g h tasks) {o : Except Fault ScenarioResult}
    (ho : (⟨g.turn, g.collected⟩, .ended o) ∈ tasks) :
    Kept s features { g with collected := g.collected + 1 } (h ++ [.awaited ⟨g.turn, g.collected⟩])
      tasks := by
  refine hk.quiet (e := Event.awaited _) _ rfl trivial (fun _ _ => False.elim) rfl ?_ fun _ _ => .inl
  intro p hp hne
  obtain ⟨hturn, hle⟩ := hk.unended p hp hne
  refine ⟨hturn, Nat.lt_of_le_of_ne hle fun heq => ?_⟩
  -- A ticket stands once in the pool, so that this job is the one that has ended.
  have hnodup : (tasks.map (·.1)).Nodup := hk.entered ▸ hk.barred.once
  have hticket : p.1 = ⟨g.turn, g.collected⟩ := by
    rw [← hturn, heq]
  have hp' := List.inj_on_of_nodup_map hnodup hp ho hticket
  rw [hp'] at hne
  cases hne

/-- No job is left when the pool is shut down. -/
theorem Kept.close (hk : Kept s features g h tasks) (hall : ∀ p ∈ tasks, p.2.isEnded = true) :
    Kept s features { g with collected := g.submitted } (h ++ [.closed]) tasks := by
  refine hk.quiet (e := Event.closed) _ rfl trivial (fun _ _ => False.elim) rfl ?_ fun _ _ => .inl
  intro p hp hne
  cases (hall p hp).symm.trans hne

theorem Kept.works {workers : Nat} (hk : Kept s features g h tasks) (hw : Works workers tasks e tasks') :
    Kept s features g (h ++ [e]) tasks' := by
  cases hw with
  | pick before after _ => exact hk.worker rfl rfl trivial (fun _ => id) nofun
  | go before after x b => exact hk.worker rfl rfl trivial (fun _ => False.elim) nofun
  | finish before after =>
    exact hk.worker rfl rfl trivial (fun _ => False.elim) fun o ho => by cases ho; rfl

theorem Kept.leads {α : Type} {Q : Progress → α → Prop} {lead : Threaded α} {st : Threads α}
    (hp : Abides s features Q g lead) (hk : Kept s features g h tasks) (hl : Leads ⟨lead, tasks⟩ e st) :
    ∃ g', Abides s features Q g' st.lead ∧ Kept s features g' (h ++ [e]) st.tasks := by
  induction hp generalizing e st with
  | done _ => cases hl
  | turn hall hwhole hlt _ ih => exact ih (hk.turn hall hwhole hlt) hl
  | single hadmits hnext _ =>
    cases hl with
    | single x b =>
      exact ⟨_, hnext x, hk.quiet _ rfl hadmits.1 hadmits.2 rfl hk.unended fun _ _ => .inl⟩
  | submit hle hfits hnext _ =>
    cases hl with
    | submit => exact ⟨_, hnext, hk.submit hfits hle⟩
  | await hnext _ =>
    cases hl with
    | await ho => exact ⟨_, hnext _, hk.await ho⟩
    | interrupt =>
      exact ⟨_, .await hnext, hk.quiet _ rfl trivial (fun _ _ => False.elim) rfl hk.unended
        fun _ _ => .inl⟩
  | shutDown hnext _ =>
    cases hl with
    | close hall => exact ⟨_, hnext, hk.close hall⟩
  | stall => cases hl

theorem kept_nil : Kept s features ⟨0, 0, 0⟩ [] [] where
  barred := ⟨List.forall_mem_nil _, List.nodup_nil, fun u e v hsplit => by simp at hsplit⟩
  entered := rfl
  place := List.forall_mem_nil _
  unended := List.forall_mem_nil _
  told _ _ hmem := absurd hmem List.not_mem_nil
  past := List.forall_mem_nil _
  whole _ _ hmem _ := absurd hmem List.not_mem_nil
  present _ hlt := absurd hlt (Nat.not_lt_zero _)

/-- Where the leading thread keeps pace, everything that has to wait does so. -/
theorem kept_of_reaches {α : Type} {Q : Progress → α → Prop} {workers : Nat} {p : Threaded α}
    {st : Threads α} (hp : Abides s features Q ⟨0, 0, 0⟩ p) (hr : Reaches workers p h st) :
    ∃ g, Abides s features Q g st.lead ∧ Kept s features g h st.tasks := by
  induction hr with
  | start => exact ⟨⟨0, 0, 0⟩, hp, kept_nil⟩
  | step _ hstep ih =>
    obtain ⟨g, hlead, hk⟩ := ih
    cases hstep with
    | lead hl => exact Kept.leads hlead hk hl
    | work hw => exact ⟨g, hlead, hk.works hw⟩

end Kept
end Threads
end Rehearsal
