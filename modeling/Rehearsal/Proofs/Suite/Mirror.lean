import Rehearsal.Proofs.Suite.Pace

/-! What threads come to is what a suite comes to. While jobs are in the pool, what is left of them stands for
the pool that the suite asked for; where the leading thread stops at a fault, the pool is over when it is shut
down, and nothing was asked for in between. -/

namespace Rehearsal
set_option autoImplicit false

namespace Threads
variable {α β : Type}

def Event.moment? : Event → Option (Moment Request.Answer Bool)
  | led _ m | worked _ m => some m
  | _ => none

/-- What is seen of threads, in the order in which they do it. -/
def moments (h : List Event) : Trace := h.filterMap Event.moment?

/-- A program for threads does what the program of a suite does. Where it stops at the first fault of a pool,
no more is said than is asked of such programs. -/
inductive Mirrors (S : Threaded α → SuiteRoutine α → Prop) : Threaded α → SuiteRoutine α → Prop where
  | done (a : α) : Mirrors S (.done a) (.done a)
  | single {turn : Nat} {r : Request} {rest : r.Answer → Threaded α} {next : r.Answer → SuiteRoutine α} :
      (∀ x, Mirrors S (rest x) (next x)) →
      Mirrors S (.ask (.single turn r) rest) (.ask (.single r) next)
  | shutDown {rest : Unit → Threaded α} {p : SuiteRoutine α} :
      Mirrors S (rest ()) p → Mirrors S (.ask .shutDown rest) p
  | pool {turn : Nat} {jobs : List Job} {rest : List (Except Fault ScenarioResult) → Threaded α}
      {next : List (Except Fault ScenarioResult) → SuiteRoutine α} :
      (∀ rs : List ScenarioResult, Mirrors S (rest (rs.map .ok)) (next (rs.map .ok))) →
      (∀ (rs : List ScenarioResult) f ends,
        S (rest (rs.map .ok ++ [.error f])) (next (rs.map .ok ++ .error f :: ends))) →
      Mirrors S
        (Threaded.submitAll turn 0 jobs >>= fun _ => Threaded.collect turn 0 jobs.length >>= rest)
        (.ask (.pool jobs) next)

/-- The leading thread stalls as the suite does. -/
def BothStall (p : Threaded α) (q : SuiteRoutine α) : Prop :=
  ∃ rest next, p = .ask .stall rest ∧ q = .ask .stall next

/-- The pool is shut down before anything else, unless nothing is done any more. -/
def Stops (p : Threaded α) (q : SuiteRoutine α) : Prop :=
  (∃ rest, p = .ask .shutDown rest ∧ Mirrors (fun _ _ => False) (rest ()) q) ∨ BothStall p q

theorem Mirrors.imp {S S' : Threaded α → SuiteRoutine α → Prop} {p : Threaded α} {q : SuiteRoutine α}
    (h : Mirrors S p q) (hS : ∀ p q, S p q → S' p q) : Mirrors S' p q := by
  induction h with
  | done a => exact .done a
  | single _ ih => exact .single ih
  | shutDown _ ih => exact .shutDown ih
  | pool _ hstop ih => exact .pool ih fun rs f ends => hS _ _ (hstop rs f ends)

theorem Mirrors.bind {S : Threaded α → SuiteRoutine α → Prop} {S' : Threaded β → SuiteRoutine β → Prop}
    {p : Threaded α} {q : SuiteRoutine α} {f : α → Threaded β} {g : α → SuiteRoutine β}
    (h : Mirrors S p q) (hf : ∀ a, Mirrors S' (f a) (g a))
    (hS : ∀ p q, S p q → S' (p >>= f) (q >>= g)) : Mirrors S' (p >>= f) (q >>= g) := by
  induction h with
  | done a => exact hf a
  | single _ ih => exact .single ih
  | shutDown _ ih => exact .shutDown ih
  | @pool turn jobs rest next _ hstop ih =>
    have hassoc : (Threaded.submitAll turn 0 jobs >>= fun _ =>
        Threaded.collect turn 0 jobs.length >>= rest) >>= f =
        Threaded.submitAll turn 0 jobs >>= fun _ =>
          Threaded.collect turn 0 jobs.length >>= fun ends => rest ends >>= f := by
      simp only [Program.bind_assoc]
    rw [hassoc]
    exact .pool ih fun rs f ends => hS _ _ (hstop rs f ends)

/-- Where the leading thread is, while a pool is in use: how many jobs are in it that it has not seen the ends
of, and which it has still to hand over. -/
inductive Pooling (turn : Nat) (rest : List (Except Fault ScenarioResult) → Threaded α) :
    Threaded α → List (Except Fault ScenarioResult) → Nat → List Job → Prop where
  | submit (n : Nat) (jobs : List Job) :
      Pooling turn rest
        (Threaded.submitAll turn n jobs >>= fun _ => Threaded.collect turn 0 (n + jobs.length) >>= rest)
        [] n jobs
  | collect (rs : List ScenarioResult) (n : Nat) :
      Pooling turn rest (Threaded.collect turn rs.length n >>= fun ends => rest (rs.map .ok ++ ends))
        (rs.map .ok) n []
  | stop (rs : List ScenarioResult) (f : Fault) (n : Nat) :
      Pooling turn rest (rest (rs.map .ok ++ [.error f])) (rs.map .ok ++ [.error f]) n []

/-- What is left to do, for threads and for the suite. -/
inductive Stands : Threads α → SuiteRoutine α → Prop where
  | out {lead : Threaded α} {tasks : List (Ticket × Task)} {p : SuiteRoutine α} :
      (∀ t ∈ tasks, t.2.isEnded = true) → Mirrors Stops lead p → Stands ⟨lead, tasks⟩ p
  | pool {turn : Nat} {rest : List (Except Fault ScenarioResult) → Threaded α}
      {next : List (Except Fault ScenarioResult) → SuiteRoutine α} {lead : Threaded α}
      {ends : List (Except Fault ScenarioResult)} {jobs : List Job} {seen left : List (Ticket × Task)} :
      (∀ rs : List ScenarioResult, Mirrors Stops (rest (rs.map .ok)) (next (rs.map .ok))) →
      (∀ (rs : List ScenarioResult) f ends,
        Stops (rest (rs.map .ok ++ [.error f])) (next (rs.map .ok ++ .error f :: ends))) →
      (∀ t ∈ seen, t.2.isEnded = true) →
      left.map (·.1) = (List.range' ends.length left.length).map (Ticket.mk turn) →
      Pooling turn rest lead ends left.length jobs →
      Stands ⟨lead, seen ++ left⟩
        (.ask (.pool (ends.map .done ++ (left.map (·.2.left) ++ jobs))) next)

/-- After some moments a suite has come from one program to another. -/
structure Comes (p : SuiteRoutine α) (t : Trace) (q : SuiteRoutine α) : Prop where
  shows : ∀ u a, q.Shows u a → p.Shows (t ++ u) a
  stalls : ∀ u, q.Stalls u → p.Stalls (t ++ u)

theorem Comes.refl (p : SuiteRoutine α) : Comes p [] p := ⟨fun _ _ h => h, fun _ h => h⟩

theorem Comes.trans {p q r : SuiteRoutine α} {t u : Trace} (h : Comes p t q) (h' : Comes q u r) :
    Comes p (t ++ u) r := by
  refine ⟨fun v a hv => ?_, fun v hv => ?_⟩
  · rw [List.append_assoc]
    exact h.shows _ a (h'.shows v a hv)
  · rw [List.append_assoc]
    exact h.stalls _ (h'.stalls v hv)

theorem comes_pool (ends : List (Except Fault ScenarioResult))
    (next : List (Except Fault ScenarioResult) → SuiteRoutine α) :
    Comes (.ask (.pool (ends.map .done)) next) [] (next ends) :=
  ⟨fun _ _ h => .pool (Overlap.done ends) h, fun _ h => .pool (Overlap.done ends) h⟩

theorem comes_work {before after : List Job} {r : Request} {rest : r.Answer → Job}
    {next : List (Except Fault ScenarioResult) → SuiteRoutine α} (x : r.Answer) (b : Bool) :
    Comes (.ask (.pool (before ++ .ask r rest :: after)) next) [⟨r, x, b⟩]
      (.ask (.pool (before ++ rest x :: after)) next) := by
  refine ⟨fun u a h => ?_, fun u h => ?_⟩
  · obtain ⟨ends, v, w, rfl, hover, hnext⟩ := Program.shows_pool_iff.1 h
    exact Program.shows_pool_iff.2 ⟨ends, _ :: v, w, rfl, hover.of_left b, hnext⟩
  · cases h with
    | @pool _ _ _ v w hover hnext =>
      have hpool : Program.Stalls (.ask (.pool (before ++ .ask r rest :: after)) next)
          ((⟨r, x, b⟩ :: v) ++ w) := .pool (hover.of_left b) hnext
      exact hpool

section Steps
variable {workers : Nat} {tasks tasks' : List (Ticket × Task)} {e : Event} {lead : Threaded α}
  {st : Threads α} {p : SuiteRoutine α}

/-- A worker is at one job, and what is left of it is what a suite has left of it. -/
theorem Works.exists_task (h : Works workers tasks e tasks') :
    ∃ before after t a b, tasks = before ++ (t, a) :: after ∧ tasks' = before ++ (t, b) :: after ∧
      a.isEnded = false ∧ ∀ (js js' : List Job)
        (next : List (Except Fault ScenarioResult) → SuiteRoutine α),
        Comes (.ask (.pool (js ++ a.left :: js')) next) e.moment?.toList
          (.ask (.pool (js ++ b.left :: js')) next) := by
  cases h with
  | pick before after _ =>
    exact ⟨before, after, _, _, _, rfl, rfl, rfl, fun _ _ _ => Comes.refl _⟩
  | go before after x b =>
    exact ⟨before, after, _, _, _, rfl, rfl, rfl, fun _ _ _ => comes_work x b⟩
  | finish before after =>
    exact ⟨before, after, _, _, _, rfl, rfl, rfl, fun _ _ _ => Comes.refl _⟩

theorem Stands.works (h : Stands ⟨lead, tasks⟩ p) (hw : Works workers tasks e tasks') :
    ∃ p', Stands ⟨lead, tasks'⟩ p' ∧ Comes p e.moment?.toList p' := by
  obtain ⟨before, after, t, a, b, rfl, rfl, ha, hcomes⟩ := hw.exists_task (α := α)
  generalize hst : (⟨lead, before ++ (t, a) :: after⟩ : Threads α) = st at h
  cases h with
  | out hended _ =>
    cases hst
    exact absurd (hended (t, a) (by simp)) (by simp [ha])
  | @pool turn rest next lead ends jobs seen left hall hstop hended htickets hpooling =>
    obtain ⟨rfl, hsplit⟩ := Threads.mk.inj hst
    rcases split_append hsplit.symm with ⟨before', rfl, rfl⟩ | ⟨_, rfl, _⟩
    · have hstands : Stands ⟨lead, seen ++ (before' ++ (t, b) :: after)⟩ _ :=
        .pool hall hstop hended (by simpa using htickets) (by simpa using hpooling)
      refine ⟨_, List.append_assoc seen before' _ ▸ hstands, ?_⟩
      have hjobs : ∀ c : Task, ends.map .done ++ ((before' ++ (t, c) :: after).map (·.2.left) ++ jobs) =
          (ends.map .done ++ before'.map (·.2.left)) ++ c.left :: (after.map (·.2.left) ++ jobs) := by simp
      rw [hjobs a, hjobs b]
      exact hcomes _ _ next
    · exact absurd (hended (t, a) (by simp)) (by simp [ha])

/-- The leading thread goes on while nothing is left in the pool. -/
theorem Mirrors.leads (hm : Mirrors Stops lead p) (hended : ∀ t ∈ tasks, t.2.isEnded = true)
    (hl : Leads ⟨lead, tasks⟩ e st) : ∃ p', Stands st p' ∧ Comes p e.moment?.toList p' := by
  induction hm with
  | done a => cases hl
  | single hrest _ =>
    cases hl with
    | single x b =>
      exact ⟨_, .out hended (hrest x), fun _ _ h => .single x b h, fun _ h => .single x b h⟩
  | shutDown hrest _ =>
    cases hl with
    | close _ => exact ⟨_, .out hended hrest, Comes.refl _⟩
  | @pool turn jobs rest next hall hstop ih =>
    cases jobs with
    | nil =>
      -- For an empty pool the threads do nothing: this step is one of what comes after it.
      obtain ⟨p', hstands, hcomes⟩ := ih [] hl
      exact ⟨p', hstands, (comes_pool [] next).trans hcomes⟩
    | cons j jobs =>
      have hl : Leads ⟨.ask (.submit ⟨turn, 0⟩ j) fun _ => Threaded.submitAll turn 1 jobs >>= fun _ =>
          Threaded.collect turn 0 (jobs.length + 1) >>= rest, tasks⟩ e st := hl
      cases hl with
      | submit =>
        have hpooling : Pooling turn rest _ [] 1 jobs := .submit 1 jobs
        rw [Nat.add_comm 1] at hpooling
        have hstands : Stands ⟨_, tasks ++ [(⟨turn, 0⟩, .waiting j)]⟩ _ :=
          .pool hall hstop hended rfl hpooling
        exact ⟨_, hstands, Comes.refl _⟩

theorem exists_ends {left : List (Ticket × Task)} (h : ∀ t ∈ left, t.2.isEnded = true) :
    ∃ ends : List (Except Fault ScenarioResult), left.map (·.2.left) = ends.map .done := by
  induction left with
  | nil => exact ⟨[], rfl⟩
  | cons t left ih =>
    obtain ⟨ht, hleft⟩ := List.forall_mem_cons.1 h
    obtain ⟨ends, hends⟩ := ih hleft
    obtain ⟨k, task⟩ := t
    cases task with
    | ended o => exact ⟨o :: ends, congrArg _ hends⟩
    | _ => cases ht

section Pool
variable {turn : Nat} {rest : List (Except Fault ScenarioResult) → Threaded α}
  {next : List (Except Fault ScenarioResult) → SuiteRoutine α} {seen left : List (Ticket × Task)}
  (hall : ∀ rs : List ScenarioResult, Mirrors Stops (rest (rs.map .ok)) (next (rs.map .ok)))
  (hstop : ∀ (rs : List ScenarioResult) f ends,
    Stops (rest (rs.map .ok ++ [.error f])) (next (rs.map .ok ++ .error f :: ends)))
  (hended : ∀ t ∈ seen, t.2.isEnded = true)

include hall hstop hended in
/-- One more job is handed over. -/
theorem leads_submit {j : Job} {jobs : List Job}
    (htickets : left.map (·.1) = (List.range' 0 left.length).map (Ticket.mk turn))
    (hl : Leads ⟨Threaded.submitAll turn left.length (j :: jobs) >>= fun _ =>
      Threaded.collect turn 0 (left.length + (jobs.length + 1)) >>= rest, seen ++ left⟩ e st) :
    ∃ p', Stands st p' ∧ Comes (.ask (.pool (left.map (·.2.left) ++ j :: jobs)) next)
      e.moment?.toList p' := by
  have hl : Leads ⟨.ask (.submit ⟨turn, left.length⟩ j) fun _ =>
      Threaded.submitAll turn (left.length + 1) jobs >>= fun _ =>
        Threaded.collect turn 0 (left.length + (jobs.length + 1)) >>= rest, seen ++ left⟩ e st := hl
  cases hl with
  | submit =>
    let entry : Ticket × Task := (⟨turn, left.length⟩, .waiting j)
    have hlength : (left ++ [entry]).length = left.length + 1 := List.length_append
    have htickets' : (left ++ [entry]).map (·.1) =
        (List.range' 0 (left ++ [entry]).length).map (Ticket.mk turn) := by
      rw [hlength]
      simp [htickets, List.range'_concat, entry]
    have hpooling : Pooling turn rest _ [] (left ++ [entry]).length jobs := .submit _ jobs
    have hcount : (left ++ [entry]).length + jobs.length = left.length + (jobs.length + 1) := by omega
    rw [hcount] at hpooling
    have hstands := Stands.pool hall hstop hended htickets' hpooling
    rw [← List.append_assoc, hlength] at hstands
    refine ⟨_, hstands, ?_⟩
    have hjobs : left.map (·.2.left) ++ j :: jobs =
        [] ++ ((left ++ [entry]).map (·.2.left) ++ jobs) := by simp [Task.left, entry]
    rw [hjobs]
    exact Comes.refl _

include hall hstop hended in
/-- Once its end is seen, a job counts to those that are over. -/
theorem stands_seen (rs : List ScenarioResult) (o : Except Fault ScenarioResult)
    (hlater : left.map (·.1) = (List.range' (rs.length + 1) left.length).map (Ticket.mk turn)) :
    Stands ⟨Threaded.upToFault (Threaded.collect turn (rs.length + 1) left.length) o >>= fun ends =>
        rest (rs.map .ok ++ ends), seen ++ (⟨turn, rs.length⟩, .ended o) :: left⟩
      (.ask (.pool ((rs.map Except.ok).map .done ++
        ((((⟨turn, rs.length⟩ : Ticket), Task.ended o) :: left).map (·.2.left) ++ []))) next) := by
  have hended' : ∀ t ∈ seen ++ [((⟨turn, rs.length⟩ : Ticket), Task.ended o)], t.2.isEnded = true :=
    List.forall_mem_append.2 ⟨hended, List.forall_mem_singleton.2 rfl⟩
  cases o with
  | ok r =>
    have hlead : (Threaded.upToFault (Threaded.collect turn (rs.length + 1) left.length) (.ok r) >>=
        fun ends => rest (rs.map .ok ++ ends)) =
        Threaded.collect turn (rs ++ [r]).length left.length >>= fun ends =>
          rest ((rs ++ [r]).map .ok ++ ends) := by
      rw [Threaded.upToFault, Program.bind_assoc]
      simp
    have hjobs : (rs.map Except.ok).map .done ++
        ((((⟨turn, rs.length⟩ : Ticket), Task.ended (.ok r)) :: left).map (·.2.left) ++ []) =
        ((rs ++ [r]).map Except.ok).map .done ++ (left.map (·.2.left) ++ []) := by simp [Task.left]
    have hstands := Stands.pool hall hstop hended' (by simpa using hlater)
      (.collect (rs ++ [r]) left.length)
    rw [List.append_assoc] at hstands
    rw [hlead, hjobs]
    exact hstands
  | error f =>
    have hjobs : (rs.map Except.ok).map .done ++
        ((((⟨turn, rs.length⟩ : Ticket), Task.ended (.error f)) :: left).map (·.2.left) ++ []) =
        (rs.map Except.ok ++ [Except.error f]).map .done ++ (left.map (·.2.left) ++ []) := by
      simp [Task.left]
    have hstands := Stands.pool hall hstop hended' (by simpa using hlater) (.stop rs f left.length)
    rw [List.append_assoc] at hstands
    rw [hjobs]
    exact hstands

include hall hstop hended in
/-- The end of the next job is waited for, or there are no more. -/
theorem leads_collect (rs : List ScenarioResult) (hnodup : ((seen ++ left).map (·.1)).Nodup)
    (htickets : left.map (·.1) = (List.range' rs.length left.length).map (Ticket.mk turn))
    (hl : Leads ⟨Threaded.collect turn rs.length left.length >>= fun ends => rest (rs.map .ok ++ ends),
      seen ++ left⟩ e st) :
    ∃ p', Stands st p' ∧
      Comes (.ask (.pool ((rs.map Except.ok).map .done ++ (left.map (·.2.left) ++ []))) next)
        e.moment?.toList p' := by
  cases left with
  | nil =>
    have hl : Leads ⟨rest (rs.map .ok ++ []), seen ++ []⟩ e st := hl
    rw [List.append_nil, List.append_nil] at hl
    obtain ⟨p', hstands, hcomes⟩ := (hall rs).leads hended hl
    rw [List.map_nil, List.append_nil, List.append_nil]
    exact ⟨p', hstands, (comes_pool _ next).trans hcomes⟩
  | cons t left =>
    obtain ⟨t, task⟩ := t
    obtain ⟨rfl, hlater⟩ : t = ⟨turn, rs.length⟩ ∧
        left.map (·.1) = (List.range' (rs.length + 1) left.length).map (Ticket.mk turn) := by
      simpa [List.range'_succ] using htickets
    have hl : Leads ⟨.ask (.await ⟨turn, rs.length⟩) fun o =>
        Threaded.upToFault (Threaded.collect turn (rs.length + 1) left.length) o >>= fun ends =>
          rest (rs.map .ok ++ ends), seen ++ (⟨turn, rs.length⟩, task) :: left⟩ e st := hl
    cases hl with
    | interrupt =>
      have hpooling : Pooling turn rest _ _ (left.length + 1) [] := .collect rs (left.length + 1)
      have hstands : Stands ⟨_, seen ++ (⟨turn, rs.length⟩, task) :: left⟩ _ :=
        .pool hall hstop hended (by simpa using htickets) hpooling
      exact ⟨_, hstands, Comes.refl _⟩
    | @await _ _ _ o ho =>
      -- A ticket stands once in the pool, so that this is the job that has ended.
      have hsame : ((⟨turn, rs.length⟩ : Ticket), Task.ended o) = (⟨turn, rs.length⟩, task) :=
        List.inj_on_of_nodup_map hnodup ho (by simp) rfl
      obtain rfl : Task.ended o = task := (Prod.mk.inj hsame).2
      exact ⟨_, stands_seen hall hstop hended rs o hlater, Comes.refl _⟩

include hstop in
/-- The pool is shut down where the leading thread stops at a fault. -/
theorem leads_stop {rs : List ScenarioResult} {f : Fault}
    (hl : Leads ⟨rest (rs.map .ok ++ [.error f]), seen ++ left⟩ e st) :
    ∃ p', Stands st p' ∧
      Comes (.ask (.pool ((rs.map Except.ok ++ [Except.error f]).map .done ++
        (left.map (·.2.left) ++ []))) next) e.moment?.toList p' := by
  rcases hstop rs f [] with ⟨_, hshut, _⟩ | ⟨_, _, hstall, _⟩
  swap
  · rw [hstall] at hl
    cases hl
  rw [hshut] at hl
  cases hl with
  | close hclosed =>
    -- The ends that nobody looked at are known by now, and the suite sees them all.
    obtain ⟨ends, hends⟩ := exists_ends fun t ht => hclosed t (List.mem_append_right _ ht)
    rcases hstop rs f ends with ⟨_, hsame, hm⟩ | ⟨_, _, hsame, _⟩
    swap
    · cases hshut.symm.trans hsame
    cases hshut.symm.trans hsame
    refine ⟨_, .out hclosed (hm.imp fun _ _ => False.elim), ?_⟩
    rw [hends, List.append_nil, ← List.map_append, List.append_assoc, List.singleton_append]
    exact comes_pool _ next

end Pool

/-- Whatever some thread does, the suite does. -/
theorem Stands.step {st st' : Threads α} (h : Stands st p) (hnodup : (st.tasks.map (·.1)).Nodup)
    (hs : Step workers st e st') : ∃ p', Stands st' p' ∧ Comes p e.moment?.toList p' := by
  cases hs with
  | work hw => exact h.works hw
  | lead hl =>
    cases h with
    | out hended hm => exact hm.leads hended hl
    | @pool turn rest next lead ends jobs seen left hall hstop hended htickets hpooling =>
      generalize hn : left.length = n at hpooling
      cases hpooling with
      | submit _ jobs =>
        subst hn
        cases jobs with
        | nil => exact leads_collect hall hstop hended [] hnodup htickets hl
        | cons j jobs => exact leads_submit hall hstop hended htickets hl
      | collect rs _ =>
        subst hn
        exact leads_collect hall hstop hended rs hnodup (by simpa using htickets) hl
      | stop rs f _ => exact leads_stop hstop hl

theorem shows_of_mirrors_done {S : Threaded α → SuiteRoutine α → Prop} {a : α}
    (h : Mirrors S (.done a) p) : p.Shows [] a := by
  generalize hp : (Program.done a : Threaded α) = lead at h
  induction h with
  | done b =>
    cases hp
    exact .done a
  | single _ _ => cases hp
  | shutDown _ _ => cases hp
  | @pool turn jobs rest next _ _ ih =>
    cases jobs with
    | nil => exact (comes_pool [] next).shows _ _ (ih [] hp)
    | cons j jobs => cases hp

/-- Where the leading thread neither hands over a job nor waits for one, it has seen the ends of all jobs, or a
fault among them. -/
theorem Pooling.over {turn n : Nat} {rest : List (Except Fault ScenarioResult) → Threaded α}
    {ends : List (Except Fault ScenarioResult)} {jobs : List Job} (h : Pooling turn rest lead ends n jobs)
    (hsubmit : ∀ t j next, lead ≠ .ask (.submit t j) next) (hawait : ∀ t next, lead ≠ .ask (.await t) next) :
    jobs = [] ∧ ((∃ rs : List ScenarioResult, ends = rs.map .ok ∧ n = 0 ∧ lead = rest (rs.map .ok)) ∨
      ∃ (rs : List ScenarioResult) (f : Fault), ends = rs.map .ok ++ [.error f] ∧
        lead = rest (rs.map .ok ++ [.error f])) := by
  cases h with
  | submit _ jobs =>
    cases jobs with
    | nil =>
      cases n with
      | zero => exact ⟨rfl, .inl ⟨[], rfl, rfl, rfl⟩⟩
      | succ n => exact absurd rfl (hawait _ _)
    | cons j jobs => exact absurd rfl (hsubmit _ _ _)
  | collect rs _ =>
    cases n with
    | zero => exact ⟨rfl, .inl ⟨rs, rfl, rfl, congrArg rest (List.append_nil _)⟩⟩
    | succ n => exact absurd rfl (hawait _ _)
  | stop rs f _ => exact ⟨rfl, .inr ⟨rs, f, rfl, rfl⟩⟩

/-- Where the leading thread is done, so is the suite. -/
theorem Stands.shows {a : α} (h : Stands ⟨.done a, tasks⟩ p) : p.Shows [] a := by
  generalize hst : (⟨.done a, tasks⟩ : Threads α) = st at h
  cases h with
  | out _ hm =>
    cases hst
    exact shows_of_mirrors_done hm
  | @pool turn rest next lead ends jobs seen left hall hstop _ _ hpooling =>
    obtain ⟨rfl, -⟩ := Threads.mk.inj hst
    obtain ⟨rfl, ⟨rs, rfl, hleft, hlead⟩ | ⟨rs, f, rfl, hlead⟩⟩ := hpooling.over nofun nofun
    · obtain rfl := List.length_eq_zero_iff.1 hleft
      rw [List.map_nil, List.append_nil, List.append_nil]
      exact (comes_pool _ next).shows _ _ (shows_of_mirrors_done (hlead ▸ hall rs))
    · rcases hstop rs f [] with ⟨_, hshut, _⟩ | ⟨_, _, hstall, _⟩
      · cases hlead.trans hshut
      · cases hlead.trans hstall

/-- What mirrors a suite does not stall by itself: it does so where it stops at a fault. -/
theorem not_mirrors_stall {S : Threaded α → SuiteRoutine α → Prop}
    {rest : ThreadRequest.stall.Answer → Threaded α} : ¬ Mirrors S (.ask .stall rest) p := by
  intro h
  generalize hlead : (Program.ask ThreadRequest.stall rest : Threaded α) = lead at h
  induction h with
  | done _ => cases hlead
  | single _ _ => cases hlead
  | shutDown _ _ => cases hlead
  | @pool turn jobs _ _ _ _ ih =>
    cases jobs with
    | nil => exact ih [] hlead
    | cons j jobs => cases hlead

/-- Where the leading thread stalls, the suite does so once all jobs have come to their ends. -/
theorem Stands.stalls {stuck : ThreadRequest.stall.Answer → Threaded α}
    (h : Stands ⟨.ask .stall stuck, tasks⟩ p) (hended : ∀ t ∈ tasks, t.2.isEnded = true) :
    p.Stalls [] := by
  generalize hst : (⟨.ask .stall stuck, tasks⟩ : Threads α) = st at h
  cases h with
  | out _ hm =>
    cases hst
    exact absurd hm not_mirrors_stall
  | @pool turn rest next lead ends jobs seen left hall hstop _ _ hpooling =>
    obtain ⟨rfl, rfl⟩ := Threads.mk.inj hst
    obtain ⟨rfl, ⟨rs, rfl, _, hlead⟩ | ⟨rs, f, rfl, hlead⟩⟩ := hpooling.over nofun nofun
    · exact absurd (hlead ▸ hall rs) not_mirrors_stall
    · -- The ends that nobody looked at are known by now.
      obtain ⟨later, hlater⟩ := exists_ends fun t ht => hended t (List.mem_append_right _ ht)
      rcases hstop rs f later with ⟨_, hshut, _⟩ | ⟨_, _, _, hnext⟩
      · cases hlead.trans hshut
      · rw [hlater, List.append_nil, ← List.map_append, List.append_assoc, List.singleton_append]
        exact (comes_pool _ next).stalls _ (hnext ▸ .stall)

end Steps

/-- What threads can have come to, the suite can have come to. -/
theorem stands_of_reaches {s : Suite} {features : List Feature} {Q : Progress → α → Prop} {workers : Nat}
    {p : Threaded α} {q : SuiteRoutine α} {h : List Event} {st : Threads α}
    (hp : Abides s features Q ⟨0, 0, 0⟩ p) (hm : Mirrors Stops p q) (hr : Reaches workers p h st) :
    ∃ q', Stands st q' ∧ Comes q (moments h) q' := by
  induction hr with
  | start => exact ⟨q, .out (List.forall_mem_nil _) hm, Comes.refl q⟩
  | @step h e st st' hr hs ih =>
    obtain ⟨q', hstands, hcomes⟩ := ih
    obtain ⟨g, _, hk⟩ := kept_of_reaches hp hr
    obtain ⟨q'', hstands', hcomes'⟩ := hstands.step (hk.entered ▸ hk.barred.once) hs
    have hmoments : moments (h ++ [e]) = moments h ++ e.moment?.toList := by
      rw [moments, List.filterMap_append]
      cases he : e.moment? <;> simp [moments, he]
    exact ⟨q'', hstands', hmoments ▸ hcomes.trans hcomes'⟩

section Suite
variable {s : Suite} {k : Nat} {f : Feature} {l : List FeatureResult}

theorem mirrors_of_asks {S : Threaded α → SuiteRoutine α → Prop} {P : α → Prop} {p : SuiteRoutine α}
    (hp : Program.Asks SuiteRequest.unpooled.asks (fun _ => False) SuiteRequest.unpooled.answers P p) :
    Mirrors S (p.inThreads k) p := by
  induction hp with
  | done _ => exact .done _
  | stop hr => exact hr.elim
  | @ask r next hr _ ih =>
    cases r with
    | single r => exact .single fun x => ih x trivial
    | pool jobs => exact hr.elim
    | stall => exact hr.elim

/-- At the first fault of a pool an action is over, or stalls. -/
def Fails (p : Threaded (Except Fault α × List FeatureResult))
    (q : SuiteRoutine (Except Fault α × List FeatureResult)) : Prop :=
  (∃ e l, p = .done (.error e, l) ∧ q = .done (.error e, l)) ∨ BothStall p q

/-- What the leading thread does for an action is what the suite does. -/
def Doubles (k : Nat) (x : Suite.Action α) : Prop :=
  ∀ l, Mirrors Fails ((x.run.run l).inThreads k) (x.run.run l)

theorem doubles_of_confined {x : Suite.Action α} (hx : Confined SuiteRequest.unpooled x) : Doubles k x :=
  fun l => mirrors_of_asks (hx l)

theorem doubles_bind {x : Suite.Action α} {g : α → Suite.Action β} (hx : Doubles k x)
    (hg : ∀ a, Doubles k (g a)) : Doubles k (x >>= g) := by
  intro l
  rw [Suite.run_bind, Program.inThreads_bind]
  refine (hx l).bind (fun r => ?_) ?_
  · obtain ⟨o, l'⟩ := r
    cases o with
    | ok a => exact hg a l'
    | error e => exact .done _
  · rintro p q (⟨e, l', rfl, rfl⟩ | ⟨rest, next, rfl, rfl⟩)
    · exact .inl ⟨e, l', rfl, rfl⟩
    · exact .inr ⟨_, _, rfl, rfl⟩

theorem mapM_id_error (rs : List ScenarioResult) (e : Fault) (ends : List (Except Fault ScenarioResult)) :
    (rs.map Except.ok ++ Except.error e :: ends).mapM id = .error e :=
  mapM_eq_error_iff.2 ⟨_, _, _, rfl, List.forall_mem_map.2 fun r _ => ⟨r, rfl⟩, rfl⟩

theorem doubles_runInPool : Doubles k (s.runInPool f) := by
  intro l
  rw [Suite.run_runInPool]
  refine .pool (fun rs => ?_) fun rs e ends => ?_
  · have hall : (rs.map Except.ok).mapM id = (.ok rs : Except Fault (List ScenarioResult)) :=
      mapM_eq_ok_iff.2 (List.forall₂_map_left_iff.2 (List.forall₂_same.2 fun _ _ => rfl))
    change Mirrors Fails
      (((Suite.Action.collect ((rs.map Except.ok).mapM id)).run.run l).inThreads k)
      ((Suite.Action.collect ((rs.map Except.ok).mapM id)).run.run l)
    rw [hall]
    exact .done _
  · change Fails
      (((Suite.Action.collect ((rs.map Except.ok ++ [Except.error e]).mapM id)).run.run l).inThreads k)
      ((Suite.Action.collect ((rs.map Except.ok ++ Except.error e :: ends).mapM id)).run.run l)
    rw [mapM_id_error rs e [], mapM_id_error rs e ends, Suite.Action.collect]
    split
    · exact .inr ⟨_, _, rfl, rfl⟩
    · exact .inl ⟨e, l, rfl, rfl⟩

theorem doubles_runFeature (hw : 1 < s.workers) : Doubles k (s.runFeature f) := by
  have hscenarios : ∀ hooks, Doubles k
      (if Suite.allWell hooks then s.runScenarios f else s.skipScenarios f f.numbered) := by
    intro hooks
    split
    · rw [Suite.runScenarios, if_pos hw]
      exact doubles_runInPool
    · exact doubles_of_confined (Suite.confined_skipScenarios SuiteRequest.framing_unpooled)
  rw [Suite.runFeature_eq]
  refine doubles_bind ?_ fun hooks => doubles_bind (hscenarios hooks) fun scenarios => ?_
  · exact doubles_of_confined (Suite.confined_runHooks SuiteRequest.framing_unpooled trivial fun _ _ => trivial)
  · exact doubles_of_confined
      (Suite.confined_afterFeature SuiteRequest.framing_unpooled scenarios hooks (fun _ => trivial) fun _ => trivial)

theorem doubles_turn (hw : 1 < s.workers) (ready : Bool) : Doubles k (s.runFeatures ready [f]) := by
  have haborted : Confined SuiteRequest.unpooled (if ready then Suite.Action.aborted else pure true) := by
    split
    · exact Suite.confined_perform trivial
    · exact confined_pure _
  rw [Suite.runFeatures_cons]
  refine doubles_bind (doubles_of_confined haborted) fun skipped => doubles_bind ?_ fun _ => ?_
  · split
    · exact doubles_of_confined (Suite.confined_skipFeature SuiteRequest.framing_unpooled)
    · exact doubles_runFeature hw
  · exact doubles_of_confined (confined_bind (confined_modify _) fun _ => confined_pure _)

theorem mirrors_loopInThreads (hw : 1 < s.workers) (ready : Bool) (fs : List Feature) :
    Mirrors Fails (s.loopInThreads ready k fs l) ((s.runFeatures ready fs).run.run l) := by
  induction fs generalizing k l with
  | nil => exact .done _
  | cons f fs ih =>
    have hcons : s.runFeatures ready (f :: fs) =
        s.runFeatures ready [f] >>= fun _ => s.runFeatures ready fs := by
      rw [Suite.runFeatures_cons, Suite.runFeatures_cons]
      simp only [bind_assoc]
      rfl
    rw [hcons, Suite.run_bind, Suite.loopInThreads]
    refine (doubles_turn hw ready l).bind (fun r => ?_) ?_
    · obtain ⟨o, l'⟩ := r
      cases o with
      | ok _ => exact ih
      | error e => exact .done _
    · rintro p q (⟨e, l', rfl, rfl⟩ | ⟨rest, next, rfl, rfl⟩)
      · exact .inl ⟨e, l', rfl, rfl⟩
      · exact .inr ⟨_, _, rfl, rfl⟩

theorem run_eq_parts (s : Suite) (features : List Feature) :
    s.run features = (s.opening features).run.run [] >>= fun r =>
      match r.1 with
      | .error e => .done (.error e)
      | .ok hooks =>
        (s.runFeatures (Suite.allWell hooks) features).run.run r.2 >>= fun r =>
          (s.closing features hooks r.1).run.run r.2 >>= fun r => .done r.1 := by
  rw [Suite.run, Suite.runAll_eq_parts, Suite.run_bind, Program.bind_assoc]
  refine congrArg _ (funext fun r => ?_)
  obtain ⟨o, l⟩ := r
  cases o with
  | error e => rfl
  | ok hooks =>
    have hobserve : (Suite.Action.observe (s.runFeatures (Suite.allWell hooks) features)).run.run l =
        (s.runFeatures (Suite.allWell hooks) features).run.run l >>= fun r => .done (.ok r.1, r.2) := rfl
    dsimp only
    rw [Suite.run_bind, hobserve, Program.bind_assoc, Program.bind_assoc]
    rfl

theorem mirrors_inThreads (hw : 1 < s.workers) (features : List Feature) :
    Mirrors Stops (s.inThreads features) (s.run features) := by
  rw [run_eq_parts, Suite.inThreads]
  have hopening : Mirrors (fun _ _ => False) (((s.opening features).run.run []).inThreads 0)
      ((s.opening features).run.run []) :=
    mirrors_of_asks (Suite.confined_opening SuiteRequest.framing_unpooled trivial trivial (fun _ => trivial) [])
  have hclosing : ∀ hooks outcome l, Mirrors (fun _ _ => False)
      (((s.closing features hooks outcome).run.run l).inThreads features.length >>= fun r => .done r.1)
      ((s.closing features hooks outcome).run.run l >>= fun r => .done r.1) := by
    intro hooks outcome l
    have hrun : Mirrors (fun _ _ => False)
        (((s.closing features hooks outcome).run.run l).inThreads features.length)
        ((s.closing features hooks outcome).run.run l) :=
      mirrors_of_asks (Suite.confined_closing SuiteRequest.framing_unpooled (fun _ => trivial) (fun _ => trivial) trivial
        (fun _ => trivial) l)
    exact hrun.bind (fun r => .done r.1) fun _ _ => False.elim
  refine hopening.bind (fun r => ?_) fun _ _ => False.elim
  obtain ⟨o, l⟩ := r
  cases o with
  | error e => exact .done _
  | ok hooks =>
    have hshut : s.shutDown = .ask .shutDown fun _ => .done () := if_pos hw
    refine (mirrors_loopInThreads hw _ features).bind (fun r => ?_) ?_
    · rw [hshut]
      exact .shutDown ((hclosing hooks r.1 r.2).imp fun _ _ => False.elim)
    · rintro p q (⟨e, l', rfl, rfl⟩ | ⟨rest, next, rfl, rfl⟩)
      swap
      · exact .inr ⟨_, _, rfl, rfl⟩
      refine .inl ⟨fun _ => ((s.closing features hooks (.error e)).run.run l').inThreads features.length >>= fun r =>
        .done r.1, ?_, hclosing hooks (.error e) l'⟩
      rw [Program.done_bind, hshut]
      rfl

/-- What threads come to, and what is seen on the way, the suite comes to and shows. -/
theorem shows_of_reaches (hw : 1 < s.workers) {features : List Feature} {h : List Event}
    {o : Except Fault SuiteResult} {tasks : List (Ticket × Task)}
    (hr : Reaches s.workers (s.inThreads features) h ⟨.done o, tasks⟩) :
    (s.run features).Shows (moments h) o := by
  obtain ⟨q, hstands, hcomes⟩ :=
    stands_of_reaches (abides_inThreads hw features) (mirrors_inThreads hw features) hr
  have hshows := hcomes.shows [] o hstands.shows
  rwa [List.append_nil] at hshows

/-- Where the leading thread waits without end and the workers are done, the suite stalls. -/
theorem stalls_of_reaches (hw : 1 < s.workers) {features : List Feature} {h : List Event}
    {rest : ThreadRequest.stall.Answer → Threaded (Except Fault SuiteResult)}
    {tasks : List (Ticket × Task)} (hended : ∀ t ∈ tasks, t.2.isEnded = true)
    (hr : Reaches s.workers (s.inThreads features) h ⟨.ask .stall rest, tasks⟩) :
    (s.run features).Stalls (moments h) := by
  obtain ⟨q, hstands, hcomes⟩ :=
    stands_of_reaches (abides_inThreads hw features) (mirrors_inThreads hw features) hr
  have hstalls := hcomes.stalls [] (hstands.stalls hended)
  rwa [List.append_nil] at hstalls

end Suite
end Threads
end Rehearsal
