import Rehearsal.Proofs.Json
import Rehearsal.Report.Sink

/-! Sinks that write to a file, call after call. As long as nothing refuses to be written, what a sink has
written and what it still collects are the records that it is to keep, in the order in which they came. -/

namespace Rehearsal
set_option autoImplicit false

/-- What a sink is asked for. -/
inductive SinkCall where
  | emit (r : Record)
  | flush
  | close

namespace SinkCall

/-- The records that are given to a sink. -/
def given : List SinkCall → List Record
  | [] => []
  | .emit r :: calls => r :: given calls
  | .flush :: calls => given calls
  | .close :: calls => given calls

/-- The records that a sink is to keep: all that it is given, or all but the events of stages. -/
def due (stages : Bool) (calls : List SinkCall) : List Record :=
  if stages then given calls else (given calls).filter fun r => !r.isStage

/-- Nothing but a close comes after a close. -/
def ClosedLast (calls : List SinkCall) : Prop := calls.Pairwise fun a b => a = .close → b = .close

variable {stages : Bool} {calls calls' : List SinkCall} {c : SinkCall} {r : Record}

theorem given_append : given (calls ++ calls') = given calls ++ given calls' := by
  induction calls with
  | nil => rfl
  | cons c calls ih => cases c <;> simp [given, ih]

theorem due_eq_filter : due stages calls = (given calls).filter (·.accepted stages) := by
  cases stages <;> simp [due, Record.accepted]

theorem due_append : due stages (calls ++ calls') = due stages calls ++ due stages calls' := by
  simp only [due_eq_filter, given_append, List.filter_append]

theorem due_subset_append : due stages calls ⊆ due stages (calls ++ calls') := by
  rw [due_append]
  exact List.subset_append_left _ _

theorem due_emit (h : r.accepted stages = true) : due stages [.emit r] = [r] := by
  simp [due_eq_filter, given, h]

theorem due_emit_of_not (h : r.accepted stages = false) : due stages [.emit r] = [] := by
  simp [due_eq_filter, given, h]

theorem due_flush : due stages [.flush] = [] := by simp [due_eq_filter, given]

theorem due_close : due stages [.close] = [] := by simp [due_eq_filter, given]

theorem ClosedLast.left (h : ClosedLast (calls ++ calls')) : ClosedLast calls := (List.pairwise_append.1 h).1

theorem ClosedLast.eq_close (h : ClosedLast (calls ++ [c])) (hclose : .close ∈ calls) : c = .close :=
  (List.pairwise_append.1 h).2.2 _ hclose c List.mem_cons_self rfl

end SinkCall

namespace FileSink
open SinkCall Text

def call (s : FileSink) : SinkCall → FileSink × Option Fault
  | .emit r => s.emit r
  | .flush => s.flush
  | .close => s.close

/-- What calls leave, whether they fail or not. -/
def after (s : FileSink) (calls : List SinkCall) : FileSink := calls.foldl (fun s c => (s.call c).1) s

theorem after_concat (s : FileSink) (calls : List SinkCall) (c : SinkCall) :
    s.after (calls ++ [c]) = ((s.after calls).call c).1 := by
  simp [after]

variable {o : FileOptions} {s t u : FileSink} {lines lines' : List String} {records : List Record} {r : Record}

/-- How writing lines changes a sink. What it holds back grows by these lines at most. -/
structure Wrote (lines : List String) (s t : FileSink) : Prop where
  options : t.options = s.options
  taken : t.taken = s.taken
  buffer : t.buffer = s.buffer
  closed : t.closed = s.closed
  written : t.written = s.written ++ lines
  unflushed : t.unflushed.length ≤ s.unflushed.length + lines.length

theorem Wrote.refl (s : FileSink) : Wrote [] s s := ⟨rfl, rfl, rfl, rfl, by simp, by simp⟩

theorem Wrote.trans (h : Wrote lines s t) (h' : Wrote lines' t u) : Wrote (lines ++ lines') s u where
  options := h'.options.trans h.options
  taken := h'.taken.trans h.taken
  buffer := h'.buffer.trans h.buffer
  closed := h'.closed.trans h.closed
  written := by rw [h'.written, h.written, List.append_assoc]
  unflushed := by
    have hs := h.unflushed
    have ht := h'.unflushed
    rw [List.length_append]
    omega

theorem wrote_spill (s : FileSink) : Wrote [] s s.spill :=
  ⟨rfl, rfl, rfl, rfl, by simp, by simp [spill]⟩

theorem wrote_hold (s : FileSink) (line : String) : Wrote [line] s (s.hold line) := by
  have hadd : ∀ t : FileSink, Wrote [line] t { t with unflushed := t.unflushed ++ [line] } :=
    fun t => ⟨rfl, rfl, rfl, rfl, by simp [written], by simp⟩
  rw [hold]
  -- There is room for the line, or room is made for it.
  generalize hroom : (if s.options.held < lineBytes (s.unflushed ++ [line]) then s.spill else s) = t
  have ht : Wrote [] s t := by
    rw [← hroom]
    split
    · exact wrote_spill s
    · exact .refl s
  dsimp only
  split
  · exact (ht.trans (hadd t)).trans (wrote_spill _)
  · exact ht.trans (hadd t)

theorem exists_of_writeLines (hopen : s.closed = false) (h : ∀ line ∈ lines, s.options.refuses line = false) :
    ∃ t, s.writeLines lines = (t, none) ∧ Wrote lines s t := by
  induction lines generalizing s with
  | nil => exact ⟨s, rfl, .refl s⟩
  | cons line lines ih =>
    obtain ⟨hline, hlines⟩ := List.forall_mem_cons.1 h
    have hheld := wrote_hold s line
    obtain ⟨t, ht, hwrote⟩ := ih (hheld.closed.trans hopen) (hheld.options ▸ hlines)
    refine ⟨t, ?_, hheld.trans hwrote⟩
    rw [writeLines, if_neg (by simp [hopen]), if_neg (by simp [hline]), ht]

theorem exists_of_writeBuffer (hopen : s.closed = false)
    (h : ∀ line ∈ s.buffer, s.options.refuses line = false) :
    ∃ t, s.writeBuffer = ({ t with buffer := [] }, none) ∧ Wrote s.buffer s t := by
  obtain ⟨t, ht, hwrote⟩ := exists_of_writeLines hopen h
  refine ⟨t, ?_, hwrote⟩
  rw [writeBuffer, ht]

theorem flushHandle_of_open (hopen : s.closed = false) : s.flushHandle = (s.spill, none) := by
  rw [flushHandle, if_neg (by simp [hopen])]

theorem exists_of_sync (hopen : s.closed = false) : ∃ t, s.sync = (t, none) ∧ Wrote [] s t := by
  rw [sync]
  split
  · split
    · rw [flushHandle_of_open hopen]
      -- Being forced to disk is counted only.
      exact ⟨_, rfl, ⟨rfl, rfl, rfl, rfl, by simp [written, spill], by simp [spill]⟩⟩
    · exact ⟨s, rfl, .refl s⟩
  · exact ⟨s, rfl, .refl s⟩

/-- What a sink has written and what it collects are the records that it took. -/
structure Holds (o : FileOptions) (records : List Record) (s : FileSink) : Prop where
  options : s.options = o
  taken : s.taken = records.length
  lines : s.written ++ s.buffer = records.map Record.line

theorem Holds.wrote (h : Holds o records s) (hwrote : Wrote [] s t) : Holds o records t where
  options := hwrote.options.trans h.options
  taken := hwrote.taken.trans h.taken
  lines := by rw [hwrote.written, hwrote.buffer, List.append_nil, h.lines]

theorem Holds.wrote_line (h : Holds o records s) (hbuffer : s.buffer = [])
    (hwrote : Wrote [r.line] { s with taken := s.taken + 1 } t) : Holds o (records ++ [r]) t where
  options := hwrote.options.trans h.options
  taken := by simp [hwrote.taken, h.taken]
  lines := by
    have hwritten : t.written = s.written ++ [r.line] := hwrote.written
    have htbuffer : t.buffer = [] := hwrote.buffer.trans hbuffer
    simp [hwritten, htbuffer, ← h.lines, hbuffer]

theorem Holds.not_refused_of_buffer (h : Holds o records s)
    (hwrites : ∀ r ∈ records, o.refuses r.line = false) : ∀ line ∈ s.buffer, s.options.refuses line = false := by
  intro line hline
  have hin : line ∈ s.written ++ s.buffer := List.mem_append_right _ hline
  rw [h.lines] at hin
  obtain ⟨r, hr, rfl⟩ := List.mem_map.1 hin
  exact h.options ▸ hwrites r hr

theorem Holds.writeBuffer (h : Holds o records s) (hopen : s.closed = false)
    (hwrites : ∀ r ∈ records, o.refuses r.line = false) :
    ∃ t, s.writeBuffer = (t, none) ∧ t.closed = false ∧ Holds o records t ∧ t.buffer = [] := by
  obtain ⟨t, ht, hwrote⟩ := exists_of_writeBuffer hopen (h.not_refused_of_buffer hwrites)
  refine ⟨_, ht, hwrote.closed.trans hopen, ⟨hwrote.options.trans h.options, hwrote.taken.trans h.taken, ?_⟩,
    rfl⟩
  have hlines : t.written = records.map Record.line := hwrote.written.trans h.lines
  exact (List.append_nil _).trans hlines

/-- The batch of such a sink is not full. Otherwise it collects nothing, and behind the last flush there
are no more lines than records behind the last that was due to be flushed. -/
structure Keeps (o : FileOptions) (records : List Record) (s : FileSink) : Prop extends Holds o records s where
  batch : o.batch = true → s.buffer.length < o.every
  direct : o.batch = false → s.buffer = [] ∧ s.unflushed.length ≤ records.length % o.every

theorem Holds.keeps_of_clear (h : Holds o records s) (hevery : 1 ≤ o.every) (hbuffer : s.buffer = [])
    (hunflushed : s.unflushed = []) : Keeps o records s where
  toHolds := h
  batch _ := by rw [hbuffer]; exact hevery
  direct _ := ⟨hbuffer, by rw [hunflushed]; exact Nat.zero_le _⟩

theorem keeps_start (hevery : 1 ≤ o.every) : Keeps o [] (start o) :=
  Holds.keeps_of_clear ⟨rfl, rfl, rfl⟩ hevery rfl rfl

theorem Keeps.wrote (h : Keeps o records s) (hwrote : Wrote [] s t) : Keeps o records t where
  toHolds := h.toHolds.wrote hwrote
  batch hbatch := hwrote.buffer ▸ h.batch hbatch
  direct hdirect := by
    obtain ⟨hbuffer, hunflushed⟩ := h.direct hdirect
    exact ⟨hwrote.buffer.trans hbuffer, hwrote.unflushed.trans hunflushed⟩

theorem Keeps.collect (h : Keeps o records s) (hevery : 1 ≤ o.every) (hopen : s.closed = false)
    (hbatch : o.batch = true) (hwrites : ∀ r' ∈ records ++ [r], o.refuses r'.line = false) :
    ∃ t, { s with taken := s.taken + 1 }.collect r.line = (t, none) ∧ t.closed = false ∧
      Keeps o (records ++ [r]) t ∧ t.buffer.length = (s.buffer.length + 1) % o.every := by
  have hdirect : o.batch ≠ false := by simp [hbatch]
  let full := { s with taken := s.taken + 1, buffer := s.buffer ++ [r.line] }
  have hsize : full.buffer.length = s.buffer.length + 1 := List.length_append
  have hfull : Holds o (records ++ [r]) full :=
    ⟨h.options, by simp [full, h.taken], by simp [full, ← h.lines, written]⟩
  rw [FileSink.collect]
  dsimp only
  split
  · rename_i hmany
    rw [h.options] at hmany
    obtain ⟨t, ht, htopen, hholds, hbuffer⟩ := hfull.writeBuffer hopen hwrites
    have hexact : s.buffer.length + 1 = o.every :=
      Nat.le_antisymm (h.batch hbatch) (hmany.trans_eq hsize)
    refine ⟨t, ht, htopen, ⟨hholds, fun _ => ?_, fun hno => absurd hno hdirect⟩, ?_⟩
    · rw [hbuffer]
      exact hevery
    · rw [hbuffer, hexact, Nat.mod_self, List.length_nil]
  · rename_i hroom
    rw [h.options, Nat.not_le] at hroom
    refine ⟨full, rfl, hopen, ⟨hfull, fun _ => hroom, fun hno => absurd hno hdirect⟩, ?_⟩
    rw [hsize, Nat.mod_eq_of_lt (hsize.symm.trans_lt hroom)]

theorem mod_lt_succ_mod {n k : Nat} (hk : 0 < k) (h : (n + 1) % k ≠ 0) : n % k < (n + 1) % k := by
  have hsucc : (n + 1) % k = (n % k + 1) % k := (Nat.mod_add_mod n k 1).symm
  rw [hsucc] at h ⊢
  rcases Nat.lt_or_eq_of_le (Nat.mod_lt n hk) with hlt | heq
  · rw [Nat.mod_eq_of_lt hlt]
    exact Nat.lt_succ_self _
  · rw [← Nat.succ_eq_add_one, heq, Nat.mod_self] at h
    exact absurd rfl h

theorem Keeps.pass (h : Keeps o records s) (hevery : 1 ≤ o.every) (hopen : s.closed = false)
    (hdirect : o.batch = false) (hwrites : o.refuses r.line = false) :
    ∃ t, { s with taken := s.taken + 1 }.pass r.line = (t, none) ∧ t.closed = false ∧
      Keeps o (records ++ [r]) t := by
  have hbatch : o.batch ≠ true := by simp [hdirect]
  obtain ⟨hbuffer, hunflushed⟩ := h.direct hdirect
  have hline : ∀ line ∈ [r.line], s.options.refuses line = false := by
    rw [h.options]
    simpa using hwrites
  obtain ⟨t, ht, hwrote⟩ := exists_of_writeLines (s := { s with taken := s.taken + 1 }) hopen hline
  have htbuffer : t.buffer = [] := hwrote.buffer.trans hbuffer
  have htopen : t.closed = false := hwrote.closed.trans hopen
  have hholds : Holds o (records ++ [r]) t := h.wrote_line hbuffer hwrote
  rw [FileSink.pass, ht, andThen, hholds.options, hholds.taken]
  split
  · rw [flushHandle_of_open htopen]
    exact ⟨t.spill, rfl, htopen, hholds.wrote (wrote_spill t), fun hno => absurd hno hbatch,
      fun _ => ⟨htbuffer, Nat.zero_le _⟩⟩
  · rename_i hrest
    rw [beq_iff_eq] at hrest
    refine ⟨t, rfl, htopen, hholds, fun hno => absurd hno hbatch, fun _ => ⟨htbuffer, ?_⟩⟩
    have hmore : t.unflushed.length ≤ s.unflushed.length + 1 := hwrote.unflushed
    rw [List.length_append, List.length_singleton] at hrest ⊢
    have hmod := mod_lt_succ_mod hevery hrest
    omega

/-- Takes a record in, before it is seen whether the disk has its turn. -/
def store (s : FileSink) (r : Record) : FileSink × Option Fault :=
  if s.options.batch then { s with taken := s.taken + 1 }.collect r.line
  else { s with taken := s.taken + 1 }.pass r.line

theorem emit_of_accepted (h : r.accepted s.options.stages = true) :
    s.emit r = andThen (s.store r) sync := by
  rw [emit, if_pos h]
  rfl

/-- Once a record has been taken in, or has failed to, the rest of the call cannot fail. -/
theorem exists_of_emit (h : r.accepted s.options.stages = true) (hopen : (s.store r).1.closed = false) :
    ∃ t, s.emit r = (t, (s.store r).2) ∧ Wrote [] (s.store r).1 t := by
  rw [emit_of_accepted h]
  generalize s.store r = out at hopen
  obtain ⟨t, _ | fault⟩ := out
  · exact exists_of_sync hopen
  · exact ⟨t, rfl, .refl t⟩

theorem Keeps.store (h : Keeps o records s) (hevery : 1 ≤ o.every) (hopen : s.closed = false)
    (hwrites : ∀ r' ∈ records ++ [r], o.refuses r'.line = false) :
    ∃ t, s.store r = (t, none) ∧ t.closed = false ∧ Keeps o (records ++ [r]) t ∧
      (o.batch = true → t.buffer.length = (s.buffer.length + 1) % o.every) := by
  have hwrite : o.refuses r.line = false := hwrites r (List.mem_append_right _ List.mem_cons_self)
  cases hbatch : o.batch with
  | true =>
    rw [FileSink.store, if_pos (h.options ▸ hbatch)]
    obtain ⟨t, ht, htopen, hkeeps, hsize⟩ := h.collect hevery hopen hbatch hwrites
    exact ⟨t, ht, htopen, hkeeps, fun _ => hsize⟩
  | false =>
    have hdirect : ¬s.options.batch = true := by simp [h.options, hbatch]
    rw [FileSink.store, if_neg hdirect]
    obtain ⟨t, ht, htopen, hkeeps⟩ := h.pass hevery hopen hbatch hwrite
    exact ⟨t, ht, htopen, hkeeps, nofun⟩

theorem Keeps.emit (h : Keeps o records s) (hevery : 1 ≤ o.every) (hopen : s.closed = false)
    (hr : r.accepted o.stages = true) (hwrites : ∀ r' ∈ records ++ [r], o.refuses r'.line = false) :
    ∃ t, s.emit r = (t, none) ∧ t.closed = false ∧ Keeps o (records ++ [r]) t ∧
      (o.batch = true → t.buffer.length = (s.buffer.length + 1) % o.every) := by
  obtain ⟨t, ht, htopen, hkeeps, hsize⟩ := h.store hevery hopen hwrites
  obtain ⟨u, hu, hwrote⟩ := exists_of_emit (h.options ▸ hr) (ht ▸ htopen)
  rw [ht] at hu hwrote
  exact ⟨u, hu, hwrote.closed.trans htopen, hkeeps.wrote hwrote, hwrote.buffer ▸ hsize⟩

theorem emit_of_not_accepted (h : r.accepted s.options.stages = false) : s.emit r = (s, none) := by
  rw [emit, if_neg (by simp [h])]

theorem Holds.flush (h : Holds o records s) (hopen : s.closed = false)
    (hwrites : ∀ r ∈ records, o.refuses r.line = false) :
    ∃ t, s.flush = (t, none) ∧ t.closed = false ∧ Holds o records t ∧ t.buffer = [] ∧ t.unflushed = [] := by
  have hwritten : ∃ t, (if s.buffer.isEmpty then (s, none) else s.writeBuffer) = (t, none) ∧
      t.closed = false ∧ Holds o records t ∧ t.buffer = [] := by
    split
    · rename_i hempty
      exact ⟨s, rfl, hopen, h, List.isEmpty_iff.1 hempty⟩
    · exact h.writeBuffer hopen hwrites
  obtain ⟨t, ht, htopen, hholds, hbuffer⟩ := hwritten
  refine ⟨t.spill, ?_, htopen, hholds.wrote (wrote_spill t), hbuffer, rfl⟩
  rw [FileSink.flush, ht, andThen]
  exact flushHandle_of_open htopen

/-- What calls leave of a sink that was new. One that is closed has nothing left to write. -/
structure Faithful (o : FileOptions) (calls : List SinkCall) (s : FileSink) : Prop where
  keeps : Keeps o (due o.stages calls) s
  closed : s.closed = true → .close ∈ calls
  clear : s.closed = true → s.buffer = [] ∧ s.unflushed = []

variable {calls : List SinkCall} {c : SinkCall}

theorem Keeps.faithful (h : Keeps o (due o.stages calls) s) (hopen : s.closed = false) : Faithful o calls s where
  keeps := h
  closed hclosed := by simp [hopen] at hclosed
  clear hclosed := by simp [hopen] at hclosed

theorem Faithful.open_of_ne (h : Faithful o calls s) (hlast : ClosedLast (calls ++ [c])) (hc : c ≠ .close) :
    s.closed = false := by
  rw [Bool.eq_false_iff]
  exact fun hclosed => hc (hlast.eq_close (h.closed hclosed))

theorem Faithful.close (h : Faithful o calls s) (hevery : 1 ≤ o.every)
    (hwrites : ∀ r ∈ due o.stages calls, o.refuses r.line = false) :
    ∃ t, s.close = (t, none) ∧ Faithful o (calls ++ [.close]) t ∧ t.buffer = [] ∧ t.unflushed = [] := by
  have hin : SinkCall.close ∈ calls ++ [.close] := List.mem_append_right _ List.mem_cons_self
  have hdue : due o.stages (calls ++ [.close]) = due o.stages calls := by
    rw [due_append, due_close, List.append_nil]
  rw [FileSink.close]
  split
  · rename_i hclosed
    have hclear := h.clear hclosed
    exact ⟨s, rfl, ⟨hdue ▸ h.keeps, fun _ => hin, fun _ => hclear⟩, hclear⟩
  · rename_i hopen
    obtain ⟨t, ht, -, hholds, hbuffer, hunflushed⟩ :=
      h.keeps.flush (Bool.eq_false_iff.2 hopen) hwrites
    have hends : Holds o (due o.stages calls) { t with closed := true } :=
      ⟨hholds.options, hholds.taken, hholds.lines⟩
    have hkeeps := hends.keeps_of_clear hevery hbuffer hunflushed
    rw [ht, andThen]
    exact ⟨_, rfl, ⟨hdue ▸ hkeeps, fun _ => hin, fun _ => ⟨hbuffer, hunflushed⟩⟩, hbuffer, hunflushed⟩

/-- A call does what it is to do, and nothing is left to write after one that asks for it. -/
theorem Faithful.call (h : Faithful o calls s) (hevery : 1 ≤ o.every) (hlast : ClosedLast (calls ++ [c]))
    (hwrites : ∀ r ∈ due o.stages (calls ++ [c]), o.refuses r.line = false) :
    ∃ t, s.call c = (t, none) ∧ Faithful o (calls ++ [c]) t ∧
      (c = .flush ∨ c = .close → t.buffer = [] ∧ t.unflushed = []) := by
  rw [due_append] at hwrites
  cases c with
  | emit r =>
    have hopen := h.open_of_ne hlast nofun
    cases hr : r.accepted o.stages with
    | true =>
      rw [due_emit hr] at hwrites
      obtain ⟨t, ht, htopen, hkeeps, -⟩ := h.keeps.emit hevery hopen hr hwrites
      rw [← due_emit hr, ← due_append] at hkeeps
      exact ⟨t, ht, hkeeps.faithful htopen, by simp⟩
    | false =>
      have hkeeps := h.keeps
      rw [← List.append_nil (due o.stages calls), ← due_emit_of_not hr, ← due_append] at hkeeps
      refine ⟨s, emit_of_not_accepted ?_, hkeeps.faithful hopen, by simp⟩
      rwa [h.keeps.options]
  | flush =>
    have hopen := h.open_of_ne hlast nofun
    rw [due_flush, List.append_nil] at hwrites
    obtain ⟨t, ht, htopen, hholds, hbuffer, hunflushed⟩ := h.keeps.flush hopen hwrites
    have hkeeps := hholds.keeps_of_clear hevery hbuffer hunflushed
    rw [← List.append_nil (due o.stages calls), ← due_flush, ← due_append] at hkeeps
    exact ⟨t, ht, hkeeps.faithful htopen, fun _ => ⟨hbuffer, hunflushed⟩⟩
  | close =>
    rw [due_close, List.append_nil] at hwrites
    obtain ⟨t, ht, hfaithful, hclear⟩ := h.close hevery hwrites
    exact ⟨t, ht, hfaithful, fun _ => hclear⟩

theorem faithful_after (hevery : 1 ≤ o.every) (hlast : ClosedLast calls)
    (hwrites : ∀ r ∈ due o.stages calls, o.refuses r.line = false) : Faithful o calls ((start o).after calls) := by
  induction calls using List.reverseRecOn with
  | nil =>
    have hnone : due o.stages [] = [] := by rw [due_eq_filter, given, List.filter_nil]
    have hkeeps : Keeps o (due o.stages []) (start o) := hnone ▸ keeps_start hevery
    exact hkeeps.faithful rfl
  | append_singleton calls c ih =>
    have hbefore : ∀ r ∈ due o.stages calls, o.refuses r.line = false :=
      fun r hr => hwrites r (due_subset_append hr)
    obtain ⟨t, ht, hfaithful, -⟩ := (ih hlast.left hbefore).call hevery hlast hwrites
    rwa [after_concat, ht]

/-- After every call, what the sink has written and what it collects are the lines of the records that it
is to keep, whatever the file takes over unasked. -/
theorem loses_and_repeats_nothing (hevery : 1 ≤ o.every) (hlast : ClosedLast calls)
    (hwrites : ∀ r ∈ due o.stages calls, o.refuses r.line = false) {done : List SinkCall}
    (hdone : done ++ [c] <+: calls) :
    ∃ s, ((start o).after done).call c = (s, none) ∧ (start o).after (done ++ [c]) = s ∧
      s.written ++ s.buffer = (due o.stages (done ++ [c])).map Record.line ∧
      (∀ line ∈ s.written ++ s.buffer, Unbroken line.toList) ∧
      (o.batch = true → s.buffer.length < o.every) ∧
      (o.batch = false → s.buffer = [] ∧ s.unflushed.length < o.every) ∧
      (c = .flush ∨ c = .close → s.buffer = [] ∧ s.unflushed = []) := by
  obtain ⟨rest, rfl⟩ := hdone
  have hcalled : ∀ r ∈ due o.stages (done ++ [c]), o.refuses r.line = false :=
    fun r hr => hwrites r (due_subset_append hr)
  have hbefore := faithful_after hevery hlast.left.left fun r hr => hcalled r (due_subset_append hr)
  obtain ⟨s, hs, hfaithful, hclear⟩ := hbefore.call hevery hlast.left hcalled
  have hkeeps := hfaithful.keeps
  refine ⟨s, hs, by rw [after_concat, hs], hkeeps.lines, ?_, hkeeps.batch, ?_, hclear⟩
  · rw [hkeeps.lines, List.forall_mem_map]
    exact fun r _ => Json.unbroken_line (Report.ofRecord r)
  · intro hdirect
    obtain ⟨hbuffer, hunflushed⟩ := hkeeps.direct hdirect
    exact ⟨hbuffer, hunflushed.trans_lt (Nat.mod_lt _ hevery)⟩

/-- A batch of two records is left early by a flush, and the event of a stage does not count. -/
theorem loses_and_repeats_nothing_sample :
    let o := FileOptions.make "batch" 2 (some 2) false
    let step (index : Int) : Record := .step ⟨"booking", index, "I pay", .passed, .null, none, false, none, .null⟩
    let first : List SinkCall := [.emit (.stage ⟨"booking", .runningStep, some 0, none⟩), .emit (step 0)]
    let next : List SinkCall := [.emit (step 1), .close]
    let calls := first ++ [.flush] ++ next ++ [.close]
    1 ≤ o.every ∧ ClosedLast calls ∧ (∀ r ∈ due o.stages calls, o.refuses r.line = false) ∧
      ((start o).after (first ++ [.flush])).written = [(step 0).line] ∧
      ((start o).after calls).written = [(step 0).line, (step 1).line] := by
  intro o step first next calls
  have hevery : 1 ≤ o.every := by decide
  have hlast : ClosedLast calls := by simp [ClosedLast, calls, first, next]
  have hwrites : ∀ r ∈ due o.stages calls, o.refuses r.line = false := fun _ _ => rfl
  have hflush : first ++ [.flush] <+: calls := ⟨next ++ [.close], by simp [calls]⟩
  have hclose : first ++ [.flush] ++ next ++ [.close] <+: calls := List.prefix_rfl
  obtain ⟨s, -, hs, hlines, -, -, -, hclear⟩ := loses_and_repeats_nothing hevery hlast hwrites hflush
  obtain ⟨t, -, ht, hmore, -, -, -, hend⟩ := loses_and_repeats_nothing hevery hlast hwrites hclose
  refine ⟨hevery, hlast, hwrites, ?_, ?_⟩
  · rw [(hclear (.inl rfl)).1, List.append_nil] at hlines
    rw [hs, hlines]
    rfl
  · rw [(hend (.inr rfl)).1, List.append_nil] at hmore
    rw [ht, hmore]
    rfl

end FileSink
end Rehearsal
