import Mathlib.Data.List.DropRight
import Rehearsal.Proofs.Sink

/-! What is forced to disk. A sink that writes line by line has every record on disk when the disk has its
turn. One that collects lines forces what it has written, and the batch that it still collects is left out. -/

namespace Rehearsal
set_option autoImplicit false

namespace SinkCall

def isFlush : SinkCall → Bool
  | .flush => true
  | _ => false

/-- The records to keep that came after the last flush that was asked for. -/
def recent (stages : Bool) (calls : List SinkCall) : List Record :=
  due stages (calls.rtakeWhile fun c => !c.isFlush)

variable {stages : Bool} {calls : List SinkCall} {r : Record}

theorem recent_emit : recent stages (calls ++ [.emit r]) = recent stages calls ++ due stages [.emit r] := by
  rw [recent, List.rtakeWhile_concat_pos _ _ _ rfl, due_append, recent]

theorem recent_flush : recent stages (calls ++ [.flush]) = [] := by
  rw [recent, List.rtakeWhile_concat_neg _ _ _ (by decide)]
  simp [due_eq_filter, given]

theorem closedLast_of_not_mem (h : .close ∉ calls) : ClosedLast calls :=
  List.pairwise_of_forall_mem_list fun _ ha _ _ hclose => absurd (hclose ▸ ha) h

end SinkCall

namespace FileSink
open SinkCall

variable {o : FileOptions} {s : FileSink} {calls : List SinkCall} {r : Record}

/-- The lines that are on disk for certain. -/
def durable (s : FileSink) : List String := s.flushed.take s.synced

theorem sync_of_dvd {n : Int} (hopen : s.closed = false) (hsync : s.options.syncEvery = some n)
    (hturn : n ∣ s.taken) : s.sync = ({ s.spill with synced := s.spill.flushed.length }, none) := by
  have hzero : (Int.emod s.taken n == 0) = true := beq_iff_eq.2 (Int.emod_eq_zero_of_dvd hturn)
  rw [sync, hsync]
  dsimp only
  rw [if_pos hzero, flushHandle_of_open hopen, andThen]

/-- When the disk has its turn, everything that the sink has written is there. -/
theorem Keeps.emit_sync {n : Int} {records : List Record} (h : Keeps o records s) (hevery : 1 ≤ o.every)
    (hopen : s.closed = false) (hr : r.accepted o.stages = true)
    (hwrites : ∀ r' ∈ records ++ [r], o.refuses r'.line = false) (hsync : o.syncEvery = some n)
    (hturn : n ∣ (records ++ [r]).length) :
    ∃ t, s.emit r = (t, none) ∧ t.durable = t.written ∧ t.unflushed = [] := by
  obtain ⟨t, ht, htopen, hkeeps, -⟩ := h.store hevery hopen hwrites
  have hdisk := sync_of_dvd htopen (hkeeps.options ▸ hsync) (hkeeps.taken ▸ hturn)
  refine ⟨{ t.spill with synced := t.spill.flushed.length }, ?_, ?_, rfl⟩
  · rw [emit_of_accepted (h.options ▸ hr), ht, andThen, hdisk]
  · simp [durable, written, spill]

/-- A sink that collects lines holds those of the last records, as many as there are behind the last full
batch since it was flushed. -/
theorem length_buffer_after (hevery : 1 ≤ o.every) (hopen : .close ∉ calls) (hbatch : o.batch = true)
    (hwrites : ∀ r ∈ due o.stages calls, o.refuses r.line = false) :
    ((start o).after calls).buffer.length = (recent o.stages calls).length % o.every := by
  induction calls using List.reverseRecOn with
  | nil => simp [after, start, recent, due_eq_filter, given]
  | append_singleton calls c ih =>
    have hbefore : ∀ r ∈ due o.stages calls, o.refuses r.line = false :=
      fun r hr => hwrites r (due_subset_append hr)
    have hlast := closedLast_of_not_mem hopen
    have hsize := ih (fun h => hopen (List.mem_append_left _ h)) hbefore
    have hfaithful := faithful_after hevery hlast.left hbefore
    rw [after_concat]
    cases c with
    | emit r =>
      rw [recent_emit]
      cases hr : r.accepted o.stages with
      | true =>
        rw [due_append, due_emit hr] at hwrites
        obtain ⟨t, ht, -, -, hgrown⟩ :=
          hfaithful.keeps.emit hevery (hfaithful.open_of_ne hlast (by simp)) hr hwrites
        rw [call, ht, hgrown hbatch, hsize, due_emit hr, List.length_append, List.length_singleton,
          Nat.mod_add_mod]
      | false =>
        have hkept : r.accepted ((start o).after calls).options.stages = false := by
          rwa [hfaithful.keeps.options]
        rw [call, emit_of_not_accepted hkept, hsize, due_emit_of_not hr, List.append_nil]
    | flush =>
      obtain ⟨t, ht, -, -, hbuffer, -⟩ :=
        hfaithful.keeps.flush (hfaithful.open_of_ne hlast (by simp)) hbefore
      rw [call, ht, hbuffer, recent_flush, List.length_nil, List.length_nil, Nat.zero_mod]
    | close => exact absurd (List.mem_append_right _ List.mem_cons_self) hopen

/-- When the disk has its turn, everything written is on disk, and that is all there is of the records if
lines are not collected, or if the batch has just been written out. -/
theorem durable_iff_of_sync {n : Int} (hevery : 1 ≤ o.every) (hopen : .close ∉ calls)
    (hr : r.accepted o.stages = true)
    (hwrites : ∀ r' ∈ due o.stages (calls ++ [.emit r]), o.refuses r'.line = false)
    (hsync : o.syncEvery = some n) (hturn : n ∣ (due o.stages (calls ++ [.emit r])).length) :
    ∃ s, ((start o).after calls).emit r = (s, none) ∧ s.durable = s.written ∧ s.unflushed = [] ∧
      s.durable ++ s.buffer = (due o.stages (calls ++ [.emit r])).map Record.line ∧
      s.buffer.length = (if o.batch then (recent o.stages (calls ++ [.emit r])).length % o.every else 0) ∧
      (s.durable = (due o.stages (calls ++ [.emit r])).map Record.line ↔
        o.batch = false ∨ o.every ∣ (recent o.stages (calls ++ [.emit r])).length) := by
  have hnever : .close ∉ calls ++ [.emit r] := by simpa using hopen
  have hlast := closedLast_of_not_mem hnever
  have hbefore := faithful_after hevery hlast.left fun r hr => hwrites r (due_subset_append hr)
  have hdue : due o.stages (calls ++ [.emit r]) = due o.stages calls ++ [r] := by
    rw [due_append, due_emit hr]
  obtain ⟨s, hs, hdurable, hunflushed⟩ := hbefore.keeps.emit_sync hevery
    (hbefore.open_of_ne hlast (by simp)) hr (hdue ▸ hwrites) hsync (hdue ▸ hturn)
  have hafter : (start o).after (calls ++ [.emit r]) = s := by rw [after_concat, call, hs]
  have hkeeps := hafter ▸ (faithful_after hevery hlast hwrites).keeps
  have hbuffer : s.buffer.length =
      if o.batch then (recent o.stages (calls ++ [.emit r])).length % o.every else 0 := by
    split
    · rename_i hbatch
      exact hafter ▸ length_buffer_after hevery hnever hbatch hwrites
    · rename_i hdirect
      rw [(hkeeps.direct (Bool.eq_false_iff.2 hdirect)).1, List.length_nil]
  refine ⟨s, hs, hdurable, hunflushed, hdurable ▸ hkeeps.lines, hbuffer, ?_⟩
  rw [hdurable, ← hkeeps.lines, List.self_eq_append_right, ← List.length_eq_zero_iff, hbuffer]
  cases o.batch <;> simp [Nat.dvd_iff_mod_eq_zero]

/-- A flush writes the first record before its batch is full, and the second is still collected when the
disk has its turn. -/
theorem durable_iff_of_sync_sample :
    let o := FileOptions.make "batch" 2 (some 1) true
    let step (index : Int) : Record := .step ⟨"booking", index, "I pay", .passed, .null, none, false, none, .null⟩
    let calls : List SinkCall := [.emit (step 0), .flush]
    1 ≤ o.every ∧ .close ∉ calls ∧ (step 1).accepted o.stages = true ∧
      (∀ r' ∈ due o.stages (calls ++ [.emit (step 1)]), o.refuses r'.line = false) ∧
      o.syncEvery = some 1 ∧ (1 : Int) ∣ (due o.stages (calls ++ [.emit (step 1)])).length ∧
      (((start o).after calls).emit (step 1)).1.buffer.length = 1 ∧
      (((start o).after calls).emit (step 1)).1.durable ≠ [(step 0).line, (step 1).line] := by
  intro o step calls
  have hevery : 1 ≤ o.every := by decide
  have hopen : .close ∉ calls := by simp [calls]
  have hwrites : ∀ r' ∈ due o.stages (calls ++ [.emit (step 1)]), o.refuses r'.line = false :=
    fun _ _ => rfl
  have hturn : (1 : Int) ∣ (due o.stages (calls ++ [.emit (step 1)])).length := Int.one_dvd _
  have hrecent : recent o.stages (calls ++ [.emit (step 1)]) = [step 1] := rfl
  obtain ⟨s, hs, -, -, -, hbuffer, hall⟩ :=
    durable_iff_of_sync hevery hopen rfl hwrites rfl hturn
  rw [hrecent] at hbuffer hall
  rw [hs]
  refine ⟨hevery, hopen, rfl, hwrites, rfl, hturn, hbuffer, ?_⟩
  intro hdurable
  have hno : ¬(o.batch = false ∨ o.every ∣ [step 1].length) := by decide
  exact hno (hall.1 hdurable)

end FileSink
end Rehearsal
