import Mathlib.Data.List.Nodup
import Rehearsal.Proofs.Sink

/-! Lines that cannot be written. A sink that writes line by line leaves them out. One that collects lines
keeps the whole batch in which there is one, and writes what stands before it again at every attempt. -/

namespace Rehearsal
set_option autoImplicit false

namespace SinkCall

/-- The lines of the records that a sink is to keep. -/
def dueLines (stages : Bool) (calls : List SinkCall) : List String := (due stages calls).map Record.line

variable {stages : Bool} {calls : List SinkCall} {r : Record}

theorem dueLines_emit (h : r.accepted stages = true) :
    dueLines stages (calls ++ [.emit r]) = dueLines stages calls ++ [r.line] := by
  simp [dueLines, due_append, due_emit h]

theorem dueLines_emit_of_not (h : r.accepted stages = false) :
    dueLines stages (calls ++ [.emit r]) = dueLines stages calls := by
  simp [dueLines, due_append, due_emit_of_not h]

theorem dueLines_flush : dueLines stages (calls ++ [.flush]) = dueLines stages calls := by
  simp [dueLines, due_append, due_flush]

end SinkCall

namespace FileSink
open SinkCall

/-- The faults that calls end with. -/
def faults (s : FileSink) : List SinkCall → List Fault
  | [] => []
  | c :: calls => (s.call c).2.toList ++ faults (s.call c).1 calls

theorem faults_concat (s : FileSink) (calls : List SinkCall) (c : SinkCall) :
    s.faults (calls ++ [c]) = s.faults calls ++ ((s.after calls).call c).2.toList := by
  induction calls generalizing s with
  | nil => simp [faults, after]
  | cons c' calls ih => simp [faults, after, ih, List.append_assoc]

variable {o : FileOptions} {s t : FileSink} {lines done held rest : List String} {found : List Fault}
  {line : String} {r : Record} {calls : List SinkCall}

theorem andThen_of_fault (s : FileSink) (fault : Fault) (next : FileSink → FileSink × Option Fault) :
    andThen (s, some fault) next = (s, some fault) := rfl

theorem writeLines_append (s : FileSink) (lines lines' : List String) :
    s.writeLines (lines ++ lines') = andThen (s.writeLines lines) (·.writeLines lines') := by
  induction lines generalizing s with
  | nil => rfl
  | cons line lines ih =>
    simp only [List.cons_append, writeLines]
    split
    · rfl
    · split
      · rfl
      · exact ih _

theorem writeLines_of_refused (hopen : s.closed = false) (h : s.options.refuses line = true) :
    s.writeLines (line :: rest) = (s, some (.encoding line)) := by
  rw [writeLines, if_neg (by simp [hopen]), if_pos h]

/-- What stands before a line that cannot be written is written, and stays in the batch. -/
theorem exists_of_writeBuffer_of_refused {bad : String} (hopen : s.closed = false)
    (hbuffer : s.buffer = held ++ bad :: rest) (hheld : ∀ line ∈ held, s.options.refuses line = false)
    (hbad : s.options.refuses bad = true) :
    ∃ t, s.writeBuffer = (t, some (.encoding bad)) ∧ Wrote held s t := by
  obtain ⟨t, ht, hwrote⟩ := exists_of_writeLines hopen hheld
  have hrefused : t.options.refuses bad = true := by rwa [hwrote.options]
  refine ⟨t, ?_, hwrote⟩
  rw [writeBuffer, hbuffer, writeLines_append, ht, andThen,
    writeLines_of_refused (hwrote.closed.trans hopen) hrefused]

theorem exists_of_flush_of_refused {bad : String} (hopen : s.closed = false)
    (hbuffer : s.buffer = held ++ bad :: rest) (hheld : ∀ line ∈ held, s.options.refuses line = false)
    (hbad : s.options.refuses bad = true) :
    ∃ t, s.flush = (t, some (.encoding bad)) ∧ Wrote held s t := by
  obtain ⟨t, ht, hwrote⟩ := exists_of_writeBuffer_of_refused hopen hbuffer hheld hbad
  refine ⟨t, ?_, hwrote⟩
  rw [FileSink.flush, if_neg (by simp [hbuffer]), ht, andThen_of_fault]

/-! ### Line by line -/

/-- A sink that leaves out what it cannot write. -/
structure Skips (o : FileOptions) (lines : List String) (found : List Fault) (s : FileSink) : Prop where
  options : s.options = o
  opened : s.closed = false
  buffer : s.buffer = []
  written : s.written = lines.filter fun line => !o.refuses line
  faults : found = (lines.filter o.refuses).map .encoding

theorem Skips.wrote (h : Skips o lines found s) (hwrote : Wrote [] s t) : Skips o lines found t where
  options := hwrote.options.trans h.options
  opened := hwrote.closed.trans h.opened
  buffer := hwrote.buffer.trans h.buffer
  written := by rw [hwrote.written, h.written, List.append_nil]
  faults := h.faults

theorem Skips.pass (h : Skips o lines found s) (line : String) :
    Skips o (lines ++ [line]) (found ++ (s.pass line).2.toList) (s.pass line).1 := by
  cases hline : o.refuses line with
  | true =>
    rw [FileSink.pass, writeLines_of_refused h.opened (h.options ▸ hline), andThen_of_fault]
    exact ⟨h.options, h.opened, h.buffer, by simp [h.written, hline], by simp [h.faults, hline]⟩
  | false =>
    have hwritable : ∀ l ∈ [line], s.options.refuses l = false := by
      rw [h.options]
      simpa using hline
    obtain ⟨t, ht, hwrote⟩ := exists_of_writeLines h.opened hwritable
    have hskips : Skips o (lines ++ [line]) found t :=
      ⟨hwrote.options.trans h.options, hwrote.closed.trans h.opened, hwrote.buffer.trans h.buffer,
        by simp [hwrote.written, h.written, hline], by simp [h.faults, hline]⟩
    rw [FileSink.pass, ht, andThen]
    split
    · rw [flushHandle_of_open hskips.opened]
      simpa using hskips.wrote (wrote_spill t)
    · simpa using hskips

theorem Skips.emit (h : Skips o lines found s) (hdirect : o.batch = false)
    (hr : r.accepted o.stages = true) :
    Skips o (lines ++ [r.line]) (found ++ (s.emit r).2.toList) (s.emit r).1 := by
  have htaken : Skips o lines found { s with taken := s.taken + 1 } :=
    ⟨h.options, h.opened, h.buffer, h.written, h.faults⟩
  have hpass := htaken.pass r.line
  have hstore : s.store r = { s with taken := s.taken + 1 }.pass r.line := by
    rw [store, if_neg (by simp [h.options, hdirect])]
  rw [← hstore] at hpass
  obtain ⟨t, ht, hwrote⟩ := exists_of_emit (h.options ▸ hr) hpass.opened
  rw [ht]
  exact hpass.wrote hwrote

theorem Skips.flush (h : Skips o lines found s) :
    Skips o lines (found ++ s.flush.2.toList) s.flush.1 := by
  rw [FileSink.flush, h.buffer, List.isEmpty_nil, if_pos rfl, andThen, flushHandle_of_open h.opened]
  simpa using h.wrote (wrote_spill s)

/-! ### Batch by batch -/

/-- A sink whose batch begins with lines that can be written, and goes on with one that cannot. Every
attempt that fails has written what it begins with. -/
structure Repeats (o : FileOptions) (lines done held rest : List String) (found : List Fault)
    (s : FileSink) : Prop where
  options : s.options = o
  opened : s.closed = false
  lines : lines = done ++ held ++ rest
  buffer : s.buffer = held ++ rest
  written : s.written = done ++ (List.replicate found.length held).flatten
  writable : ∀ line ∈ done ++ held, o.refuses line = false
  refused : ∀ line ∈ rest.head?, o.refuses line = true
  faults : ∀ fault ∈ found, ∃ line ∈ rest.head?, fault = .encoding line

theorem Repeats.found_eq_nil (h : Repeats o lines done held [] found s) : found = [] :=
  List.eq_nil_iff_forall_not_mem.2 fun fault hfault => by simpa using h.faults fault hfault

theorem Repeats.wrote (h : Repeats o lines done held rest found s) (hwrote : Wrote [] s t) :
    Repeats o lines done held rest found t where
  options := hwrote.options.trans h.options
  opened := hwrote.closed.trans h.opened
  lines := h.lines
  buffer := hwrote.buffer.trans h.buffer
  written := by rw [hwrote.written, h.written, List.append_nil]
  writable := h.writable
  refused := h.refused
  faults := h.faults

/-- A line more in the batch, not yet written. -/
theorem Repeats.push (h : Repeats o lines done held rest found s) (hoptions : t.options = s.options)
    (hclosed : t.closed = s.closed) (hwritten : t.written = s.written)
    (hbuffer : t.buffer = s.buffer ++ [line]) :
    ∃ held rest, Repeats o (lines ++ [line]) done held rest found t := by
  have hoptions := hoptions.trans h.options
  have hopened := hclosed.trans h.opened
  -- Behind a line that cannot be written the batch only grows. Before there is one nothing has failed.
  cases rest with
  | cons bad rest =>
    exact ⟨held, bad :: (rest ++ [line]), hoptions, hopened, by simp [h.lines], by simp [hbuffer, h.buffer],
      hwritten.trans h.written, h.writable, h.refused, h.faults⟩
  | nil =>
    have hnone := h.found_eq_nil
    have hlines : t.written = done := by simp [hwritten, h.written, hnone]
    cases hline : o.refuses line with
    | true =>
      exact ⟨held, [line], hoptions, hopened, by simp [h.lines], by simp [hbuffer, h.buffer],
        by simp [hlines, hnone], h.writable, by simpa using hline, by simp [hnone]⟩
    | false =>
      have hwritable := h.writable
      exact ⟨held ++ [line], [], hoptions, hopened, by simp [h.lines], by simp [hbuffer, h.buffer],
        by simp [hlines, hnone], by grind, by simp, by simp [hnone]⟩

/-- An attempt writes the whole batch, or again what it begins with. -/
theorem Repeats.writeBuffer (h : Repeats o lines done held rest found s) :
    ∃ done held rest,
      Repeats o lines done held rest (found ++ s.writeBuffer.2.toList) s.writeBuffer.1 := by
  have hheld : ∀ line ∈ held, s.options.refuses line = false :=
    fun line hline => h.options ▸ h.writable line (List.mem_append_right _ hline)
  cases rest with
  | nil =>
    have hnone := h.found_eq_nil
    have hbuffer : s.buffer = held := h.buffer.trans (List.append_nil held)
    obtain ⟨t, ht, hwrote⟩ := exists_of_writeBuffer h.opened (hbuffer ▸ hheld)
    have hall : t.written = done ++ held := by simp [hwrote.written, h.written, hnone, hbuffer]
    rw [ht]
    exact ⟨done ++ held, [], [], hwrote.options.trans h.options, hwrote.closed.trans h.opened,
      by simp [h.lines], rfl, hall.trans (by simp [hnone]), by simpa using h.writable, by simp,
      by simp [hnone]⟩
  | cons bad rest =>
    have hbad : s.options.refuses bad = true := h.options ▸ h.refused bad rfl
    obtain ⟨t, ht, hwrote⟩ := exists_of_writeBuffer_of_refused h.opened h.buffer hheld hbad
    rw [ht]
    refine ⟨done, held, bad :: rest, hwrote.options.trans h.options, hwrote.closed.trans h.opened, h.lines,
      hwrote.buffer.trans h.buffer, ?_, h.writable, h.refused, ?_⟩
    · rw [hwrote.written, h.written, Option.toList_some, List.length_append, List.length_singleton,
        List.replicate_succ', List.flatten_append, List.flatten_singleton, List.append_assoc]
    · intro fault hfault
      rcases List.mem_append.1 hfault with hbefore | hnow
      · exact h.faults fault hbefore
      · exact ⟨bad, rfl, by simpa using hnow⟩

theorem Repeats.collect (h : Repeats o lines done held rest found s) (line : String) :
    ∃ done held rest, Repeats o (lines ++ [line]) done held rest
      (found ++ (s.collect line).2.toList) (s.collect line).1 := by
  have hpushed := h.push (t := { s with buffer := s.buffer ++ [line] }) rfl rfl rfl rfl
  obtain ⟨held, rest, hpushed⟩ := hpushed
  rw [FileSink.collect]
  dsimp only
  split
  · exact hpushed.writeBuffer
  · exact ⟨done, held, rest, by simpa using hpushed⟩

theorem Repeats.emit (h : Repeats o lines done held rest found s) (hbatch : o.batch = true)
    (hr : r.accepted o.stages = true) :
    ∃ done held rest,
      Repeats o (lines ++ [r.line]) done held rest (found ++ (s.emit r).2.toList) (s.emit r).1 := by
  have htaken : Repeats o lines done held rest found { s with taken := s.taken + 1 } :=
    ⟨h.options, h.opened, h.lines, h.buffer, h.written, h.writable, h.refused, h.faults⟩
  obtain ⟨done, held, rest, hcollect⟩ := htaken.collect r.line
  have hstore : s.store r = { s with taken := s.taken + 1 }.collect r.line := by
    rw [store, if_pos (by simp [h.options, hbatch])]
  rw [← hstore] at hcollect
  obtain ⟨t, ht, hwrote⟩ := exists_of_emit (h.options ▸ hr) hcollect.opened
  rw [ht]
  exact ⟨done, held, rest, hcollect.wrote hwrote⟩

theorem Repeats.flush (h : Repeats o lines done held rest found s) :
    ∃ done held rest, Repeats o lines done held rest (found ++ s.flush.2.toList) s.flush.1 := by
  have hattempt : ∃ done held rest out, (if s.buffer.isEmpty then (s, none) else s.writeBuffer) = out ∧
      Repeats o lines done held rest (found ++ out.2.toList) out.1 := by
    split
    · exact ⟨done, held, rest, _, rfl, by simpa using h⟩
    · obtain ⟨done, held, rest, hwritten⟩ := h.writeBuffer
      exact ⟨done, held, rest, _, rfl, hwritten⟩
  obtain ⟨done, held, rest, ⟨t, _ | fault⟩, ht, hwritten⟩ := hattempt
  · rw [FileSink.flush, ht, andThen, flushHandle_of_open hwritten.opened]
    exact ⟨done, held, rest, hwritten.wrote (wrote_spill t)⟩
  · rw [FileSink.flush, ht, andThen_of_fault]
    exact ⟨done, held, rest, hwritten⟩

/-- A flush fails just when there is a line in the batch that cannot be written. -/
theorem Repeats.flush_fault (h : Repeats o lines done held rest found s) :
    s.flush.2 = rest.head?.map .encoding := by
  have hheld : ∀ line ∈ held, s.options.refuses line = false :=
    fun line hline => h.options ▸ h.writable line (List.mem_append_right _ hline)
  cases rest with
  | nil =>
    have hbuffer : s.buffer = held := h.buffer.trans (List.append_nil held)
    obtain ⟨t, ht, hwrote⟩ := exists_of_writeBuffer h.opened (hbuffer ▸ hheld)
    rw [FileSink.flush]
    split
    · rw [andThen, flushHandle_of_open h.opened]
      rfl
    · have htopen : t.closed = false := hwrote.closed.trans h.opened
      rw [ht, andThen, flushHandle_of_open (s := { t with buffer := [] }) htopen]
      rfl
  | cons bad rest =>
    obtain ⟨t, ht, -⟩ :=
      exists_of_flush_of_refused h.opened h.buffer hheld (h.options ▸ h.refused bad rfl)
    rw [ht]
    rfl

/-! ### Runs -/

theorem skips_after (hdirect : o.batch = false) (hopen : .close ∉ calls) :
    Skips o (dueLines o.stages calls) ((start o).faults calls) ((start o).after calls) := by
  induction calls using List.reverseRecOn with
  | nil => exact ⟨rfl, rfl, rfl, by simp [dueLines, due_eq_filter, given, after, start, written], by
      simp [dueLines, due_eq_filter, given, faults]⟩
  | append_singleton calls c ih =>
    have h := ih fun hclose => hopen (List.mem_append_left _ hclose)
    rw [faults_concat, after_concat]
    cases c with
    | emit r =>
      cases hr : r.accepted o.stages with
      | true =>
        rw [dueLines_emit hr]
        exact h.emit hdirect hr
      | false =>
        rw [dueLines_emit_of_not hr, call, emit_of_not_accepted (by rwa [h.options])]
        simpa using h
    | flush =>
      rw [dueLines_flush]
      exact h.flush
    | close => exact absurd (List.mem_append_right _ List.mem_cons_self) hopen

theorem repeats_after (hbatch : o.batch = true) (hopen : .close ∉ calls) :
    ∃ done held rest,
      Repeats o (dueLines o.stages calls) done held rest ((start o).faults calls) ((start o).after calls) := by
  induction calls using List.reverseRecOn with
  | nil => exact ⟨[], [], [], rfl, rfl, by simp [dueLines, due_eq_filter, given], rfl,
      by simp [after, start, written], by simp, by simp, by simp [faults]⟩
  | append_singleton calls c ih =>
    obtain ⟨done, held, rest, h⟩ := ih fun hclose => hopen (List.mem_append_left _ hclose)
    rw [faults_concat, after_concat]
    cases c with
    | emit r =>
      cases hr : r.accepted o.stages with
      | true =>
        rw [dueLines_emit hr]
        exact h.emit hbatch hr
      | false =>
        rw [dueLines_emit_of_not hr, call, emit_of_not_accepted (by rwa [h.options])]
        exact ⟨done, held, rest, by simpa using h⟩
    | flush =>
      rw [dueLines_flush]
      exact h.flush
    | close => exact absurd (List.mem_append_right _ List.mem_cons_self) hopen

theorem Repeats.sublist (h : Repeats o lines done held rest found s)
    (hfew : found.length ≤ 1 ∨ held = []) : s.written.Sublist lines := by
  have hstands : (done ++ held).Sublist lines := by
    rw [h.lines]
    exact List.sublist_append_left _ _
  rw [h.written]
  rcases hfew with hfew | rfl
  · refine List.Sublist.trans (List.Sublist.append_left ?_ done) hstands
    rcases Nat.le_one_iff_eq_zero_or_eq_one.1 hfew with hzero | hone
    · simp [hzero]
    · simp [hone]
  · simpa using hstands

theorem Repeats.not_sublist (h : Repeats o lines done held rest found s) (hnodup : lines.Nodup)
    (hmany : 1 < found.length) (hheld : held ≠ []) : ¬s.written.Sublist lines := by
  intro hsublist
  rw [h.written] at hsublist
  obtain ⟨line, hline⟩ := List.exists_mem_of_ne_nil _ hheld
  obtain ⟨more, hmore⟩ := Nat.exists_eq_add_of_le' hmany
  have htwice := (hnodup.sublist hsublist).of_append_right
  rw [hmore, List.replicate_succ, List.replicate_succ, List.flatten_cons, List.flatten_cons] at htwice
  exact List.disjoint_of_nodup_append htwice hline (List.mem_append_left _ hline)

/-- Whatever cannot be written, a sink that does not collect writes every other line once and in its
place. One that collects writes what stands before such a line in its batch once for every call that fails,
and every flush fails from then on, so its lines are in order and without repetition only up to the first
of these calls. -/
theorem written_sublist_iff (hopen : .close ∉ calls) :
    (o.batch = false →
      Skips o (dueLines o.stages calls) ((start o).faults calls) ((start o).after calls) ∧
        ((start o).after calls).written.Sublist (dueLines o.stages calls)) ∧
    (o.batch = true → ∃ done held rest,
      Repeats o (dueLines o.stages calls) done held rest ((start o).faults calls) ((start o).after calls) ∧
        ((start o).after calls).flush.2 = rest.head?.map .encoding ∧
        (((start o).faults calls).length ≤ 1 ∨ held = [] →
          ((start o).after calls).written.Sublist (dueLines o.stages calls)) ∧
        ((dueLines o.stages calls).Nodup → 1 < ((start o).faults calls).length → held ≠ [] →
          ¬((start o).after calls).written.Sublist (dueLines o.stages calls))) := by
  constructor
  · intro hdirect
    have hskips := skips_after hdirect hopen
    refine ⟨hskips, ?_⟩
    rw [hskips.written]
    exact List.filter_sublist
  · intro hbatch
    obtain ⟨done, held, rest, hrepeats⟩ := repeats_after hbatch hopen
    exact ⟨done, held, rest, hrepeats, hrepeats.flush_fault, hrepeats.sublist, hrepeats.not_sublist⟩

/-- Two flushes write the first record twice, for the second has half of a surrogate pair in its id. -/
theorem written_sublist_iff_sample :
    let o := (FileOptions.make "batch" 10 none true).utf8
    let event (id : String) : Record := .stage ⟨id, .finalized, none, none⟩
    let good := event "booking"
    let bad := event (String.singleton (Text.charOfCode 0xD800))
    let calls : List SinkCall := [.emit good, .emit bad, .flush, .flush]
    .close ∉ calls ∧ (start o).faults calls = [.encoding bad.line, .encoding bad.line] ∧
      ((start o).after calls).written = [good.line, good.line] ∧
      ¬((start o).after calls).written.Sublist (dueLines o.stages calls) := by
  intro o event good bad calls
  have hopen : .close ∉ calls := by simp [calls]
  have hgood : o.refuses good.line = false := by decide +kernel
  have hbad : o.refuses bad.line = true := by decide +kernel
  have hheld : ∀ line ∈ [good.line], o.refuses line = false := by simpa using hgood
  clear_value good bad
  -- Neither of the first calls writes anything, and both flushes come to the second line.
  let s : FileSink := { start o with taken := 2, buffer := [good.line, bad.line] }
  have hpending : s.buffer = [good.line] ++ bad.line :: [] := rfl
  obtain ⟨t, ht, hfirst⟩ := exists_of_flush_of_refused (s := s) rfl hpending hheld hbad
  have htoptions : t.options = o := hfirst.options
  obtain ⟨u, hu, hsecond⟩ :=
    exists_of_flush_of_refused hfirst.closed (hfirst.buffer.trans hpending) (htoptions ▸ hheld)
      (htoptions ▸ hbad)
  have hcalls : calls = [.emit good, .emit bad] ++ [.flush] ++ [.flush] := rfl
  have hemitted : (start o).after [.emit good, .emit bad] = s := rfl
  have hquiet : (start o).faults [.emit good, .emit bad] = [] := rfl
  have hafter : (start o).after calls = u := by
    rw [hcalls, after_concat, after_concat, hemitted, call, call, ht, hu]
  have hfaults : (start o).faults calls = [.encoding bad.line, .encoding bad.line] := by
    rw [hcalls, faults_concat, faults_concat, after_concat, hemitted, hquiet, call, call, ht, hu]
    rfl
  obtain ⟨done, held, rest, hrepeats, -, -, hrepeated⟩ := (written_sublist_iff (o := o) hopen).2 rfl
  have hbuffer : held ++ rest = [good.line, bad.line] := by
    rw [← hrepeats.buffer, hafter, hsecond.buffer, hfirst.buffer]
  have hne : held ≠ [] := by
    rintro rfl
    have hfront : good.line ∈ rest.head? := by
      rw [List.nil_append] at hbuffer
      simp [hbuffer]
    simp [hrepeats.refused _ hfront] at hgood
  have hnodup : (dueLines o.stages calls).Nodup := by
    have hdiffer : good.line ≠ bad.line := fun hsame => by simp [hsame, hbad] at hgood
    have hlines : dueLines o.stages calls = [good.line, bad.line] := rfl
    rw [hlines]
    exact List.nodup_cons.2 ⟨by simpa using hdiffer, List.nodup_singleton _⟩
  have hmany : 1 < ((start o).faults calls).length := by simp [hfaults]
  have hwritten : ((start o).after calls).written = [good.line, good.line] := by
    rw [hafter, hsecond.written, hfirst.written]
    rfl
  exact ⟨hopen, hfaults, hwritten, hrepeated hnodup hmany hne⟩

end FileSink
end Rehearsal
