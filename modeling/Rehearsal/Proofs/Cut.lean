import Mathlib.Data.List.Infix

/-! Texts cut at a separator, and put together again from the pieces. -/

namespace Rehearsal
set_option autoImplicit false

namespace Text

/-- A text cut at a separator. Every piece but the last ends where the separator stands for the first
time, and in the last one it does not stand at all. -/
inductive Cut (sep : List Char) : List Char → List (List Char) → Prop
  | last {p : List Char} : ¬ sep <:+: p → Cut sep p [p]
  | next {p rest : List Char} {ps : List (List Char)} : ¬ sep <:+: p ++ sep.dropLast →
      Cut sep rest ps → Cut sep (p ++ sep ++ rest) (p :: ps)

variable {sep cs : List Char} {ps qs : List (List Char)}

theorem Cut.ne_nil (h : Cut sep cs ps) : ps ≠ [] := by
  cases h <;> simp

/-- Where the separator does not stand at the front, the first character belongs to the first piece. -/
theorem Cut.cons {c : Char} {q : List Char} (h : Cut sep cs (q :: qs)) (hc : ¬ sep <+: c :: cs) :
    Cut sep (c :: cs) ((c :: q) :: qs) := by
  cases h with
  | last hq =>
    apply Cut.last
    rw [List.infix_cons_iff]
    exact not_or.2 ⟨hc, hq⟩
  | @next _ rest _ hq hrest =>
    refine Cut.next (p := c :: q) ?_ hrest
    rw [List.cons_append, List.infix_cons_iff]
    refine not_or.2 ⟨?_, hq⟩
    intro hpre
    apply hc
    have hlong : c :: (q ++ sep.dropLast) <+: c :: (q ++ sep ++ rest) := by
      rw [List.append_assoc]
      apply List.cons_prefix_cons.2 ⟨rfl, (List.prefix_append_right_inj q).2 _⟩
      exact (List.dropLast_prefix sep).trans (List.prefix_append sep rest)
    exact hpre.trans hlong

theorem not_infix_of_append {p q : List Char} (h : ¬ sep <:+: p ++ q) : ¬ sep <:+: p :=
  fun hp => h (hp.trans (List.prefix_append p q).isInfix)

/-- A separator that stands behind a piece stands nowhere before. -/
theorem length_le_of_append_eq {p q rest rest' : List Char} (hsep : sep ≠ [])
    (hp : ¬ sep <:+: p ++ sep.dropLast) (h : q ++ sep ++ rest = p ++ sep ++ rest') :
    p.length ≤ q.length := by
  by_contra hlt
  have hpos : 0 < sep.length := List.length_pos_iff.2 hsep
  -- The separator behind the shorter piece would end before the one behind the longer does.
  have hshort : q ++ sep <+: p ++ sep ++ rest' := h ▸ List.prefix_append _ _
  have hlong : p ++ sep.dropLast <+: p ++ sep ++ rest' := by
    rw [List.append_assoc]
    apply (List.prefix_append_right_inj p).2
    exact (List.dropLast_prefix sep).trans (List.prefix_append sep rest')
  have hle : (q ++ sep).length ≤ (p ++ sep.dropLast).length := by
    simp only [List.length_append, List.length_dropLast]
    omega
  have hpre : q ++ sep <+: p ++ sep.dropLast := List.prefix_of_prefix_length_le hshort hlong hle
  exact hp ((List.suffix_append q sep).isInfix.trans hpre.isInfix)

/-- A text is cut in one way only. -/
theorem Cut.unique (h : Cut sep cs ps) (h' : Cut sep cs qs) : ps = qs := by
  have hsep : sep ≠ [] := by
    rintro rfl
    cases h with
    | last hp => exact hp List.nil_infix
    | next hp => exact hp List.nil_infix
  induction h generalizing qs with
  | @last p hp =>
    cases h' with
    | last => rfl
    | @next q rest => exact absurd ⟨q, rest, rfl⟩ hp
  | @next p rest ps hp _ ih =>
    generalize htext : p ++ sep ++ rest = text at h'
    cases h' with
    | last hq => exact absurd ⟨p, rest, htext⟩ hq
    | @next q rest' qs hq hqs =>
      have hle := length_le_of_append_eq hsep hp htext.symm
      have hge := length_le_of_append_eq hsep hq htext
      rw [List.append_assoc, List.append_assoc] at htext
      obtain ⟨rfl, hrest⟩ := List.append_inj htext (by omega)
      rw [List.append_cancel_left hrest] at ih
      rw [ih hqs]

/-- Pieces that leave the separator alone, with the separator between them, are what the text is cut
into. -/
theorem cut_intercalate (hne : ps ≠ []) (hps : ∀ p ∈ ps, ¬ sep <:+: p ++ sep.dropLast) :
    Cut sep (sep.intercalate ps) ps := by
  induction ps with
  | nil => exact absurd rfl hne
  | cons p ps ih =>
    obtain ⟨hp, hrest⟩ := List.forall_mem_cons.1 hps
    cases ps with
    | nil =>
      rw [List.intercalate_singleton]
      exact .last (not_infix_of_append hp)
    | cons q qs =>
      rw [List.intercalate_cons_cons]
      exact .next hp (ih (List.cons_ne_nil q qs) hrest)

theorem mem_of_mem_intercalate {c : Char} (h : c ∈ sep.intercalate ps) :
    c ∈ sep ∨ ∃ p ∈ ps, c ∈ p := by
  induction ps with
  | nil => simp [List.intercalate] at h
  | cons p ps ih =>
    cases ps with
    | nil =>
      rw [List.intercalate_singleton] at h
      exact .inr ⟨p, List.mem_cons_self, h⟩
    | cons q qs =>
      simp only [List.intercalate_cons_cons, List.mem_append] at h
      rcases h with (hp | hsep) | hrest
      · exact .inr ⟨p, List.mem_cons_self, hp⟩
      · exact .inl hsep
      · apply (ih hrest).imp_right
        rintro ⟨r, hr, hc⟩
        exact ⟨r, List.mem_cons_of_mem p hr, hc⟩

end Text

end Rehearsal
