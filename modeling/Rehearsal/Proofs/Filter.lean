import Rehearsal.Proofs.Cut
import Rehearsal.Proofs.Tag

/-! The language of tag filters. A text is cut at `&&` into clauses and each of these at `,` into terms,
and it is a filter when every term has a tag. What is rendered from clauses of plain tags reads back as
these clauses. A filter asks for one term of every clause, as long as the tags are normal. -/

namespace Rehearsal
set_option autoImplicit false
open Rehearsal.Text

namespace TagFilter
variable {cs : List Char} {ps : List (List Char)}

theorem cut_splitTerms (cs : List Char) : Cut [','] cs (splitTerms cs) := by
  induction cs with
  | nil => exact .last (by simp)
  | cons c cs ih =>
    rw [splitTerms]
    by_cases hc : c = ','
    · subst hc
      exact Cut.next (p := []) (by simp) ih
    · rw [if_neg (by simpa using hc)]
      cases hp : splitTerms cs with
      | nil => exact absurd hp ih.ne_nil
      | cons p ps =>
        rw [hp] at ih
        apply ih.cons
        simpa using Ne.symm hc

theorem cut_splitClauses (cs : List Char) : Cut ['&', '&'] cs (splitClauses cs) := by
  fun_induction splitClauses cs with
  | case1 => exact .last (by simp)
  | case2 cs ih =>
    have hfirst : ¬ ['&', '&'] <:+: ['&'] := fun h => absurd h.length_le (by decide)
    exact Cut.next (p := []) hfirst ih
  | case3 c cs hand p ps hp ih =>
    rw [hp] at ih
    apply ih.cons
    rintro ⟨rest, hrest⟩
    obtain ⟨rfl, rfl⟩ := List.cons.inj hrest
    exact hand rest rfl rfl
  | case4 c cs _ hp ih => exact absurd hp ih.ne_nil

theorem splitTerms_eq_iff : splitTerms cs = ps ↔ Cut [','] cs ps :=
  ⟨fun h => h ▸ cut_splitTerms cs, (cut_splitTerms cs).unique⟩

theorem splitClauses_eq_iff : splitClauses cs = ps ↔ Cut ['&', '&'] cs ps :=
  ⟨fun h => h ▸ cut_splitClauses cs, (cut_splitClauses cs).unique⟩

/-- The tag of a term, without the sign of its negation. -/
def tagOf (piece : List Char) : List Char :=
  let cs := trim piece
  Tag.bare (if cs.head? = some '~' then cs.tail else cs)

/-- Does every term of a filter have a tag? -/
def legible (source : String) : Bool :=
  (splitClauses source.toList).all fun clause =>
    (splitTerms clause).all fun piece => !(tagOf piece).isEmpty

/-- What reading a filter fails in. -/
def Illegible (source : String) (f : Fault) : Prop := f = .blankTag ∨ f = .blankTerm source

theorem normalize_ends (source : String) (cs : List Char) (negated : Bool) :
    (!(Tag.bare cs).isEmpty) = true ∧ (∃ term, (Tag.normalize (String.ofList cs)).map
        (fun tag => TagTerm.mk tag negated) = .ok term) ∨
      (!(Tag.bare cs).isEmpty) = false ∧ ∃ f, (Tag.normalize (String.ofList cs)).map
        (fun tag => TagTerm.mk tag negated) = .error f ∧ Illegible source f := by
  rw [Tag.normalize, String.toList_ofList]
  cases Tag.bare cs with
  | nil => exact .inr ⟨rfl, _, rfl, .inl rfl⟩
  | cons c cs => exact .inl ⟨rfl, _, rfl⟩

theorem parseTerm_ends (source : String) (piece : List Char) :
    (!(tagOf piece).isEmpty) = true ∧ (∃ term, parseTerm source piece = .ok term) ∨
      (!(tagOf piece).isEmpty) = false ∧
        ∃ f, parseTerm source piece = .error f ∧ Illegible source f := by
  rw [parseTerm]
  split
  · rename_i h
    rw [tagOf, h]
    exact .inr ⟨rfl, _, rfl, .inr rfl⟩
  · rename_i cs h
    rw [tagOf, h, List.head?_cons, if_pos rfl, List.tail_cons]
    exact normalize_ends source cs true
  · rename_i h
    have hsign : (trim piece).head? ≠ some '~' := by
      intro hhead
      obtain ⟨cs, hcs⟩ := List.head?_eq_some_iff.1 hhead
      exact h cs hcs
    rw [tagOf, if_neg hsign]
    exact normalize_ends source _ false

/-- A filter is read when each of its terms has a tag. -/
theorem parse_ends (source : String) :
    legible source = true ∧ (∃ filter, parse source = .ok filter) ∨
      legible source = false ∧ ∃ f, parse source = .error f ∧ Illegible source f := by
  rcases mapM_ends (fun clause => mapM_ends (parseTerm_ends source) (splitTerms clause))
    (splitClauses source.toList) with ⟨hall, clauses, hc⟩ | ⟨hall, f, hf, he⟩
  · exact .inl ⟨hall, ⟨source, clauses⟩, except_bind_eq_ok_iff.2 ⟨clauses, hc, rfl⟩⟩
  · exact .inr ⟨hall, f, except_bind_eq_error_iff.2 (.inl hf), he⟩

/-- The term that a piece is read as. -/
def termOf (piece : List Char) : TagTerm :=
  ⟨String.ofList (tagOf piece), decide ((trim piece).head? = some '~')⟩

def clausesOf (source : String) : List (List TagTerm) :=
  (splitClauses source.toList).map fun clause => (splitTerms clause).map termOf

theorem eq_termOf_of_parseTerm {source : String} {piece : List Char} {term : TagTerm}
    (h : parseTerm source piece = .ok term) : term = termOf piece := by
  have hread : ∀ {cs : List Char} {negated : Bool},
      (Tag.normalize (String.ofList cs)).map (fun tag => TagTerm.mk tag negated) = .ok term →
        term = ⟨String.ofList (Tag.bare cs), negated⟩ := by
    intro cs negated hterm
    cases hn : Tag.normalize (String.ofList cs) with
    | error f =>
      rw [hn] at hterm
      cases hterm
    | ok tag =>
      rw [hn] at hterm
      cases hterm
      obtain ⟨he, _⟩ := Tag.normalize_eq_ok_iff.1 hn
      rw [String.toList_ofList] at he
      rw [he, String.ofList_toList]
  rw [termOf, tagOf]
  rw [parseTerm] at h
  split at h
  · cases h
  · rename_i cs htrim
    simpa [htrim] using hread h
  · rename_i htrim
    have hsign : (trim piece).head? ≠ some '~' := by
      intro hhead
      obtain ⟨cs, hcs⟩ := List.head?_eq_some_iff.1 hhead
      exact htrim cs hcs
    simpa [hsign] using hread h

theorem parse_eq_ok_iff {source : String} {f : TagFilter} :
    parse source = .ok f ↔ legible source = true ∧ f = ⟨source, clausesOf source⟩ := by
  have hread : ∀ {f : TagFilter}, parse source = .ok f → f = ⟨source, clausesOf source⟩ := by
    intro f h
    obtain ⟨clauses, hc, h⟩ := except_bind_eq_ok_iff.1 h
    cases h
    rw [clausesOf, eq_map_of_mapM ?_ hc]
    intro clause terms hterms
    exact eq_map_of_mapM (fun _ _ => eq_termOf_of_parseTerm) hterms
  rcases parse_ends source with ⟨hlegible, f', hf'⟩ | ⟨hlegible, fault, hf, _⟩
  · constructor
    · exact fun h => ⟨hlegible, hread h⟩
    · rintro ⟨_, rfl⟩
      rw [hf', hread hf']
  · rw [hf, hlegible]
    simp

/-- A text stands between two separators of terms. -/
def IsPiece (source : String) (piece : List Char) : Prop :=
  ∃ clauses clause pieces, Cut ['&', '&'] source.toList clauses ∧ clause ∈ clauses ∧
    Cut [','] clause pieces ∧ piece ∈ pieces

theorem isPiece_iff {source : String} {piece : List Char} :
    IsPiece source piece ↔ ∃ clause ∈ splitClauses source.toList, piece ∈ splitTerms clause := by
  constructor
  · rintro ⟨clauses, clause, pieces, hclauses, hclause, hpieces, hpiece⟩
    rw [← splitClauses_eq_iff] at hclauses
    rw [← splitTerms_eq_iff] at hpieces
    exact ⟨clause, hclauses ▸ hclause, hpieces ▸ hpiece⟩
  · rintro ⟨clause, hclause, hpiece⟩
    exact ⟨_, clause, _, cut_splitClauses _, hclause, cut_splitTerms clause, hpiece⟩

theorem legible_iff {source : String} :
    legible source = true ↔ ∀ piece, IsPiece source piece → tagOf piece ≠ [] := by
  simp only [legible, List.all_eq_true, Bool.not_eq_true', List.isEmpty_eq_false_iff, isPiece_iff]
  constructor
  · rintro h piece ⟨clause, hclause, hpiece⟩
    exact h clause hclause piece hpiece
  · intro h clause hclause piece hpiece
    exact h piece ⟨clause, hclause, hpiece⟩

theorem clausesOf_ne_nil (source : String) :
    clausesOf source ≠ [] ∧ ∀ clause ∈ clausesOf source, clause ≠ [] := by
  constructor
  · simpa [clausesOf] using (cut_splitClauses source.toList).ne_nil
  · intro clause hclause
    obtain ⟨cs, _, rfl⟩ := List.mem_map.1 hclause
    simpa using (cut_splitTerms cs).ne_nil

end TagFilter

/-- The tag is not empty, has no separator in it and no white space at its end. -/
def TagTerm.Plain (t : TagTerm) : Prop :=
  t.tag.toList ≠ [] ∧ ',' ∉ t.tag.toList ∧ '&' ∉ t.tag.toList ∧
    ∀ c ∈ t.tag.toList.getLast?, isBlank c = false

instance (t : TagTerm) : Decidable t.Plain :=
  letI : Decidable (∀ c ∈ t.tag.toList.getLast?, isBlank c = false) := Option.decidableForallMem _
  inferInstanceAs (Decidable (_ ∧ _ ∧ _ ∧ _))

/-- The text of a term: an `@` before its tag, and a sign before both if it is negated. -/
def TagTerm.rendered (t : TagTerm) : List Char :=
  (if t.negated then ['~', '@'] else ['@']) ++ t.tag.toList

namespace TagFilter

def renderedClause (clause : List TagTerm) : List Char := [','].intercalate (clause.map TagTerm.rendered)

def rendered (clauses : List (List TagTerm)) : String :=
  String.ofList (['&', '&'].intercalate (clauses.map renderedClause))

/-- There are clauses, each of them has terms, and all tags are plain. -/
def Renderable (clauses : List (List TagTerm)) : Prop :=
  clauses ≠ [] ∧ ∀ clause ∈ clauses, clause ≠ [] ∧ ∀ t ∈ clause, t.Plain

instance (clauses : List (List TagTerm)) : Decidable (Renderable clauses) :=
  inferInstanceAs (Decidable (_ ∧ _))

end TagFilter

namespace TagTerm
variable {t : TagTerm}

theorem mem_rendered_iff {c : Char} :
    c ∈ t.rendered ↔ (c = '~' ∧ t.negated = true) ∨ c = '@' ∨ c ∈ t.tag.toList := by
  cases hn : t.negated <;> simp [rendered, hn]

theorem Plain.getLast?_cons (h : t.Plain) (c : Char) :
    (c :: t.tag.toList).getLast? = t.tag.toList.getLast? := by
  obtain ⟨d, ds, hd⟩ := List.exists_cons_of_ne_nil h.1
  rw [hd, List.getLast?_cons_cons]

theorem Plain.trim_at (h : t.Plain) : trim ('@' :: t.tag.toList) = '@' :: t.tag.toList := by
  apply trim_of_ends (by decide)
  rw [h.getLast?_cons]
  exact h.2.2.2

theorem Plain.trim_rendered (h : t.Plain) : trim t.rendered = t.rendered := by
  cases hn : t.negated with
  | false => simpa [rendered, hn] using h.trim_at
  | true =>
    have hall : t.rendered = '~' :: '@' :: t.tag.toList := by simp [rendered, hn]
    rw [hall]
    apply trim_of_ends (by decide)
    rw [List.getLast?_cons_cons, h.getLast?_cons]
    exact h.2.2.2

theorem Plain.tagOf_rendered (h : t.Plain) : TagFilter.tagOf t.rendered = t.tag.toList := by
  have hbare : Tag.bare ('@' :: t.tag.toList) = t.tag.toList := by
    simp [Tag.bare, h.trim_at]
  rw [TagFilter.tagOf, h.trim_rendered]
  cases hn : t.negated <;> simp [rendered, hn, hbare]

theorem Plain.termOf_rendered (h : t.Plain) : TagFilter.termOf t.rendered = t := by
  rw [TagFilter.termOf, h.tagOf_rendered, h.trim_rendered, String.ofList_toList]
  obtain ⟨tag, negated⟩ := t
  cases negated <;> simp [rendered]

end TagTerm

namespace TagFilter
variable {clause : List TagTerm} {clauses : List (List TagTerm)}

theorem splitTerms_renderedClause (hne : clause ≠ []) (h : ∀ t ∈ clause, t.Plain) :
    splitTerms (renderedClause clause) = clause.map TagTerm.rendered := by
  rw [splitTerms_eq_iff]
  apply cut_intercalate (by simpa using hne)
  simp only [List.forall_mem_map]
  intro t ht hin
  have hmem : ',' ∈ t.rendered := by
    simpa using hin.subset List.mem_cons_self
  simp only [TagTerm.mem_rendered_iff] at hmem
  exact (h t ht).2.1 (by simpa using hmem)

theorem not_mem_renderedClause (h : ∀ t ∈ clause, t.Plain) : '&' ∉ renderedClause clause := by
  intro hin
  rcases mem_of_mem_intercalate hin with hsep | ⟨p, hp, hmem⟩
  · exact absurd hsep (by decide)
  · obtain ⟨t, ht, rfl⟩ := List.mem_map.1 hp
    simp only [TagTerm.mem_rendered_iff] at hmem
    exact (h t ht).2.2.1 (by simpa using hmem)

theorem splitClauses_rendered (h : Renderable clauses) :
    splitClauses (rendered clauses).toList = clauses.map renderedClause := by
  rw [rendered, String.toList_ofList, splitClauses_eq_iff]
  apply cut_intercalate (by simpa using h.1)
  simp only [List.forall_mem_map]
  intro clause hclause hin
  -- Of the two characters of the separator one at least would stand in the clause.
  have hout := not_mem_renderedClause (h.2 clause hclause).2
  have hcount := hin.sublist.count_le '&'
  simp [List.count_eq_zero_of_not_mem hout] at hcount

theorem clausesOf_rendered (h : Renderable clauses) : clausesOf (rendered clauses) = clauses := by
  rw [clausesOf, splitClauses_rendered h, List.map_map]
  refine (List.map_congr_left ?_).trans (List.map_id clauses)
  intro clause hclause
  obtain ⟨hne, hplain⟩ := h.2 clause hclause
  change (splitTerms (renderedClause clause)).map termOf = clause
  rw [splitTerms_renderedClause hne hplain, List.map_map]
  refine (List.map_congr_left ?_).trans (List.map_id clause)
  exact fun t ht => (hplain t ht).termOf_rendered

theorem legible_rendered (h : Renderable clauses) : legible (rendered clauses) = true := by
  rw [legible, List.all_eq_true, splitClauses_rendered h]
  simp only [List.forall_mem_map]
  intro clause hclause
  obtain ⟨hne, hplain⟩ := h.2 clause hclause
  rw [List.all_eq_true, splitTerms_renderedClause hne hplain]
  simp only [List.forall_mem_map]
  intro t ht
  rw [(hplain t ht).tagOf_rendered]
  simpa using (hplain t ht).1

theorem parse_rendered (h : Renderable clauses) :
    parse (rendered clauses) = .ok ⟨rendered clauses, clauses⟩ := by
  rw [parse_eq_ok_iff, clausesOf_rendered h]
  exact ⟨legible_rendered h, rfl⟩

variable {f : TagFilter} {tags : List String}

/-- What a filter says of tags: in every clause there is a term whose tag is among them, or is not if the
term is negated. -/
def Says (f : TagFilter) (tags : List String) : Prop :=
  ∀ clause ∈ f.clauses, ∃ t ∈ clause, if t.negated then t.tag ∉ tags else t.tag ∈ tags

theorem holds_iff : f.holds tags = true ↔ f.Says tags := by
  simp only [holds, Says, List.all_eq_true, List.any_eq_true, TagTerm.holds]
  refine forall₂_congr fun clause _ => exists_congr fun t => and_congr_right fun _ => ?_
  cases t.negated <;> simp

theorem mapM_normalize (h : ∀ t ∈ tags, Tag.normalize t = .ok t) :
    tags.mapM Tag.normalize = .ok tags := by
  rw [mapM_eq_ok_iff, List.forall₂_same]
  exact h

theorem accepts_of_normal (h : ∀ t ∈ tags, Tag.normalize t = .ok t) :
    f.accepts tags = .ok (f.holds tags) := by
  rw [accepts, mapM_normalize h]
  rfl

theorem acceptsValue_of_normal {v : Value} (hv : v.iterate = .ok (tags.map .text))
    (h : ∀ t ∈ tags, Tag.normalize t = .ok t) : f.acceptsValue v = .ok (f.holds tags) := by
  have hset : Tag.setOfValue v = .ok tags := by
    rw [Tag.setOfValue, hv, except_ok_bind, List.mapM_map]
    exact mapM_normalize h
  rw [acceptsValue, hset]
  rfl

/-- The language of filters. What is rendered from clauses with plain tags is read as these clauses; a
text is read just if something is left of each of its terms, and then there are clauses and each has
terms; and of normal tags a filter says what its clauses say. -/
theorem grammar_and_meaning :
    (∀ clauses, Renderable clauses → parse (rendered clauses) = .ok ⟨rendered clauses, clauses⟩) ∧
    (∀ source, ((∃ f, parse source = .ok f) ↔ ∀ piece, IsPiece source piece → tagOf piece ≠ []) ∧
      ∀ f, parse source = .ok f → f.clauses ≠ [] ∧ ∀ clause ∈ f.clauses, clause ≠ []) ∧
    ∀ (f : TagFilter) (tags : List String), (∀ t ∈ tags, Tag.normalize t = .ok t) →
      (∃ b, f.accepts tags = .ok b ∧ (b = true ↔ f.Says tags)) ∧
      ∀ v : Value, v.iterate = .ok (tags.map .text) →
        ∃ b, f.acceptsValue v = .ok b ∧ (b = true ↔ f.Says tags) := by
  refine ⟨fun _ => parse_rendered, ?_, ?_⟩
  · intro source
    constructor
    · rw [← legible_iff]
      constructor
      · rintro ⟨f, hf⟩
        exact (parse_eq_ok_iff.1 hf).1
      · exact fun h => ⟨_, parse_eq_ok_iff.2 ⟨h, rfl⟩⟩
    · intro f hf
      obtain ⟨_, rfl⟩ := parse_eq_ok_iff.1 hf
      exact clausesOf_ne_nil source
  · intro f tags htags
    refine ⟨⟨_, accepts_of_normal htags, holds_iff⟩, ?_⟩
    exact fun v hv => ⟨_, acceptsValue_of_normal hv htags, holds_iff⟩

/-- A tag may begin with white space, with an `@` or with a `~`. -/
theorem grammar_and_meaning_sample :
    let clauses := [[⟨"db", false⟩, ⟨" orm", true⟩], [⟨"@~slow", false⟩]]
    let filter := TagFilter.mk "@db,~@ orm&&@@~slow" clauses
    Renderable clauses ∧ rendered clauses = filter.source ∧ parse filter.source = .ok filter ∧
      filter.clauses ≠ [] ∧ (∀ clause ∈ filter.clauses, clause ≠ []) ∧
      (∀ t ∈ ["db", "web"], Tag.normalize t = .ok t) ∧
      (∃ b, filter.accepts ["db", "web"] = .ok b ∧ (b = true ↔ filter.Says ["db", "web"])) ∧
      (Value.list [.text "db", .text "web"]).iterate = .ok (["db", "web"].map .text) ∧
      ∃ b, filter.acceptsValue (.list [.text "db", .text "web"]) = .ok b ∧
        (b = true ↔ filter.Says ["db", "web"]) := by
  intro clauses filter
  have hrenderable : Renderable clauses := by decide
  have hrendered : rendered clauses = filter.source := by rfl
  have htags : ∀ t ∈ ["db", "web"], Tag.normalize t = .ok t := by
    simp only [List.forall_mem_cons]
    exact ⟨rfl, rfl, nofun⟩
  have hv : (Value.list [.text "db", .text "web"]).iterate = .ok (["db", "web"].map .text) := rfl
  obtain ⟨hround, hread, hmeaning⟩ := grammar_and_meaning
  have hparse : parse filter.source = .ok filter := by
    have hclauses := hround clauses hrenderable
    rwa [hrendered] at hclauses
  obtain ⟨haccepts, hvalues⟩ := hmeaning filter ["db", "web"] htags
  exact ⟨hrenderable, hrendered, hparse, ((hread _).2 filter hparse).1, ((hread _).2 filter hparse).2,
    htags, haccepts, hv, hvalues _ hv⟩

end TagFilter
end Rehearsal
