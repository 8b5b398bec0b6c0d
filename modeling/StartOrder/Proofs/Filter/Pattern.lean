import Mathlib.Data.List.Forall2
import Mathlib.Data.List.Infix
import StartOrder.Filter.Matching
import StartOrder.Proofs.Filter.Grammar

/-!
# What a pattern describes

A pattern describes the texts that are put together from its literals and from any texts in the
places of its stars. A text is compared with a pattern from the left, and behind a star the next
literal is taken where it occurs first. No match is lost by that. In a pattern that has been read a
star comes between any two literals, and what stands behind a later occurrence of a literal is a
suffix of what stands behind the first one, so that the next star makes up for the difference. The
last literal has no star behind it, and is looked for at the end of what is left of the text.

## Main definitions

* `Filter.patterns`: the patterns in a filter
* `Piece.Stands p t`: a piece stands for a text
* `Piece.Spans ps s`: a text is put together from texts for which the pieces stand

## Main results

* `Filter.maximal_of_parse`: the patterns in a filter that has been read
* `Piece.after?_eq_some`, `Piece.exists_after?`: the first occurrence of a literal
* `Piece.fitsFrom_iff`: what is compared with the pieces before and behind a star
* `Piece.fits_iff`: the texts that a pattern describes
-/

namespace StartOrder

/-! ## Patterns that have been read -/

namespace Filter

variable {e : Filter} {t : List Char} {ps : List Piece}

mutual

/-- The patterns in a filter. -/
def patterns : Filter → List (List Piece)
  | all fs => patternsEach fs
  | any fs => patternsEach fs
  | not f => patterns f
  | compare _ _ _ => []
  | present _ => []
  | pattern _ ps => [ps]

/-- The patterns in several filters. -/
def patternsEach : List Filter → List (List Piece)
  | [] => []
  | f :: fs => patterns f ++ patternsEach fs

end

theorem star_mem_of_marks (h : .star ∈ ps.flatMap marks) : .star ∈ ps := by
  obtain ⟨p, hp, hmark⟩ := List.mem_flatMap.1 h
  cases p with
  | literal l => simp [marks] at hmark
  | star => exact hp

/-- The pattern of an item has a star, and its literals are as long as can be. -/
theorem maximal_of_derivesItem (h : DerivesItem t e) (hps : ps ∈ e.patterns) :
    Maximal ps ∧ .star ∈ ps := by
  obtain ⟨-, -, hmeans⟩ := h
  cases hmeans with
  | present | compare => cases hps
  | pattern _ hstar _ hmaximal hms =>
    obtain rfl := List.mem_singleton.1 hps
    exact ⟨hmaximal, star_mem_of_marks (hms ▸ hstar)⟩

mutual

theorem maximal_of_derives {t : List Char} {e : Filter} :
    Derives t e → ps ∈ e.patterns → Maximal ps ∧ .star ∈ ps
  | .all h _, hps => maximal_of_derivesEach h hps
  | .any h _, hps => maximal_of_derivesEach h hps
  | .not _ h, hps => maximal_of_derives h hps
  | .item h, hps => maximal_of_derivesItem h hps

theorem maximal_of_derivesEach {t : List Char} {fs : List Filter} :
    DerivesEach t fs → ps ∈ patternsEach fs → Maximal ps ∧ .star ∈ ps
  | .one _ h, hps => by
    rw [patternsEach, patternsEach, List.append_nil] at hps
    exact maximal_of_derives h hps
  | .cons _ h hs, hps => by
    rw [patternsEach] at hps
    rcases List.mem_append.1 hps with hps | hps
    · exact maximal_of_derives h hps
    · exact maximal_of_derivesEach hs hps

end

/-- **The patterns in a filter that has been read** have a star each, literals that are not empty,
and a star between any two literals. -/
theorem maximal_of_parse {text : String} (h : parse text = .ok e) (hps : ps ∈ e.patterns) :
    Maximal ps ∧ .star ∈ ps := by
  obtain ⟨_, _, _, -, -, -, hderives⟩ := parse_eq_ok_iff.1 h
  exact maximal_of_derives hderives hps

end Filter

namespace Piece

open StartOrder.Filter (Maximal)

variable {ps : List Piece} {l s rest : List Char}

/-! ## Texts in the places of pieces -/

/-- A literal stands for itself, and a star for any text. -/
def Stands : Piece → List Char → Prop
  | .literal l, t => t = l
  | .star, _ => True

/-- A text is put together from one text for each piece. -/
def Spans (ps : List Piece) (s : List Char) : Prop :=
  ∃ ts, List.Forall₂ Stands ps ts ∧ ts.flatten = s

theorem spans_nil : Spans [] s ↔ s = [] := by
  simp [Spans, eq_comm]

theorem spans_literal : Spans (.literal l :: ps) s ↔ ∃ rest, l ++ rest = s ∧ Spans ps rest := by
  simp only [Spans, List.forall₂_cons_left_iff, Stands]
  constructor
  · rintro ⟨_, ⟨_, ts, rfl, hts, rfl⟩, rfl⟩
    exact ⟨ts.flatten, List.flatten_cons.symm, ts, hts, rfl⟩
  · rintro ⟨_, rfl, ts, hts, rfl⟩
    exact ⟨l :: ts, ⟨l, ts, rfl, hts, rfl⟩, List.flatten_cons⟩

theorem spans_star : Spans (.star :: ps) s ↔ ∃ rest, rest <:+ s ∧ Spans ps rest := by
  simp only [Spans, List.forall₂_cons_left_iff, Stands]
  constructor
  · rintro ⟨_, ⟨t, ts, -, hts, rfl⟩, rfl⟩
    exact ⟨ts.flatten, ⟨t, List.flatten_cons.symm⟩, ts, hts, rfl⟩
  · rintro ⟨_, ⟨t, rfl⟩, ts, hts, rfl⟩
    exact ⟨t :: ts, ⟨t, ts, trivial, hts, rfl⟩, List.flatten_cons⟩

/-- A pattern that begins with a star also describes a text with more in front. -/
theorem Spans.of_suffix (h : Spans (.star :: ps) rest) (hs : rest <:+ s) :
    Spans (.star :: ps) s := by
  rw [spans_star] at h ⊢
  obtain ⟨rest', hrest', h⟩ := h
  exact ⟨rest', hrest'.trans hs, h⟩

theorem spans_star_star : Spans (.star :: .star :: ps) s ↔ Spans (.star :: ps) s := by
  rw [spans_star]
  constructor
  · rintro ⟨rest, hrest, h⟩
    exact h.of_suffix hrest
  · intro h
    exact ⟨s, List.suffix_rfl, h⟩

/-! ## The first occurrence of a literal -/

/-- What stands behind the first occurrence of a literal ends with what stands behind any other
one. -/
theorem after?_eq_some (h : after? l s = some rest) :
    l ++ rest <:+ s ∧ ∀ rest', l ++ rest' <:+ s → rest' <:+ rest := by
  induction s with
  | nil =>
    unfold after? at h
    split at h
    · next hl =>
      obtain rfl := Option.some.inj h
      rw [List.isEmpty_iff.1 hl]
      exact ⟨List.suffix_rfl, fun _ => id⟩
    · cases h
  | cons c s ih =>
    unfold after? at h
    split at h
    · next r hr =>
      obtain rfl := Option.some.inj h
      rw [← List.isPrefixOf?_eq_some_iff_append_eq.1 hr]
      refine ⟨List.suffix_rfl, fun rest' hrest' => ?_⟩
      refine List.suffix_of_suffix_length_le ((List.suffix_append l rest').trans hrest')
        (List.suffix_append l r) ?_
      simpa using hrest'.length_le
    · next hnone =>
      obtain ⟨hs, hlast⟩ := ih h
      refine ⟨hs.trans (List.suffix_cons c s), fun rest' hrest' => ?_⟩
      rcases List.suffix_cons_iff.1 hrest' with hall | hrest'
      · rw [List.isPrefixOf?_eq_some_iff_append_eq.2 hall] at hnone
        cases hnone
      · exact hlast rest' hrest'

/-- A literal that occurs is found. -/
theorem exists_after? (h : l ++ rest <:+ s) : ∃ rest', after? l s = some rest' := by
  induction s with
  | nil =>
    have hl : l = [] := (List.append_eq_nil_iff.1 (List.suffix_nil.1 h)).1
    exact ⟨[], by simp [after?, hl]⟩
  | cons c s ih =>
    unfold after?
    split
    · exact ⟨_, rfl⟩
    · next hnone =>
      rcases List.suffix_cons_iff.1 h with hall | h
      · rw [List.isPrefixOf?_eq_some_iff_append_eq.2 hall] at hnone
        cases hnone
      · exact ih h

/-- **The first occurrence of a literal is as good as any** when a star comes next. -/
theorem after?_spans_iff : (∃ rest, after? l s = some rest ∧ Spans (.star :: ps) rest) ↔
    Spans (.star :: .literal l :: .star :: ps) s := by
  rw [spans_star]
  simp only [spans_literal]
  constructor
  · rintro ⟨rest, hrest, h⟩
    exact ⟨l ++ rest, (after?_eq_some hrest).1, rest, rfl, h⟩
  · rintro ⟨_, hs, rest, rfl, h⟩
    obtain ⟨first, hfirst⟩ := exists_after? hs
    exact ⟨first, hfirst, h.of_suffix ((after?_eq_some hfirst).2 rest hs)⟩

/-! ## Texts that fit -/

theorem fitsFrom_literal (l : List Char) (ps : List Piece) (s : List Char) :
    fitsFrom true (.literal l :: ps) s = true ↔
      ∃ rest, l ++ rest = s ∧ fitsFrom true ps rest = true := by
  simp only [fitsFrom, ↓reduceIte, ← List.isPrefixOf?_eq_some_iff_append_eq]
  cases l.isPrefixOf? s with
  | none => simp
  | some rest => simp

theorem fitsFrom_after (l : List Char) (ps : List Piece) (s : List Char) :
    fitsFrom false (.literal l :: .star :: ps) s = true ↔
      ∃ rest, after? l s = some rest ∧ fitsFrom true (.star :: ps) rest = true := by
  rw [fitsFrom]
  simp only [Bool.false_eq_true, ↓reduceIte, List.isEmpty_cons]
  cases after? l s with
  | none => simp
  | some rest => simp

/-- **What is compared with the pieces of a pattern**: a whole text, or any suffix of a text when a
star has come before. -/
theorem fitsFrom_iff (h : Maximal ps) (s : List Char) :
    (fitsFrom true ps s = true ↔ Spans ps s) ∧
      (fitsFrom false ps s = true ↔ Spans (.star :: ps) s) := by
  induction h generalizing s with
  | nil =>
    refine ⟨?_, ?_⟩
    · simp [fitsFrom, spans_nil]
    · simp [fitsFrom, spans_star, spans_nil]
  | star _ ih =>
    -- Behind a star nothing else is known, whether or not one has come before it.
    refine ⟨(ih s).2, ?_⟩
    rw [spans_star_star]
    exact (ih s).2
  | @literal l ps _ hnext _ ih =>
    refine ⟨?_, ?_⟩
    · rw [fitsFrom_literal, spans_literal]
      exact exists_congr fun rest => and_congr_right fun _ => (ih rest).1
    · cases ps with
      | nil =>
        simp only [fitsFrom, Bool.false_eq_true, ↓reduceIte, List.isEmpty_nil, spans_star,
          spans_literal, spans_nil, List.isSuffixOf_iff_suffix]
        simp
      | cons p ps =>
        cases p with
        | literal l' => exact absurd rfl (hnext l' ps)
        | star =>
          rw [fitsFrom_after, ← after?_spans_iff]
          exact exists_congr fun rest => and_congr_right fun _ => (ih rest).1

/-- **A pattern describes the texts that are put together from its pieces.** Every star can be
replaced by a text, which may be empty, so that all the pieces together come to the text. -/
theorem fits_iff (h : Maximal ps) (s : String) :
    fits ps s = true ↔ ∃ ts, List.Forall₂ Stands ps ts ∧ ts.flatten = s.toList :=
  (fitsFrom_iff h s.toList).1

/-- The pieces of `ab*aab*ba`. -/
def overlapping : List Piece :=
  [.literal ['a', 'b'], .star, .literal ['a', 'a', 'b'], .star, .literal ['b', 'a']]

/-- The literal in the middle is found behind two more letters, and no letter stands for two
literals. -/
theorem fits_iff_overlapping :
    (Filter.parse "(name=ab*aab*ba)").toOption.map Filter.patterns = some [overlapping] ∧
      (∃ ts, List.Forall₂ Stands overlapping ts ∧ ts.flatten = "abaaaabba".toList) ∧
      ¬ ∃ ts, List.Forall₂ Stands overlapping ts ∧ ts.flatten = "abaaba".toList := by
  have hread : (Filter.parse "(name=ab*aab*ba)").toOption.map Filter.patterns =
      some [overlapping] := by decide +kernel
  obtain ⟨e, he, hps⟩ := exists_eq_ok_of_map hread
  have h : Maximal overlapping := (Filter.maximal_of_parse he (by simp [hps])).1
  refine ⟨hread, ?_, ?_⟩
  · exact (fits_iff h "abaaaabba").1 (by decide)
  · exact mt (fits_iff h "abaaba").2 (by decide)

end Piece

end StartOrder
