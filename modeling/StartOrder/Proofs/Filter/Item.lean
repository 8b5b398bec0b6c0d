import Mathlib.Data.List.TakeWhile
import StartOrder.Filter.Grammar
import StartOrder.Proofs.Success

/-!
# Items of filters

An item is written as a name, a sign and a value, and each of the three can be told from the
characters alone: a name has none of the characters that a sign begins with, and a value goes on
to the first parenthesis that no backslash stands before. So there is exactly one way to read an
item, and the reader finds it.

## Main definitions

* `Filter.Reads x a q`: a reading gives `a` and leaves the text `q`
* `Filter.Names name key`: a run of characters denotes the name of an attribute
* `Filter.Spells v ms`: a text is a way to write the units of a value
* `Filter.Maximal`: literals of a pattern are as long as can be
* `Filter.Means`: the condition that an item stands for

## Main results

* `Filter.names_iff`: the name is the run without its outer blanks
* `Filter.reads_value_iff`: what the reader of values reads
* `Filter.means_iff`: what an item stands for is `Filter.condition`
* `Filter.reads_item_iff`: what the reader of items reads
-/

namespace StartOrder

/-! ## Blanks around a text -/

namespace Text

variable {s pre key post : List Char} {c : Char}

theorem eq_trimEnd_append (s : List Char) :
    s = trimEnd s ++ (s.reverse.takeWhile isBlank).reverse := by
  rw [trimEnd, ← List.reverse_append, List.takeWhile_append_dropWhile, List.reverse_reverse]

/-- A text is what is left of it between its outer blanks. -/
theorem exists_eq_append_trim (s : List Char) : ∃ pre post, s = pre ++ trim s ++ post ∧
    (∀ c ∈ pre, isBlank c = true) ∧ ∀ c ∈ post, isBlank c = true := by
  refine ⟨s.takeWhile isBlank, ((trimStart s).reverse.takeWhile isBlank).reverse, ?_, ?_, ?_⟩
  · rw [List.append_assoc, trim, ← eq_trimEnd_append, trimStart, List.takeWhile_append_dropWhile]
  · exact fun c hc => List.mem_takeWhile_imp hc
  · exact fun c hc => List.mem_takeWhile_imp (List.mem_reverse.1 hc)

/-- What is left does not begin with a blank. -/
theorem head?_trim (h : (trim s).head? = some c) : isBlank c = false := by
  refine head?_trimStart (s := s) ?_
  rw [eq_trimEnd_append (trimStart s), ← trim, List.head?_append, h]
  rfl

/-- What is left does not end with a blank. -/
theorem getLast?_trim (h : (trim s).getLast? = some c) : isBlank c = false := by
  rw [trim, trimEnd, List.getLast?_reverse] at h
  exact head?_trimStart h

/-- Blanks around a text that has none at its ends are taken off. -/
theorem trim_padded (hpre : ∀ c ∈ pre, isBlank c = true) (hpost : ∀ c ∈ post, isBlank c = true)
    (hne : key ≠ []) (hfirst : ∀ c, key.head? = some c → isBlank c = false)
    (hlast : ∀ c, key.getLast? = some c → isBlank c = false) :
    trim (pre ++ key ++ post) = key := by
  have hstart : trimStart (pre ++ key ++ post) = key ++ post := by
    obtain ⟨c, key, rfl⟩ := List.exists_cons_of_ne_nil hne
    rw [trimStart, List.append_assoc, List.dropWhile_append_of_pos hpre, List.cons_append,
      List.dropWhile_cons_of_neg (by rw [hfirst c rfl]; exact Bool.false_ne_true)]
  have hend : trimEnd (key ++ post) = trimEnd key := by
    rw [trimEnd, List.reverse_append, List.dropWhile_append_of_pos, trimEnd]
    exact fun c hc => hpost c (List.mem_reverse.1 hc)
  have hkey : trimStart key = key := by
    obtain ⟨c, key, rfl⟩ := List.exists_cons_of_ne_nil hne
    rw [trimStart, List.dropWhile_cons_of_neg (by rw [hfirst c rfl]; exact Bool.false_ne_true)]
  have htrim := trim_of_ends hfirst hlast
  rw [trim, hkey] at htrim
  rw [trim, hstart, hend, htrim]

end Text

namespace Filter

/-- A reading gives a result and leaves a text. -/
def Reads {α : Type} {s : List Char} (x : Reading α s) (a : α) (q : List Char) : Prop :=
  ∃ h, x = .ok (a, ⟨q, h⟩)

theorem Reads.length_lt {α : Type} {s q : List Char} {x : Reading α s} {a : α}
    (h : Reads x a q) : q.length < s.length := by
  obtain ⟨hlt, -⟩ := h
  exact hlt

/-! ## Names -/

section Names

variable {name : List Char} {key : String}

/-- A run of characters denotes the name of an attribute, which has no blanks at its ends. -/
structure Names (name : List Char) (key : String) : Prop where
  chars : ∀ c ∈ name, isNameChar c = true
  nonempty : key.toList ≠ []
  padded : ∃ pre post, name = pre ++ key.toList ++ post ∧
    (∀ c ∈ pre, Text.isBlank c = true) ∧ ∀ c ∈ post, Text.isBlank c = true
  first : ∀ c, key.toList.head? = some c → Text.isBlank c = false
  last : ∀ c, key.toList.getLast? = some c → Text.isBlank c = false

/-- A run of characters denotes what is left of it without its outer blanks. -/
theorem names_iff : Names name key ↔ (∀ c ∈ name, isNameChar c = true) ∧
    Text.trim name ≠ [] ∧ key = String.ofList (Text.trim name) := by
  constructor
  · rintro ⟨hchars, hne, ⟨pre, post, rfl, hpre, hpost⟩, hfirst, hlast⟩
    rw [Text.trim_padded hpre hpost hne hfirst hlast]
    exact ⟨hchars, hne, String.ofList_toList.symm⟩
  · rintro ⟨hchars, hne, rfl⟩
    obtain ⟨pre, post, hsplit, hpre, hpost⟩ := Text.exists_eq_append_trim name
    refine ⟨hchars, ?_, ⟨pre, post, ?_, hpre, hpost⟩, fun c => ?_, fun c => ?_⟩ <;>
      rw [String.toList_ofList]
    · exact hne
    · exact hsplit
    · exact Text.head?_trim
    · exact Text.getLast?_trim

/-- A text without blanks at its ends denotes itself. -/
theorem names_of_ends (hne : key.toList ≠ []) (hchars : ∀ c ∈ key.toList, isNameChar c = true)
    (hfirst : ∀ c, key.toList.head? = some c → Text.isBlank c = false)
    (hlast : ∀ c, key.toList.getLast? = some c → Text.isBlank c = false) :
    Names key.toList key where
  chars := hchars
  nonempty := hne
  padded := ⟨[], [], by simp, by simp, by simp⟩
  first := hfirst
  last := hlast

/-- A text without blanks denotes itself. -/
theorem names_toList (hne : key.toList ≠ [])
    (hall : (key.toList.all fun c => isNameChar c && !Text.isBlank c) = true) :
    Names key.toList key := by
  have hchars : ∀ c ∈ key.toList, isNameChar c = true ∧ Text.isBlank c = false := by
    simpa using hall
  exact names_of_ends hne (fun c hc => (hchars c hc).1)
    (fun c hc => (hchars c (List.mem_of_mem_head? hc)).2)
    fun c hc => (hchars c (List.mem_of_getLast? hc)).2

end Names

/-! ## Values -/

/-- A text is a way to write the units of a value. -/
inductive Spells : List Char → List Mark → Prop
  | nil : Spells [] []
  /-- A backslash makes any character stand for itself. -/
  | escaped {c : Char} {v : List Char} {ms : List Mark} (h : Spells v ms) :
      Spells ('\\' :: c :: v) (.char c :: ms)
  | star {v : List Char} {ms : List Mark} (h : Spells v ms) : Spells ('*' :: v) (.star :: ms)
  | plain {c : Char} {v : List Char} {ms : List Mark} (hc : c ∉ ['(', ')', '*', '\\'])
      (h : Spells v ms) : Spells (c :: v) (.char c :: ms)

section Values

variable {s q : List Char} {ms : List Mark}

/-- A unit is read before the units that follow. -/
theorem reads_map_cons {r : List Char} {x : Reading (List Mark) r} {m : Mark}
    (hlt : ∀ {q : List Char}, q.length < r.length → q.length < s.length) :
    Reads (s := s) (x.map fun (ms, ⟨q, h⟩) => (m :: ms, ⟨q, hlt h⟩)) ms q ↔
      ∃ ms', ms = m :: ms' ∧ Reads x ms' q := by
  constructor
  · rintro ⟨h, hx⟩
    obtain ⟨⟨ms', q', h'⟩, hx', heq⟩ := map_eq_ok_iff.1 hx
    simp only [Prod.mk.injEq, Subtype.mk.injEq] at heq
    obtain ⟨rfl, rfl⟩ := heq
    exact ⟨ms', rfl, h', hx'⟩
  · rintro ⟨ms', rfl, h, rfl⟩
    exact ⟨hlt h, rfl⟩

theorem spells_of_reads_value {start : List Char} (h : Reads (value start s) ms q) :
    ∃ v, s = v ++ ')' :: q ∧ Spells v ms := by
  induction s using value.induct generalizing ms with
  | case1 | case3 | case4 =>
    obtain ⟨_, h⟩ := h
    cases h
  | case2 r =>
    obtain ⟨_, h⟩ := h
    cases h
    exact ⟨[], rfl, .nil⟩
  | case5 c r ih =>
    obtain ⟨ms', rfl, h'⟩ := (reads_map_cons _).1 h
    obtain ⟨v, rfl, hv⟩ := ih h'
    exact ⟨_, rfl, hv.escaped⟩
  | case6 r ih =>
    obtain ⟨ms', rfl, h'⟩ := (reads_map_cons _).1 h
    obtain ⟨v, rfl, hv⟩ := ih h'
    exact ⟨_, rfl, hv.star⟩
  | case7 c r hclose hopen hlone hescape hstar ih =>
    rw [value.eq_7 start c r hclose hopen hlone hescape hstar] at h
    obtain ⟨ms', rfl, h'⟩ := (reads_map_cons _).1 h
    obtain ⟨v, rfl, hv⟩ := ih h'
    have hback : c ≠ '\\' := by
      intro hc
      obtain ⟨d, r, hr⟩ := List.exists_cons_of_ne_nil (show v ++ ')' :: q ≠ [] by simp)
      exact hescape d r hc hr
    refine ⟨_, rfl, hv.plain ?_⟩
    simp only [List.mem_cons, List.not_mem_nil, or_false, not_or]
    exact ⟨hopen, hclose, hstar, hback⟩

theorem reads_value_of_spells (start : List Char) {v : List Char} (h : Spells v ms) :
    Reads (value start (v ++ ')' :: q)) ms q := by
  induction h with
  | nil => exact ⟨by simp, rfl⟩
  | escaped _ ih => exact (reads_map_cons _).2 ⟨_, rfl, ih⟩
  | star _ ih => exact (reads_map_cons _).2 ⟨_, rfl, ih⟩
  | @plain c v ms hc _ ih =>
    simp only [List.mem_cons, List.not_mem_nil, or_false, not_or] at hc
    obtain ⟨hopen, hclose, hstar, hescape⟩ := hc
    rw [List.cons_append, value.eq_7 start c _ hclose hopen (fun h => absurd h hescape)
      (fun _ _ h => absurd h hescape) hstar]
    exact (reads_map_cons _).2 ⟨_, rfl, ih⟩

/-- **What the reader of values reads**: the units up to the first parenthesis that closes. -/
theorem reads_value_iff (start : List Char) :
    Reads (value start s) ms q ↔ ∃ v, s = v ++ ')' :: q ∧ Spells v ms := by
  constructor
  · exact spells_of_reads_value
  · rintro ⟨v, rfl, h⟩
    exact reads_value_of_spells start h

end Values

/-! ## Conditions -/

section Conditions

variable {key : String} {op : Comparison} {ms : List Mark} {ps : List Piece} {e : Filter}
  {l : List Char} {c : Char}

/-- The units of a piece. -/
def marks : Piece → List Mark
  | .literal l => l.map .char
  | .star => [.star]

/-- Literals are not empty, and no literal follows another one. -/
inductive Maximal : List Piece → Prop
  | nil : Maximal []
  | star {ps : List Piece} (h : Maximal ps) : Maximal (.star :: ps)
  | literal {l : List Char} {ps : List Piece} (hl : l ≠ [])
      (hnext : ∀ l' ps', ps ≠ .literal l' :: ps') (h : Maximal ps) : Maximal (.literal l :: ps)

/-- The condition that an item stands for. -/
inductive Means (key : String) (op : Comparison) (ms : List Mark) : Filter → Prop
  /-- An equation with a lone star asks for presence. -/
  | present (hop : op = .equal) (hms : ms = [.star]) : Means key op ms (.present key)
  /-- An equation with another star asks for a pattern. -/
  | pattern {ps : List Piece} (hop : op = .equal) (hstar : .star ∈ ms) (hne : ms ≠ [.star])
      (hps : Maximal ps) (hms : ps.flatMap marks = ms) : Means key op ms (.pattern key ps)
  /-- Everywhere else stars stand for themselves. -/
  | compare (hstar : op = .equal → .star ∉ ms) :
      Means key op ms (.compare key op (String.ofList (ms.map Mark.toChar)))

theorem pieces_char_of_literal (h : pieces ms = .literal l :: ps) :
    pieces (.char c :: ms) = .literal (c :: l) :: ps := by
  rw [pieces, h]

theorem pieces_char_of_ne (h : ∀ l ps, pieces ms ≠ .literal l :: ps) :
    pieces (.char c :: ms) = .literal [c] :: pieces ms := by
  rw [pieces]
  split
  · next l ps hms => exact absurd hms (h l ps)
  · rfl

/-- The pieces of units are written with these units. -/
theorem flatMap_marks_pieces : (pieces ms).flatMap marks = ms := by
  induction ms with
  | nil => rfl
  | cons m ms ih =>
    cases m with
    | star => rw [pieces, List.flatMap_cons, ih]; rfl
    | char c =>
      -- The character is put in front of a literal that follows, or is a literal by itself.
      by_cases h : ∃ l ps, pieces ms = .literal l :: ps
      · obtain ⟨l, ps, h⟩ := h
        rw [h, List.flatMap_cons] at ih
        rw [pieces_char_of_literal h, List.flatMap_cons, ← ih]
        rfl
      · simp only [not_exists] at h
        rw [pieces_char_of_ne h, List.flatMap_cons, ih]
        rfl

theorem maximal_pieces : Maximal (pieces ms) := by
  induction ms with
  | nil => exact .nil
  | cons m ms ih =>
    cases m with
    | star => exact ih.star
    | char c =>
      by_cases h : ∃ l ps, pieces ms = .literal l :: ps
      · obtain ⟨l, ps, h⟩ := h
        rw [pieces_char_of_literal h]
        rw [h] at ih
        cases ih with
        | literal _ hnext hps => exact hps.literal (List.cons_ne_nil c l) hnext
      · simp only [not_exists] at h
        rw [pieces_char_of_ne h]
        exact ih.literal (List.cons_ne_nil c []) h

/-- A literal is read back before pieces that do not begin with one. -/
theorem pieces_map_char_append (hl : l ≠ []) (h : ∀ l' ps, pieces ms ≠ .literal l' :: ps) :
    pieces (l.map .char ++ ms) = .literal l :: pieces ms := by
  induction l with
  | nil => exact absurd rfl hl
  | cons c l ih =>
    rw [List.map_cons, List.cons_append]
    by_cases hl : l = []
    · subst hl
      exact pieces_char_of_ne h
    · exact pieces_char_of_literal (ih hl)

/-- Maximal pieces are read back from their units. -/
theorem pieces_flatMap_marks (h : Maximal ps) : pieces (ps.flatMap marks) = ps := by
  induction h with
  | nil => rfl
  | @star ps _ ih =>
    rw [List.flatMap_cons]
    change Piece.star :: pieces (ps.flatMap marks) = _
    rw [ih]
  | @literal l ps hl hnext _ ih =>
    rw [List.flatMap_cons, marks, pieces_map_char_append hl (by rwa [ih]), ih]

/-- **What an item stands for** is the condition that the reader makes of it. -/
theorem means_iff : Means key op ms e ↔ e = condition key op ms := by
  unfold condition
  constructor
  · rintro (⟨rfl, rfl⟩ | ⟨rfl, hstar, hne, hps, rfl⟩ | ⟨hstar⟩)
    · rfl
    · rw [if_pos ⟨rfl, hstar⟩, if_neg hne, pieces_flatMap_marks hps]
    · rw [if_neg fun h => hstar h.1 h.2]
  · rintro rfl
    split
    · next h =>
      split
      · next hms => exact .present h.1 hms
      · next hne => exact .pattern h.1 h.2 hne maximal_pieces flatMap_marks_pieces
    · next h => exact .compare fun hop hstar => h ⟨hop, hstar⟩

end Conditions

/-! ## Items -/

section Items

variable {s t q : List Char} {op : Comparison} {e : Filter}

/-- The characters that a comparison is written with. -/
def sign : Comparison → List Char
  | .equal => ['=']
  | .approx => ['~', '=']
  | .atLeast => ['>', '=']
  | .atMost => ['<', '=']

/-- The text of an item, without the parentheses. -/
inductive DerivesItem : List Char → Filter → Prop
  | mk {name v : List Char} {key : String} {op : Comparison} {ms : List Mark} {e : Filter}
      (hname : Names name key) (hv : Spells v ms) (he : Means key op ms e) :
      DerivesItem (name ++ sign op ++ v) e

theorem operator?_eq_some_iff : operator? s = some (op, t) ↔ s = sign op ++ t := by
  constructor
  · intro h
    unfold operator? at h
    split at h <;> cases h <;> rfl
  · rintro rfl
    cases op <;> rfl

/-- No character of a name begins a sign. -/
theorem head?_sign {c : Char} (h : (sign op).head? = some c) : isNameChar c = false := by
  cases op <;> cases h <;> rfl

/-- The reader takes an item apart at the first sign. -/
theorem reads_item : Reads (item s) e q ↔ ∃ op t ms, Text.trim (s.takeWhile isNameChar) ≠ [] ∧
    s.dropWhile isNameChar = sign op ++ t ∧ Reads (value s t) ms q ∧
      e = condition (String.ofList (Text.trim (s.takeWhile isNameChar))) op ms := by
  unfold item
  constructor
  · rintro ⟨h, hitem⟩
    dsimp only at hitem
    split at hitem
    · cases hitem
    · split at hitem
      · cases hitem
      · next hname =>
        split at hitem
        · cases hitem
        · next op t hop =>
          obtain ⟨⟨ms, r, hr⟩, hvalue, hitem⟩ := bind_eq_ok_iff.1 hitem
          cases hitem
          refine ⟨op, t, ms, ?_, operator?_eq_some_iff.1 hop, ⟨hr, hvalue⟩, rfl⟩
          exact fun hnil => hname (List.isEmpty_iff.2 hnil)
  · rintro ⟨op, t, ms, hname, hop, ⟨h, hvalue⟩, rfl⟩
    have hoperator := operator?_eq_some_iff.2 hop
    have hlen : q.length < s.length :=
      (h.trans (length_of_operator? hoperator)).trans_le (length_dropWhile_isNameChar_le s)
    have hne : s.takeWhile isNameChar ≠ [] := fun hnil => hname (by rw [hnil, Text.trim_nil])
    refine ⟨hlen, ?_⟩
    dsimp only
    rw [if_neg fun hnil => hne (List.isEmpty_iff.1 hnil),
      if_neg fun hnil => hname (List.isEmpty_iff.1 hnil)]
    split
    · next hnone =>
      rw [hoperator] at hnone
      cases hnone
    · next op' t' hop' =>
      cases hoperator.symm.trans hop'
      rw [hvalue]
      rfl

/-- **What the reader of items reads**: an item and the parenthesis that closes it. -/
theorem reads_item_iff : Reads (item s) e q ↔ ∃ t, s = t ++ ')' :: q ∧ DerivesItem t e := by
  rw [reads_item]
  constructor
  · rintro ⟨op, t, ms, hname, hop, hvalue, rfl⟩
    obtain ⟨v, rfl, hv⟩ := (reads_value_iff s).1 hvalue
    refine ⟨s.takeWhile isNameChar ++ sign op ++ v, ?_,
      .mk (names_iff.2 ⟨fun c hc => List.mem_takeWhile_imp hc, hname, rfl⟩) hv (means_iff.2 rfl)⟩
    rw [List.append_assoc, List.append_assoc, ← hop, List.takeWhile_append_dropWhile]
  · rintro ⟨_, rfl, @⟨name, v, key, op, ms, e, hname, hv, he⟩⟩
    obtain ⟨hchars, hne, rfl⟩ := names_iff.1 hname
    obtain ⟨c, r, hsign⟩ : ∃ c r, sign op = c :: r := by cases op <;> exact ⟨_, _, rfl⟩
    have hc : isNameChar c = false := head?_sign (by rw [hsign]; rfl)
    have htake : (name ++ sign op ++ v ++ ')' :: q).takeWhile isNameChar = name := by
      simp [hsign, List.takeWhile_append_of_pos hchars, hc]
    have hdrop : (name ++ sign op ++ v ++ ')' :: q).dropWhile isNameChar =
        sign op ++ (v ++ ')' :: q) := by
      simp [hsign, List.dropWhile_append_of_pos hchars, hc]
    rw [htake]
    exact ⟨op, v ++ ')' :: q, ms, hne, hdrop, reads_value_of_spells _ hv, means_iff.1 he⟩

end Items

end Filter

end StartOrder
