import StartOrder.Proofs.Success
import StartOrder.Properties

/-!
# Layouts of property files

Keys and values of any characters can be written into a property file, when all characters but
ASCII letters and digits have a backslash before them. An entry may be broken into several lines
behind each of its characters, and lines without entries may stand around it. Whatever the layout,
the entries are read as they were meant.

The lines of an entry are joined one after the other. What has been joined so far is made of whole
units, each a character with its backslash. So it ends with an even number of backslashes, and the
one that breaks the line is always told apart from a character of the entry.

## Main definitions

* `Properties.written`, `Properties.units`: how characters and entries are written
* `Properties.Laid us t`: the units `us` are written as the text `t`, perhaps on several lines
* `Properties.Idle`: a line without an entry
* `Properties.Layout es s`: the entries `es` are written as the text `s`

## Main results

* `Properties.joinNext_of_laid`: the lines of an entry are joined to its units
* `Properties.entry_units`: the units of an entry are read as the entry
* `Properties.parse_of_layout`: every layout is read as its entries
-/

namespace StartOrder.Properties

/-! ## How entries are written -/

/-- The character that is written behind a backslash. -/
def escaped : Char → Char
  | '\t' => 't'
  | '\n' => 'n'
  | '\r' => 'r'
  | '\x0c' => 'f'
  | c => c

/-- A character as it is written: ASCII letters and digits stand alone. -/
def written (c : Char) : List Char :=
  if c.isAlphanum then [c] else ['\\', escaped c]

/-- The units of an entry: the characters of the key, the equals sign, and those of the value. -/
def units (key value : String) : List (List Char) :=
  key.toList.map written ++ ['='] :: value.toList.map written

/-- Units that are written one after the other. Behind each of them the line may be broken by a
backslash and a line feed, and the next line may begin with spaces and tabs. -/
inductive Laid : List (List Char) → List Char → Prop
  | nil : Laid [] []
  | unit (u : List Char) {us : List (List Char)} {t : List Char} (h : Laid us t) :
      Laid (u :: us) (u ++ t)
  | broken (u gap : List Char) (hgap : ∀ c ∈ gap, c = ' ' ∨ c = '\t') {us : List (List Char)}
      {t : List Char} (h : Laid us t) : Laid (u :: us) (u ++ '\\' :: '\n' :: (gap ++ t))

/-- No line has to be broken. -/
theorem laid_flatten : (us : List (List Char)) → Laid us us.flatten
  | [] => .nil
  | u :: us => .unit u (laid_flatten us)

/-- A line without an entry. -/
inductive Idle : List Char → Prop
  | blank (line : List Char) (hblank : ∀ c ∈ line, Text.isBlank c = true) (hfeed : '\n' ∉ line) :
      Idle line
  | comment (gap rest : List Char) (mark : Char) (hgap : ∀ c ∈ gap, Text.isBlank c = true)
      (hmark : mark = '#' ∨ mark = '!') (hfeed : '\n' ∉ gap ++ mark :: rest) :
      Idle (gap ++ mark :: rest)

/-- What is written between two line feeds that break no entry: one entry, or none. -/
inductive Lined : List (String × String) → List Char → Prop
  | idle {line : List Char} (h : Idle line) : Lined [] line
  | entry (key value : String) {t : List Char} (h : Laid (units key value) t) :
      Lined [(key, value)] t

/-- Entries are written one after the other. The last line need not end with a line feed. -/
inductive Layout : List (String × String) → List Char → Prop
  | last {es : List (String × String)} {t : List Char} (h : Lined es t) : Layout es t
  | cons {es es' : List (String × String)} {t s : List Char} (h : Lined es t) (hs : Layout es' s) :
      Layout (es ++ es') (t ++ '\n' :: s)

/-! ## Units -/

/-- What units look like. -/
inductive IsUnit : List Char → Prop
  | alone {c : Char} (h : c.isAlphanum = true ∨ c = '=') : IsUnit [c]
  | escape {c : Char} (hfeed : c ≠ '\n') (hreturn : c ≠ '\r') : IsUnit ['\\', c]

variable {c : Char} {s t u body gap z line : List Char} {us : List (List Char)}
  {ls : List (Nat × List Char)} {es : List (String × String)} {key value : String}

theorem escaped_ne (c : Char) : escaped c ≠ '\n' ∧ escaped c ≠ '\r' := by
  unfold escaped
  split <;> simp_all

theorem written_of_isAlphanum (h : c.isAlphanum = true) : written c = [c] :=
  if_pos h

theorem written_of_not_isAlphanum (h : ¬ c.isAlphanum = true) : written c = ['\\', escaped c] :=
  if_neg h

theorem isUnit_written (c : Char) : IsUnit (written c) := by
  by_cases h : c.isAlphanum = true
  · rw [written_of_isAlphanum h]
    exact .alone (.inl h)
  · rw [written_of_not_isAlphanum h]
    exact .escape (escaped_ne c).1 (escaped_ne c).2

theorem ne_of_isAlphanum {d : Char} (hc : c.isAlphanum = true) (hd : d.isAlphanum = false) :
    c ≠ d := by
  rintro rfl
  exact Bool.false_ne_true (hd.symm.trans hc)

theorem isUnit_of_mem_units (h : u ∈ units key value) : IsUnit u := by
  rw [units, List.mem_append, List.mem_cons] at h
  rcases h with h | rfl | h
  · obtain ⟨c, -, rfl⟩ := List.mem_map.1 h
    exact isUnit_written c
  · exact .alone (.inr rfl)
  · obtain ⟨c, -, rfl⟩ := List.mem_map.1 h
    exact isUnit_written c

/-- One more backslash at the end changes whether the next line belongs to a line. -/
theorem continues_snoc_backslash (line : List Char) :
    continues (line ++ ['\\']) = !continues line := by
  rw [continues, continues, List.reverse_append, List.reverse_singleton, List.singleton_append,
    List.takeWhile_cons_of_pos (by rfl), List.length_cons, Bool.eq_iff_iff]
  simp only [Bool.not_eq_true', beq_iff_eq, beq_eq_false_iff_ne]
  omega

theorem continues_snoc_of_ne (line : List Char) (h : c ≠ '\\') :
    continues (line ++ [c]) = false := by
  rw [continues, List.reverse_append, List.reverse_singleton, List.singleton_append,
    List.takeWhile_cons_of_neg (by simpa using h)]
  rfl

/-- A text of whole units: it has no line feed, begins like an entry, and nothing at its end would
be taken away or join the next line. -/
structure Whole (body : List Char) : Prop where
  feed : '\n' ∉ body
  first : ∀ c, body.head? = some c → Text.isBlank c = false ∧ c ≠ '#' ∧ c ≠ '!'
  last : body.getLast? ≠ some '\r'
  even : continues body = false

theorem Whole.nil : Whole [] where
  feed := List.not_mem_nil
  first := by simp
  last := by simp
  even := rfl

/-- A text of whole units stays one when one more unit comes behind it. -/
theorem Whole.append (h : Whole body) (hu : IsUnit u) : Whole (body ++ u) := by
  obtain ⟨hfeed, hfirst, hlast, heven⟩ : '\n' ∉ u ∧
      (∀ c, u.head? = some c → Text.isBlank c = false ∧ c ≠ '#' ∧ c ≠ '!') ∧
      (∃ c, u.getLast? = some c ∧ c ≠ '\r') ∧ continues (body ++ u) = false := by
    cases hu with
    | @alone c hc =>
      have hblank : Text.isBlank c = false := by
        rcases hc with hc | rfl
        · exact Text.isBlank_of_isAlphanum hc
        · rfl
      have hne {d : Char} (hd : d.isAlphanum = false ∧ '=' ≠ d) : c ≠ d := by
        rcases hc with hc | rfl
        · exact ne_of_isAlphanum hc hd.1
        · exact hd.2
      refine ⟨?_, ?_, ⟨c, rfl, hne (by decide)⟩, continues_snoc_of_ne body (hne (by decide))⟩
      · simpa using (hne (d := '\n') (by decide)).symm
      · rintro _ ⟨⟩
        exact ⟨hblank, hne (by decide), hne (by decide)⟩
    | @escape c hfeed hreturn =>
      refine ⟨by simpa using hfeed.symm, ?_, ⟨c, rfl, hreturn⟩, ?_⟩
      · rintro _ ⟨⟩
        decide
      · rw [List.append_cons]
        by_cases hc : c = '\\'
        · rw [hc, continues_snoc_backslash, continues_snoc_backslash, h.even]
          rfl
        · exact continues_snoc_of_ne _ hc
  refine ⟨?_, ?_, ?_, heven⟩
  · rw [List.mem_append, not_or]
    exact ⟨h.feed, hfeed⟩
  · intro c hc
    cases body with
    | nil => exact hfirst c hc
    | cons d body => exact h.first c hc
  · obtain ⟨c, hc, hne⟩ := hlast
    rw [List.getLast?_append, hc, Option.some_or, ne_eq, Option.some_inj]
    exact hne

theorem IsUnit.ne_nil (hu : IsUnit u) : u ≠ [] := by
  cases hu <;> exact List.cons_ne_nil _ _

theorem Whole.isComment_append (h : Whole body) (hne : body ≠ []) (rest : List Char) :
    isComment (body ++ rest) = false := by
  cases body with
  | nil => exact absurd rfl hne
  | cons c body =>
    obtain ⟨-, hhash, hmark⟩ := h.first c rfl
    simp [isComment, hhash, hmark]

/-- The blanks that a line begins with are taken off, and nothing else. -/
theorem trimStart_append (hgap : ∀ c ∈ gap, Text.isBlank c = true)
    (hs : ∀ c, s.head? = some c → Text.isBlank c = false) : Text.trimStart (gap ++ s) = s := by
  rw [Text.trimStart, List.dropWhile_append_of_pos hgap]
  cases s with
  | nil => rfl
  | cons c s => rw [List.dropWhile_cons_of_neg (by simp [hs c rfl])]

/-! ## Lines -/

theorem lines_append_feed (ht : '\n' ∉ t) (s : List Char) :
    lines (t ++ '\n' :: s) = dropReturn t :: lines s := by
  obtain ⟨p, ps, hsplit⟩ := List.exists_cons_of_ne_nil (List.splitOn_ne_nil '\n' s)
  rw [lines, lines, List.splitOn_append_cons_self_of_not_mem ht, hsplit]
  simp

theorem lines_of_not_mem (ht : '\n' ∉ t) : lines t = if t.isEmpty then [] else [t] := by
  simp [lines, List.splitOn_eq_singleton ht]

theorem dropReturn_of_ne (h : t.getLast? ≠ some '\r') : dropReturn t = t :=
  if_neg h

/-- A line ends here, at a line feed or at the end of the text. -/
def Ends (z : List Char) : Prop :=
  z = [] ∨ ∃ s, z = '\n' :: s

/-- The lines behind the end of a line. -/
def linesBehind : List Char → List (List Char)
  | [] => []
  | _ :: s => lines s

/-- A text begins with its first line, unless it has none. -/
theorem lines_append (ht : '\n' ∉ t) (hreturn : t.getLast? ≠ some '\r') (hz : Ends z) :
    lines (t ++ z) = [] ∧ t = [] ∧ z = [] ∨ lines (t ++ z) = t :: linesBehind z := by
  rcases hz with rfl | ⟨s, rfl⟩
  · rw [List.append_nil, lines_of_not_mem ht]
    cases t with
    | nil => exact .inl ⟨rfl, rfl, rfl⟩
    | cons c t => exact .inr rfl
  · rw [lines_append_feed ht, dropReturn_of_ne hreturn]
    exact .inr rfl

/-- A backslash before a line feed is the last character of a line. -/
theorem lines_append_break (ht : '\n' ∉ t) (s : List Char) :
    lines (t ++ '\\' :: '\n' :: s) = (t ++ ['\\']) :: lines s := by
  rw [List.append_cons, lines_append_feed (by simpa using ht), dropReturn_of_ne (by simp)]

/-! ## Joined lines -/

/-- The next line with all lines joined that belong to it, and the lines that follow. -/
def joinNext : List (Nat × List Char) → List Char × List (Nat × List Char)
  | [] => ([], [])
  | (_, next) :: ls => join (Text.trimStart next) ls

theorem join_eq (line : List Char) (ls : List (Nat × List Char)) : join line ls =
    if continues line then (line.dropLast ++ (joinNext ls).1, (joinNext ls).2) else (line, ls) := by
  cases ls with
  | nil => by_cases h : continues line <;> simp [join, joinNext, h]
  | cons l ls => by_cases h : continues line <;> simp [join, joinNext, h]

/-- An entry begins on the next line. -/
def Starts (ls : List (Nat × List Char)) : Prop :=
  ∃ n line rest, ls = (n, line) :: rest ∧ isComment (Text.trimStart line) = false

theorem logicalLines_of_starts (h : Starts ls) :
    ∃ n, logicalLines ls = (n, (joinNext ls).1) :: logicalLines (joinNext ls).2 := by
  obtain ⟨n, line, rest, rfl, hcomment⟩ := h
  refine ⟨n, ?_⟩
  rw [logicalLines]
  simp only [hcomment, Bool.false_eq_true, ↓reduceIte, joinNext]

section Joining

variable (hgap : ∀ c ∈ gap, c = ' ' ∨ c = '\t') (hbody : Whole body)
include hgap

theorem isBlank_of_mem_gap : ∀ c ∈ gap, Text.isBlank c = true := by
  intro c hc
  rcases hgap c hc with rfl | rfl <;> rfl

include hbody

theorem Whole.feed_gap : '\n' ∉ gap ++ body := by
  rw [List.mem_append, not_or]
  refine ⟨fun h => ?_, hbody.feed⟩
  have hfeed := hgap _ h
  simp at hfeed

theorem Whole.last_gap : (gap ++ body).getLast? ≠ some '\r' := by
  rw [List.getLast?_append, ne_eq, Option.or_eq_some_iff, not_or]
  refine ⟨hbody.last, fun h => ?_⟩
  have hreturn := hgap _ (List.mem_of_getLast? h.2)
  simp at hreturn

/-- A line that ends behind units is joined to nothing. -/
theorem joinNext_of_ends (hz : Ends z) (hls : ls.map Prod.snd = lines (gap ++ body ++ z)) :
    (joinNext ls).1 = body ∧ (joinNext ls).2.map Prod.snd = linesBehind z ∧
      (body ≠ [] → Starts ls) := by
  rcases lines_append (hbody.feed_gap hgap) (hbody.last_gap hgap) hz with
    ⟨hnone, hnil, rfl⟩ | hline
  · rw [hnone, List.map_eq_nil_iff] at hls
    obtain rfl := (List.append_eq_nil_iff.1 hnil).2
    subst hls
    exact ⟨rfl, rfl, fun h => absurd rfl h⟩
  · rw [hline] at hls
    obtain ⟨⟨n, line⟩, rest, rfl, rfl, hrest⟩ := List.map_eq_cons_iff.1 hls
    have htrim : Text.trimStart (gap ++ body) = body :=
      trimStart_append (isBlank_of_mem_gap hgap) fun c hc => (hbody.first c hc).1
    rw [joinNext, htrim, join_eq, hbody.even, if_neg Bool.false_ne_true]
    refine ⟨rfl, hrest, fun hne => ⟨n, _, rest, rfl, ?_⟩⟩
    rw [htrim, ← List.append_nil body]
    exact hbody.isComment_append hne []

/-- A line that is broken behind units is joined to the next one. -/
theorem joinNext_of_break (hne : body ≠ [])
    (hls : ls.map Prod.snd = lines (gap ++ body ++ '\\' :: '\n' :: s)) :
    Starts ls ∧ ∃ rest, rest.map Prod.snd = lines s ∧
      joinNext ls = (body ++ (joinNext rest).1, (joinNext rest).2) := by
  rw [lines_append_break (hbody.feed_gap hgap)] at hls
  obtain ⟨⟨n, line⟩, rest, rfl, rfl, hrest⟩ := List.map_eq_cons_iff.1 hls
  have htrim : Text.trimStart (gap ++ body ++ ['\\']) = body ++ ['\\'] := by
    rw [List.append_assoc gap]
    refine trimStart_append (isBlank_of_mem_gap hgap) fun c hc => ?_
    rw [List.head?_append_of_ne_nil _ hne] at hc
    exact (hbody.first c hc).1
  -- The backslash that breaks the line comes behind an even number of others.
  have hcontinues : continues (body ++ ['\\']) = true := by
    rw [continues_snoc_backslash, hbody.even]
    rfl
  refine ⟨⟨n, _, rest, rfl, ?_⟩, rest, hrest, ?_⟩
  · rw [htrim]
    exact hbody.isComment_append hne _
  · rw [joinNext, htrim, join_eq, if_pos hcontinues, List.dropLast_concat]

end Joining

/-- **The lines of an entry are joined to its units**, behind the units of it that the first of
these lines begins with. -/
theorem joinNext_of_laid (hlaid : Laid us t) (hus : ∀ u ∈ us, IsUnit u) (hbody : Whole body)
    (hgap : ∀ c ∈ gap, c = ' ' ∨ c = '\t') (hz : Ends z)
    (hls : ls.map Prod.snd = lines (gap ++ body ++ t ++ z)) :
    (joinNext ls).1 = body ++ us.flatten ∧ (joinNext ls).2.map Prod.snd = linesBehind z ∧
      (body ++ us.flatten ≠ [] → Starts ls) := by
  induction hlaid generalizing body gap ls with
  | nil =>
    rw [List.append_nil] at hls
    rw [List.flatten_nil, List.append_nil]
    exact joinNext_of_ends hgap hbody hz hls
  | @unit u us t _ ih =>
    rw [List.forall_mem_cons] at hus
    rw [List.flatten_cons, ← List.append_assoc]
    refine ih hus.2 (hbody.append hus.1) hgap ?_
    rw [hls]
    simp only [List.append_assoc]
  | @broken u next hnext us t _ ih =>
    rw [List.forall_mem_cons] at hus
    have hsplit : gap ++ body ++ (u ++ '\\' :: '\n' :: (next ++ t)) ++ z =
        gap ++ (body ++ u) ++ '\\' :: '\n' :: (next ++ [] ++ t ++ z) := by
      simp only [List.append_assoc, List.cons_append, List.nil_append]
    have hne : body ++ u ≠ [] := List.append_ne_nil_of_right_ne_nil _ hus.1.ne_nil
    rw [hsplit] at hls
    obtain ⟨hstarts, rest, hrest, hjoin⟩ :=
      joinNext_of_break hgap (hbody.append hus.1) hne hls
    obtain ⟨hunits, hbehind, -⟩ := ih hus.2 .nil hnext hrest
    rw [hjoin, hunits, List.nil_append, List.flatten_cons, ← List.append_assoc]
    exact ⟨rfl, hbehind, fun _ => hstarts⟩

/-! ## Entries -/

theorem splitKey_plain (hc : c ≠ '\\') (hend : endsKey c = false) (r : List Char) :
    splitKey (c :: r) = (c :: (splitKey r).1, (splitKey r).2) := by
  rw [splitKey]
  · rw [hend, if_neg Bool.false_ne_true]
  · intro d r' hd
    exact absurd hd hc

theorem splitKey_escape (c : Char) (r : List Char) :
    splitKey ('\\' :: c :: r) = ('\\' :: c :: (splitKey r).1, (splitKey r).2) := by
  rw [splitKey]

/-- No character of a key ends it. -/
theorem splitKey_written (key r : List Char) :
    splitKey (key.flatMap written ++ '=' :: r) = (key.flatMap written, '=' :: r) := by
  induction key with
  | nil => rfl
  | cons c key ih =>
    rw [List.flatMap_cons, List.append_assoc]
    by_cases hc : c.isAlphanum = true
    · have hend : endsKey c = false := by
        simp [endsKey, isGap, ne_of_isAlphanum hc]
      rw [written_of_isAlphanum hc, List.singleton_append,
        splitKey_plain (ne_of_isAlphanum hc rfl) hend, ih]
      rfl
    · rw [written_of_not_isAlphanum hc, List.cons_append, List.singleton_append,
        splitKey_escape, ih]
      rfl

theorem unescape_written_append (c : Char) (r : List Char) :
    unescape (written c ++ r) = (unescape r).map (c :: ·) := by
  by_cases hc : c.isAlphanum = true
  · have hne : c ≠ '\\' := ne_of_isAlphanum hc rfl
    rw [written_of_isAlphanum hc, List.singleton_append, unescape] <;> grind
  · have hother : c ∉ ['t', 'n', 'r', 'f', 'u'] := by
      simp only [List.mem_cons, List.not_mem_nil, or_false]
      rintro (rfl | rfl | rfl | rfl | rfl) <;> exact hc rfl
    rw [written_of_not_isAlphanum hc, List.cons_append, List.singleton_append]
    unfold escaped
    split <;> rw [unescape] <;> grind

/-- What has been written is read. -/
theorem unescape_written (s : List Char) : unescape (s.flatMap written) = .ok s := by
  induction s with
  | nil => rfl
  | cons c s ih =>
    rw [List.flatMap_cons, unescape_written_append, ih]
    rfl

theorem dropWhile_isGap_written (s : List Char) :
    (s.flatMap written).dropWhile isGap = s.flatMap written := by
  cases s with
  | nil => rfl
  | cons c s =>
    rw [List.flatMap_cons]
    by_cases hc : c.isAlphanum = true
    · rw [written_of_isAlphanum hc, List.singleton_append]
      exact List.dropWhile_cons_of_neg (by simp [isGap, ne_of_isAlphanum hc])
    · rw [written_of_not_isAlphanum hc]
      exact List.dropWhile_cons_of_neg (by decide)

theorem splitEntry_units (key value : String) : splitEntry (units key value).flatten =
    (key.toList.flatMap written, value.toList.flatMap written) := by
  have hflatten : (units key value).flatten =
      key.toList.flatMap written ++ '=' :: value.toList.flatMap written := by
    simp [units, List.flatMap_def]
  have hmark : dropMark (('=' :: value.toList.flatMap written).dropWhile isGap) =
      value.toList.flatMap written := rfl
  rw [hflatten, splitEntry, splitKey_written]
  dsimp only
  rw [hmark, dropWhile_isGap_written]

/-- **The units of an entry are read as the entry.** -/
theorem entry_units (n : Nat) (key value : String) :
    entry (n, (units key value).flatten) = .ok (key, value) := by
  rw [entry, splitEntry_units]
  dsimp only
  rw [unescape_written, unescape_written]
  simp only [Except.map, Except.mapError, String.ofList_toList]
  rfl

/-! ## Layouts -/

/-- A line without an entry is none without its carriage return either. -/
theorem Idle.dropReturn (h : Idle line) : Idle (dropReturn line) := by
  unfold Properties.dropReturn
  split
  · next hreturn =>
    cases h with
    | blank _ hblank hfeed =>
      exact .blank _ (fun c hc => hblank c (List.dropLast_subset _ hc))
        fun hc => hfeed (List.dropLast_subset _ hc)
    | comment gap rest mark hgap hmark hfeed =>
      have hrest : rest ≠ [] := by
        rintro rfl
        rw [List.getLast?_concat, Option.some_inj] at hreturn
        subst hreturn
        simp at hmark
      have hlast : (gap ++ mark :: rest).dropLast = gap ++ mark :: rest.dropLast := by
        rw [List.dropLast_append_of_ne_nil (List.cons_ne_nil _ _),
          List.dropLast_cons_of_ne_nil hrest]
      have hfeed' : '\n' ∉ (gap ++ mark :: rest).dropLast :=
        fun hc => hfeed (List.dropLast_subset _ hc)
      rw [hlast] at hfeed' ⊢
      exact .comment gap _ mark hgap hmark hfeed'
  · exact h

theorem Idle.isComment_trimStart (h : Idle line) : isComment (Text.trimStart line) = true := by
  cases h with
  | blank line hblank hfeed =>
    rw [← List.append_nil line, trimStart_append hblank (by simp)]
    rfl
  | comment gap rest mark hgap hmark hfeed =>
    have hfirst : ∀ c, (mark :: rest).head? = some c → Text.isBlank c = false := by
      rintro _ ⟨⟩
      rcases hmark with rfl | rfl <;> rfl
    rw [trimStart_append hgap hfirst]
    rcases hmark with rfl | rfl <;> rfl

theorem Idle.not_mem (h : Idle line) : '\n' ∉ line := by
  cases h <;> assumption

/-- Lines without entries are left out. -/
theorem logicalLines_of_idle (n : Nat) (h : Idle line) :
    logicalLines ((n, line) :: ls) = logicalLines ls := by
  rw [logicalLines]
  simp only [h.isComment_trimStart, ↓reduceIte]

/-- The lines of an entry are read as the entry, and a line without one as nothing. -/
theorem logicalLines_of_lined (h : Lined es t) (hz : Ends z)
    (hls : ls.map Prod.snd = lines (t ++ z)) :
    ∃ found rest, logicalLines ls = found ++ logicalLines rest ∧ found.mapM entry = .ok es ∧
      rest.map Prod.snd = linesBehind z := by
  cases h with
  | idle h =>
    obtain ⟨hnone, rfl⟩ | ⟨line, hidle, hline⟩ : lines (t ++ z) = [] ∧ z = [] ∨
        ∃ line, Idle line ∧ lines (t ++ z) = line :: linesBehind z := by
      rcases hz with rfl | ⟨s, rfl⟩
      · rw [List.append_nil, lines_of_not_mem h.not_mem]
        split
        · exact .inl ⟨rfl, rfl⟩
        · exact .inr ⟨t, h, rfl⟩
      · exact .inr ⟨dropReturn t, h.dropReturn, lines_append_feed h.not_mem s⟩
    · rw [hnone, List.map_eq_nil_iff] at hls
      subst hls
      exact ⟨[], [], rfl, rfl, rfl⟩
    · rw [hline] at hls
      obtain ⟨⟨n, line⟩, rest, rfl, rfl, hrest⟩ := List.map_eq_cons_iff.1 hls
      exact ⟨[], rest, logicalLines_of_idle n hidle, rfl, hrest⟩
  | entry key value h =>
    have hgap : ∀ c ∈ ([] : List Char), c = ' ' ∨ c = '\t' := List.forall_mem_nil _
    obtain ⟨hjoin, hbehind, hstarts⟩ :=
      joinNext_of_laid h (fun u hu => isUnit_of_mem_units hu) .nil hgap hz hls
    rw [List.nil_append] at hjoin hstarts
    have hne : (units key value).flatten ≠ [] := by simp [units]
    obtain ⟨n, hn⟩ := logicalLines_of_starts (hstarts hne)
    refine ⟨[(n, (units key value).flatten)], (joinNext ls).2, ?_, ?_, hbehind⟩
    · rw [hn, hjoin]
      rfl
    · rw [List.mapM_cons, entry_units]
      rfl

/-- **All entries of a layout are read**, in their order. -/
theorem mapM_entry_of_layout (h : Layout es s) (hls : ls.map Prod.snd = lines s) :
    (logicalLines ls).mapM entry = .ok es := by
  induction h generalizing ls with
  | @last es t h =>
    rw [← List.append_nil t] at hls
    obtain ⟨found, rest, hfound, hentries, hrest⟩ := logicalLines_of_lined h (.inl rfl) hls
    obtain rfl := List.map_eq_nil_iff.1 hrest
    rw [hfound, logicalLines, List.append_nil]
    exact hentries
  | @cons es es' t s h _ ih =>
    obtain ⟨found, rest, hfound, hentries, hrest⟩ := logicalLines_of_lined h (.inr ⟨s, rfl⟩) hls
    rw [hfound, List.mapM_append, hentries, ih hrest]
    rfl

/-- **Whatever the layout, a property file is read as its entries**: reading succeeds, and each key
has the last value that is given for it. -/
theorem parse_of_layout {text : String} (h : Layout es text.toList) :
    ∃ d, parse text = .ok d ∧ ∀ key, d.get? key = es.reverse.lookup key := by
  refine ⟨.ofList es, ?_, Dictionary.get?_ofList es⟩
  have hls : (((lines text.toList).mapIdx fun i line => (i + 1, line)).map Prod.snd) =
      lines text.toList :=
    List.ext_getElem (by simp) fun i _ _ => by simp
  rw [parse, mapM_entry_of_layout h hls]
  rfl

/-- A comment, a line without an entry, and an entry that is broken in two places, between two
entries of one key. -/
def brokenText : String :=
  "! note\n" ++ "a\\ b=x\n" ++ "\n" ++ "\\#\\\n" ++ "\t \\é=\\\n" ++ "\\n\\ 1\n" ++ "a\\ b=\\\\"

theorem parse_of_layout_broken :
    Layout [("a b", "x"), ("#é", "\n 1"), ("a b", "\\")] brokenText.toList ∧
    ∃ d, parse brokenText = .ok d ∧
      d.get? "a b" = some "\\" ∧ d.get? "#é" = some "\n 1" := by
  have hnote : Idle "! note".toList :=
    .comment [] " note".toList '!' (List.forall_mem_nil _) (.inr rfl) (by decide)
  have hbroken : Laid (units "#é" "\n 1") "\\#\\\n\t \\é=\\\n\\n\\ 1".toList :=
    .broken ['\\', '#'] ['\t', ' '] (by simp) <| .unit ['\\', 'é'] <|
      .broken ['='] [] (List.forall_mem_nil _) <| laid_flatten [['\\', 'n'], ['\\', ' '], ['1']]
  have hlayout : Layout [("a b", "x"), ("#é", "\n 1"), ("a b", "\\")] brokenText.toList :=
    .cons (.idle hnote) <| .cons (.entry "a b" "x" (laid_flatten _)) <|
      .cons (.idle (.blank [] (List.forall_mem_nil _) List.not_mem_nil)) <|
        .cons (.entry "#é" "\n 1" hbroken) <| .last (.entry "a b" "\\" (laid_flatten _))
  obtain ⟨d, hd, hvalues⟩ := parse_of_layout hlayout
  exact ⟨hlayout, d, hd, hvalues "a b", hvalues "#é"⟩

end StartOrder.Properties
