import Mathlib.Data.List.Induction
import StartOrder.Proofs.Properties.Layout

/-!
# Property files that are refused

A property file is refused for one reason only: a key or a value has an escape for a code point
without the digits of one. Where the escapes of a text begin depends on its backslashes from the
left, which are taken in pairs with the characters that they escape. A line that ends with a
backslash left over goes on on the next one, so that joined lines and what they are cut into are
paired to their ends, and no escape reaches from the key into the value.

The digits are read as a number, which may have a plus before it. So three digits behind a plus do
as well as four digits.

## Main definitions

* `Properties.Paired`: every backslash of a text escapes a character of it
* `Properties.Malformed`: an escape of a text does not have the digits that it needs
* `Properties.Splits`: how a line is cut into a key and a value
* `Properties.Joins`, `Properties.Holds`: how lines are joined, and the entries that they hold

## Main results

* `Properties.codePoint?_ne_none_iff`: which digits are accepted
* `Properties.exists_unescape_eq_error_iff`: a key or value is refused just when it is malformed
* `Properties.splits_iff`, `Properties.holds_iff`: cutting and joining do what is said of them
* `Properties.exists_parse_eq_error_iff`: which files are refused
-/

namespace StartOrder.Properties

/-- A text in which every backslash stands before a character that it escapes, so that a backslash
behind the text begins an escape. -/
inductive Paired : List Char → Prop
  | nil : Paired []
  | plain {c : Char} (hc : c ≠ '\\') {s : List Char} (h : Paired s) : Paired (c :: s)
  | escape (c : Char) {s : List Char} (h : Paired s) : Paired ('\\' :: c :: s)

/-- A hexadecimal digit, in either case. -/
def IsHexDigit (c : Char) : Prop :=
  '0' ≤ c ∧ c ≤ '9' ∨ 'a' ≤ c ∧ c ≤ 'f' ∨ 'A' ≤ c ∧ c ≤ 'F'

instance (c : Char) : Decidable (IsHexDigit c) :=
  inferInstanceAs (Decidable (_ ∨ _))

/-- A text begins with four hexadecimal digits that name no surrogate. These are the code points
whose digits begin with `d` and a digit from `8` onwards. -/
def BeginsCodePoint (s : List Char) : Prop :=
  ∃ a b c d r, s = a :: b :: c :: d :: r ∧
    (IsHexDigit a ∧ IsHexDigit b ∧ IsHexDigit c ∧ IsHexDigit d) ∧
      ¬((a = 'd' ∨ a = 'D') ∧ '8' ≤ b)

/-- A text begins with a plus and three hexadecimal digits. -/
def BeginsSigned (s : List Char) : Prop :=
  ∃ b c d r, s = '+' :: b :: c :: d :: r ∧ IsHexDigit b ∧ IsHexDigit c ∧ IsHexDigit d

/-- Read from left to right, a text has an escape for a code point without the digits of one. -/
def Malformed (s : List Char) : Prop :=
  ∃ pre rest, s = pre ++ '\\' :: 'u' :: rest ∧ Paired pre ∧
    ¬(BeginsCodePoint rest ∨ BeginsSigned rest)

variable {a b c d : Char} {s r : List Char}

/-! ## Digits -/

/-- The value of a digit. All digits from `8` onwards have greater values, since the letters stand
behind the decimal digits. -/
theorem exists_hexDigit? (h : IsHexDigit c) : ∃ v, Text.hexDigit? c = some v ∧ v < 16 ∧
    (v = 13 ↔ c = 'd' ∨ c = 'D') ∧ (8 ≤ v ↔ '8' ≤ c) := by
  simp only [IsHexDigit, Text.hexDigit?, Char.isDigit, Char.le_def, UInt32.le_iff_toNat_le,
    ← Char.toNat_inj, Char.toNat, Bool.and_eq_true, decide_eq_true_eq, Char.reduceVal,
    UInt32.reduceToNat] at h ⊢
  generalize c.val.toNat = n at h ⊢
  rcases h with h | h | h
  · exact ⟨n - 48, if_pos h, by omega⟩
  · refine ⟨n - 97 + 10, ?_, by omega⟩
    rw [if_neg (by omega), if_pos h]
  · refine ⟨n - 65 + 10, ?_, by omega⟩
    rw [if_neg (by omega), if_neg (by omega), if_pos h]

theorem hexDigit?_eq_none (h : ¬IsHexDigit c) : Text.hexDigit? c = none := by
  simp only [IsHexDigit, Text.hexDigit?, Char.isDigit, Char.le_def, UInt32.le_iff_toNat_le,
    Bool.and_eq_true, decide_eq_true_eq] at h ⊢
  rw [not_or, not_or] at h
  rw [if_neg h.1, if_neg h.2.1, if_neg h.2.2]

/-- Only digits have a value. -/
theorem hex?_eq_none {cs : List Char} (hc : c ∈ cs) (h : ¬IsHexDigit c) :
    Text.hex? cs = none := by
  suffices hfold : ∀ n, cs.foldlM (fun n c => (Text.hexDigit? c).map (16 * n + ·)) n = none from
    hfold 0
  induction cs with
  | nil => cases hc
  | cons d cs ih =>
    intro n
    rw [List.foldlM_cons]
    rcases List.mem_cons.1 hc with rfl | hc
    · rw [hexDigit?_eq_none h]
      rfl
    · cases Text.hexDigit? d with
      | none => rfl
      | some v => exact ih hc _

/-- Digits are accepted when their number is one of a character. -/
theorem codePoint?_eq_none_iff {n : Nat}
    (h : Text.hex? (if a = '+' then [b, c, d] else [a, b, c, d]) = some n) :
    codePoint? a b c d = none ↔ ¬n.isValidChar := by
  have hread : codePoint? a b c d =
      if hn : n.isValidChar then some (Char.ofNatAux n hn) else none := by
    rw [codePoint?, h]
    rfl
  by_cases hvalid : n.isValidChar
  · rw [hread, dif_pos hvalid]
    exact iff_of_false nofun (not_not_intro hvalid)
  · rw [hread, dif_neg hvalid]
    exact iff_of_true rfl hvalid

/-- Three digits behind a plus name no surrogate. -/
theorem codePoint?_signed_ne_none (hb : IsHexDigit b) (hc : IsHexDigit c) (hd : IsHexDigit d) :
    codePoint? '+' b c d ≠ none := by
  obtain ⟨v, hv, hvlt, -⟩ := exists_hexDigit? hb
  obtain ⟨w, hw, hwlt, -⟩ := exists_hexDigit? hc
  obtain ⟨x, hx, hxlt, -⟩ := exists_hexDigit? hd
  have hhex : Text.hex? (if '+' = '+' then [b, c, d] else ['+', b, c, d]) =
      some (16 * (16 * v + w) + x) := by
    simp [Text.hex?, hv, hw, hx]
  rw [Ne, codePoint?_eq_none_iff hhex, not_not]
  exact .inl (by omega)

/-- Four digits name a character unless they name a surrogate. -/
theorem codePoint?_eq_none_iff_of_isHexDigit (ha : IsHexDigit a) (hb : IsHexDigit b)
    (hc : IsHexDigit c) (hd : IsHexDigit d) :
    codePoint? a b c d = none ↔ (a = 'd' ∨ a = 'D') ∧ '8' ≤ b := by
  obtain ⟨u, hu, hult, hfirst, -⟩ := exists_hexDigit? ha
  obtain ⟨v, hv, hvlt, -, hsecond⟩ := exists_hexDigit? hb
  obtain ⟨w, hw, hwlt, -⟩ := exists_hexDigit? hc
  obtain ⟨x, hx, hxlt, -⟩ := exists_hexDigit? hd
  have hne : a ≠ '+' := by
    rintro rfl
    exact absurd ha (by decide)
  have hvalid : (16 * (16 * (16 * u + v) + w) + x).isValidChar ↔ ¬(u = 13 ∧ 8 ≤ v) := by
    unfold Nat.isValidChar
    omega
  have hhex : Text.hex? (if a = '+' then [b, c, d] else [a, b, c, d]) =
      some (16 * (16 * (16 * u + v) + w) + x) := by
    simp [Text.hex?, hne, hu, hv, hw, hx]
  rw [codePoint?_eq_none_iff hhex, hvalid, not_not, hfirst, hsecond]

/-- A character other than a digit is refused, unless it is a plus in the first place. -/
theorem codePoint?_eq_none {e : Char} (he : e ∈ [b, c, d] ∨ a ≠ '+' ∧ e = a)
    (h : ¬IsHexDigit e) : codePoint? a b c d = none := by
  have hnone : Text.hex? (if a = '+' then [b, c, d] else [a, b, c, d]) = none := by
    split
    · next hplus => exact hex?_eq_none (he.resolve_right fun hne => hne.1 hplus) h
    · refine hex?_eq_none (List.mem_cons.2 ?_) h
      exact he.symm.imp_left And.right
  rw [codePoint?, hnone]
  rfl

/-- **When the digits of an escape are accepted.** -/
theorem codePoint?_ne_none_iff : codePoint? a b c d ≠ none ↔
    (IsHexDigit a ∧ ¬((a = 'd' ∨ a = 'D') ∧ '8' ≤ b) ∨ a = '+') ∧
      IsHexDigit b ∧ IsHexDigit c ∧ IsHexDigit d := by
  constructor
  · intro h
    have hdigit {e : Char} (he : e ∈ [b, c, d] ∨ a ≠ '+' ∧ e = a) : IsHexDigit e :=
      by_contra fun hnot => h (codePoint?_eq_none he hnot)
    have hb : IsHexDigit b := hdigit (.inl (by simp))
    have hc : IsHexDigit c := hdigit (.inl (by simp))
    have hd : IsHexDigit d := hdigit (.inl (by simp))
    refine ⟨?_, hb, hc, hd⟩
    by_cases hplus : a = '+'
    · exact .inr hplus
    · have ha : IsHexDigit a := hdigit (.inr ⟨hplus, rfl⟩)
      exact .inl ⟨ha, fun hs => h ((codePoint?_eq_none_iff_of_isHexDigit ha hb hc hd).2 hs)⟩
  · rintro ⟨⟨ha, hs⟩ | rfl, hb, hc, hd⟩
    · exact fun h => hs ((codePoint?_eq_none_iff_of_isHexDigit ha hb hc hd).1 h)
    · exact codePoint?_signed_ne_none hb hc hd

theorem beginsEscape_cons_iff :
    BeginsCodePoint (a :: b :: c :: d :: r) ∨ BeginsSigned (a :: b :: c :: d :: r) ↔
      codePoint? a b c d ≠ none := by
  rw [codePoint?_ne_none_iff]
  constructor
  · rintro (⟨_, _, _, _, _, ⟨⟩, ⟨ha, hbehind⟩, hs⟩ | ⟨_, _, _, _, ⟨⟩, hbehind⟩)
    · exact ⟨.inl ⟨ha, hs⟩, hbehind⟩
    · exact ⟨.inr rfl, hbehind⟩
  · rintro ⟨⟨ha, hs⟩ | rfl, hbehind⟩
    · exact .inl ⟨a, b, c, d, r, rfl, ⟨ha, hbehind⟩, hs⟩
    · exact .inr ⟨b, c, d, r, rfl, hbehind⟩

/-! ## Reading escapes from left to right -/

theorem paired_cons_iff (hc : c ≠ '\\') : Paired (c :: s) ↔ Paired s := by
  constructor
  · rintro (_ | ⟨-, h⟩ | _)
    · exact h
    · exact absurd rfl hc
  · exact .plain hc

theorem paired_escape_iff : Paired ('\\' :: c :: s) ↔ Paired s := by
  constructor
  · rintro (_ | ⟨h, -⟩ | ⟨-, h⟩)
    · exact absurd rfl h
    · exact h
  · exact .escape c

theorem not_paired_singleton : ¬Paired ['\\'] := by
  rintro (_ | ⟨h, -⟩)
  exact h rfl

theorem not_malformed_of_length (h : s.length < 2) : ¬Malformed s := by
  rintro ⟨pre, rest, rfl, -⟩
  simp at h
  omega

theorem malformed_cons_iff (hc : c ≠ '\\') : Malformed (c :: s) ↔ Malformed s := by
  constructor
  · rintro ⟨pre, rest, hs, hpre, hrest⟩
    cases pre with
    | nil =>
      injection hs with hc'
      exact absurd hc' hc
    | cons c' pre =>
      injection hs with hc' hs
      subst hc'
      exact ⟨pre, rest, hs, (paired_cons_iff hc).1 hpre, hrest⟩
  · rintro ⟨pre, rest, rfl, hpre, hrest⟩
    exact ⟨c :: pre, rest, rfl, .plain hc hpre, hrest⟩

/-- An escape is malformed where it stands or behind it. -/
theorem malformed_escape_iff : Malformed ('\\' :: c :: s) ↔
    c = 'u' ∧ ¬(BeginsCodePoint s ∨ BeginsSigned s) ∨ Malformed s := by
  constructor
  · rintro ⟨pre, rest, hs, hpre, hrest⟩
    rcases pre with _ | ⟨c₁, _ | ⟨c₂, pre⟩⟩
    · injection hs with _ hs
      injection hs with hc hs
      exact .inl ⟨hc, hs ▸ hrest⟩
    · injection hs with hc hs
      exact absurd (hc ▸ hpre) not_paired_singleton
    · injection hs with hc₁ hs
      injection hs with hc₂ hs
      subst hc₁
      exact .inr ⟨pre, rest, hs, paired_escape_iff.1 hpre, hrest⟩
  · rintro (⟨rfl, hs⟩ | ⟨pre, rest, rfl, hpre, hrest⟩)
    · exact ⟨[], s, rfl, .nil, hs⟩
    · exact ⟨'\\' :: c :: pre, rest, rfl, .escape c hpre, hrest⟩

theorem malformed_escape_of_ne (hc : c ≠ 'u') : Malformed ('\\' :: c :: s) ↔ Malformed s := by
  rw [malformed_escape_iff, or_iff_right fun h => hc h.1]

/-- The digits of an escape for a character are ordinary characters. -/
theorem malformed_digits_iff (h : codePoint? a b c d ≠ none) :
    Malformed (a :: b :: c :: d :: r) ↔ Malformed r := by
  have hne {e : Char} (he : IsHexDigit e) : e ≠ '\\' := by
    rintro rfl
    exact absurd he (by decide)
  obtain ⟨hfirst, hb, hc, hd⟩ := codePoint?_ne_none_iff.1 h
  have ha : a ≠ '\\' := by
    rcases hfirst with ⟨ha, -⟩ | rfl
    · exact hne ha
    · decide
  rw [malformed_cons_iff ha, malformed_cons_iff (hne hb), malformed_cons_iff (hne hc),
    malformed_cons_iff (hne hd)]

/-- **A key or value is refused just when it is malformed.** -/
theorem exists_unescape_eq_error_iff : (∃ x, unescape s = .error x) ↔ Malformed s := by
  -- An escape for a code point is decided by the digits behind it. All others, and the characters
  -- that stand for themselves, leave the decision to what comes behind.
  fun_induction unescape s with
  | case1 => simp [not_malformed_of_length]
  | case2 => simp [not_malformed_of_length]
  | case3 r ih => rw [exists_map_eq_error_iff, ih, malformed_escape_of_ne (by decide)]
  | case4 r ih => rw [exists_map_eq_error_iff, ih, malformed_escape_of_ne (by decide)]
  | case5 r ih => rw [exists_map_eq_error_iff, ih, malformed_escape_of_ne (by decide)]
  | case6 r ih => rw [exists_map_eq_error_iff, ih, malformed_escape_of_ne (by decide)]
  | case7 a b c d r x hx ih =>
    have hdigits : codePoint? a b c d ≠ none := by
      rw [hx]
      exact Option.some_ne_none x
    rw [exists_map_eq_error_iff, ih, malformed_escape_iff, malformed_digits_iff hdigits,
      beginsEscape_cons_iff, or_iff_right fun h => h.2 hdigits]
  | case8 a b c d r hx =>
    refine iff_of_true ⟨_, rfl⟩ (malformed_escape_iff.2 (.inl ⟨rfl, fun h => ?_⟩))
    exact beginsEscape_cons_iff.1 h hx
  | case9 r hr =>
    refine iff_of_true ⟨_, rfl⟩ (malformed_escape_iff.2 (.inl ⟨rfl, ?_⟩))
    rintro (⟨a, b, c, d, r, rfl, -⟩ | ⟨b, c, d, r, rfl, -⟩)
    · exact hr _ _ _ _ _ rfl
    · exact hr _ _ _ _ _ rfl
  | case10 c r _ _ _ _ _ hu ih => rw [exists_map_eq_error_iff, ih, malformed_escape_of_ne hu]
  | case11 c r hend _ _ _ _ _ _ hescape ih =>
    have hc : c ≠ '\\' := by
      rintro rfl
      cases r with
      | nil => exact hend rfl rfl
      | cons c r => exact hescape c r rfl rfl
    rw [exists_map_eq_error_iff, ih, malformed_cons_iff hc]

/-! ## Keys and values -/

/-- A text of which no character ends a key. -/
inductive KeyText : List Char → Prop
  | nil : KeyText []
  | plain {c : Char} (hc : c ≠ '\\') (hend : endsKey c = false) {s : List Char} (h : KeyText s) :
      KeyText (c :: s)
  | escape (c : Char) {s : List Char} (h : KeyText s) : KeyText ('\\' :: c :: s)

/-- A line is cut at the first character that ends a key: into the key, and a value from which the
blanks before it are taken off, with one equals sign or colon among them. -/
inductive Splits : List Char → List Char → List Char → Prop
  | marked {key gap gap' value : List Char} {mark : Char} (hkey : KeyText key)
      (hgap : ∀ c ∈ gap, isGap c = true) (hmark : mark = '=' ∨ mark = ':')
      (hgap' : ∀ c ∈ gap', isGap c = true) (hvalue : ∀ c, value.head? = some c → isGap c = false) :
      Splits (key ++ (gap ++ mark :: (gap' ++ value))) key value
  | unmarked {key gap value : List Char} (hkey : KeyText key) (hgap : ∀ c ∈ gap, isGap c = true)
      (hne : gap = [] → value = [])
      (hvalue : ∀ c, value.head? = some c → endsKey c = false) :
      Splits (key ++ (gap ++ value)) key value

variable {line key value rest joined : List Char} {ls : List (Nat × List Char)}

theorem endsKey_of_isGap (h : isGap c = true) : endsKey c = true := by
  rw [endsKey, h, Bool.or_true]

theorem endsKey_eq_true_iff : endsKey c = true ↔ (c = '=' ∨ c = ':') ∨ isGap c = true := by
  simp [endsKey]

theorem splitKey_of_endsKey (h : endsKey c = true) : splitKey (c :: r) = ([], c :: r) := by
  rw [splitKey, if_pos h]
  rintro d r' rfl
  cases h

theorem dropWhile_isGap (h : ∀ c, value.head? = some c → isGap c = false) :
    value.dropWhile isGap = value := by
  cases value with
  | nil => rfl
  | cons c value => exact List.dropWhile_cons_of_neg (by simp [h c rfl])

theorem dropMark_of_not_endsKey (h : ∀ c, value.head? = some c → endsKey c = false) :
    dropMark value = value := by
  unfold dropMark
  split
  · exact absurd (h _ rfl) (by decide)
  · exact absurd (h _ rfl) (by decide)
  · rfl

theorem splitKey_append (hkey : KeyText key)
    (hrest : ∀ c, rest.head? = some c → endsKey c = true) :
    splitKey (key ++ rest) = (key, rest) := by
  induction hkey with
  | nil =>
    cases rest with
    | nil => rfl
    | cons c rest => exact splitKey_of_endsKey (hrest c rfl)
  | plain hc hend _ ih => rw [List.cons_append, splitKey_plain hc hend, ih]
  | escape c _ ih => rw [List.cons_append, List.cons_append, splitKey_escape, ih]

/-- A line is cut into its key and what begins with a character that ends the key. -/
theorem exists_eq_append_of_paired (h : Paired line) : ∃ key rest, line = key ++ rest ∧
    KeyText key ∧ ∀ c, rest.head? = some c → endsKey c = true := by
  induction h with
  | nil => exact ⟨[], [], rfl, .nil, by simp⟩
  | @plain c hc s h ih =>
    cases hend : endsKey c with
    | true => exact ⟨[], c :: s, rfl, .nil, fun d hd => Option.some.inj hd ▸ hend⟩
    | false =>
      obtain ⟨key, rest, rfl, hkey, hrest⟩ := ih
      exact ⟨c :: key, rest, rfl, .plain hc hend hkey, hrest⟩
  | escape c h ih =>
    obtain ⟨key, rest, rfl, hkey, hrest⟩ := ih
    exact ⟨'\\' :: c :: key, rest, rfl, .escape c hkey, hrest⟩

theorem endsKey_of_head?_append {gap : List Char} (hgap : ∀ c ∈ gap, isGap c = true)
    (hs : gap = [] → ∀ c, s.head? = some c → endsKey c = true) :
    ∀ c, (gap ++ s).head? = some c → endsKey c = true := by
  intro c hc
  cases gap with
  | nil => exact hs rfl c hc
  | cons d gap =>
    obtain rfl := Option.some.inj hc
    exact endsKey_of_isGap (hgap _ List.mem_cons_self)

theorem splitEntry_of_splits (h : Splits line key value) : splitEntry line = (key, value) := by
  cases h with
  | @marked _ gap gap' _ mark hkey hgap hmark hgap' hvalue =>
    have hends : ∀ c, (gap ++ mark :: (gap' ++ value)).head? = some c → endsKey c = true := by
      refine endsKey_of_head?_append hgap ?_
      rintro - _ ⟨⟩
      exact endsKey_eq_true_iff.2 (.inl hmark)
    have hmarkGap : isGap mark = false := by
      rcases hmark with rfl | rfl <;> rfl
    have hdropMark : dropMark (mark :: (gap' ++ value)) = gap' ++ value := by
      rcases hmark with rfl | rfl <;> rfl
    rw [splitEntry, splitKey_append hkey hends]
    dsimp only
    rw [List.dropWhile_append_of_pos hgap, List.dropWhile_cons_of_neg (by simp [hmarkGap]),
      hdropMark, List.dropWhile_append_of_pos hgap', dropWhile_isGap hvalue]
  | @unmarked _ gap _ hkey hgap hne hvalue =>
    have hends : ∀ c, (gap ++ value).head? = some c → endsKey c = true := by
      refine endsKey_of_head?_append hgap fun hnil c hc => ?_
      rw [hne hnil] at hc
      cases hc
    have hvalueGap : ∀ c, value.head? = some c → isGap c = false := fun c hc =>
      Bool.eq_false_iff.2 fun h =>
        Bool.false_ne_true ((hvalue c hc).symm.trans (endsKey_of_isGap h))
    rw [splitEntry, splitKey_append hkey hends]
    dsimp only
    rw [List.dropWhile_append_of_pos hgap, dropWhile_isGap hvalueGap,
      dropMark_of_not_endsKey hvalue, dropWhile_isGap hvalueGap]

theorem isGap_of_mem_takeWhile : ∀ c ∈ s.takeWhile isGap, isGap c = true :=
  List.all_eq_true.1 List.all_takeWhile

theorem isGap_of_head?_dropWhile : ∀ c, (s.dropWhile isGap).head? = some c → isGap c = false := by
  intro c hc
  have hhead := List.head?_dropWhile_not isGap s
  rw [hc] at hhead
  exact hhead

/-- Every line is cut in some way. -/
theorem exists_splits (h : Paired line) : ∃ key value, Splits line key value := by
  obtain ⟨key, rest, rfl, hkey, hrest⟩ := exists_eq_append_of_paired h
  have hsplit : rest = rest.takeWhile isGap ++ rest.dropWhile isGap :=
    List.takeWhile_append_dropWhile.symm
  have hgap : ∀ c ∈ rest.takeWhile isGap, isGap c = true := isGap_of_mem_takeWhile
  have hhead : ∀ c, (rest.dropWhile isGap).head? = some c → isGap c = false :=
    isGap_of_head?_dropWhile
  generalize rest.takeWhile isGap = gap at hsplit hgap
  generalize rest.dropWhile isGap = behind at hsplit hhead
  subst hsplit
  by_cases hmark : ∃ mark s, behind = mark :: s ∧ (mark = '=' ∨ mark = ':')
  · obtain ⟨mark, s, rfl, hmark⟩ := hmark
    have hsplits := Splits.marked hkey hgap hmark (isGap_of_mem_takeWhile (s := s))
      (isGap_of_head?_dropWhile (s := s))
    rw [List.takeWhile_append_dropWhile] at hsplits
    exact ⟨key, _, hsplits⟩
  · have hvalue : ∀ c, behind.head? = some c → endsKey c = false := by
      intro c hc
      rw [Bool.eq_false_iff, ne_eq, endsKey_eq_true_iff, hhead c hc]
      rintro (hc' | hc')
      · cases behind with
        | nil => cases hc
        | cons d behind => exact hmark ⟨d, behind, rfl, by rwa [Option.some.inj hc]⟩
      · cases hc'
    refine ⟨key, behind, .unmarked hkey hgap ?_ hvalue⟩
    rintro rfl
    cases behind with
    | nil => rfl
    | cons c behind => exact absurd (hrest c rfl) (by simp [hvalue c rfl])

/-- **How a line is cut into a key and a value.** -/
theorem splits_iff (h : Paired line) :
    Splits line key value ↔ splitEntry line = (key, value) := by
  refine ⟨splitEntry_of_splits, fun hsplit => ?_⟩
  obtain ⟨key', value', hsplits⟩ := exists_splits h
  have heq := (splitEntry_of_splits hsplits).symm.trans hsplit
  injection heq with hkey hvalue
  rwa [← hkey, ← hvalue]

/-! ## Lines that are joined -/

/-- A text that ends with a backslash which escapes nothing goes on on the next line, without the
backslash and the blanks that the line begins with. -/
inductive Joins : List Char → List (List Char) → List Char → List (List Char) → Prop
  | whole {line : List Char} (h : Paired line) (lines : List (List Char)) :
      Joins line lines line lines
  | last {line : List Char} (h : Paired line) : Joins (line ++ ['\\']) [] line []
  | next {line next joined : List Char} {lines rest : List (List Char)} (h : Paired line)
      (hj : Joins (line ++ Text.trimStart next) lines joined rest) :
      Joins (line ++ ['\\']) (next :: lines) joined rest

/-- The lines hold an entry. -/
inductive Holds : List (List Char) → List Char → Prop
  | here {line joined : List Char} {lines rest : List (List Char)}
      (h : isComment (Text.trimStart line) = false)
      (hj : Joins (Text.trimStart line) lines joined rest) : Holds (line :: lines) joined
  | behindComment {line entry : List Char} {lines : List (List Char)}
      (h : isComment (Text.trimStart line) = true) (he : Holds lines entry) :
      Holds (line :: lines) entry
  | behindEntry {line joined entry : List Char} {lines rest : List (List Char)}
      (h : isComment (Text.trimStart line) = false)
      (hj : Joins (Text.trimStart line) lines joined rest) (he : Holds rest entry) :
      Holds (line :: lines) entry

theorem Paired.append {s t : List Char} (hs : Paired s) (ht : Paired t) : Paired (s ++ t) := by
  induction hs with
  | nil => exact ht
  | plain hc _ ih => exact .plain hc ih
  | escape c _ ih => exact .escape c ih

theorem paired_of_append {s t : List Char} (hs : Paired s) (h : Paired (s ++ t)) : Paired t := by
  induction hs with
  | nil => exact h
  | plain hc _ ih => exact ih ((paired_cons_iff hc).1 h)
  | escape c _ ih => exact ih (paired_escape_iff.1 h)

theorem not_paired_snoc (h : Paired s) : ¬Paired (s ++ ['\\']) :=
  fun hsnoc => not_paired_singleton (paired_of_append h hsnoc)

/-- A text is paired, or is so without the backslash that it ends with. -/
theorem paired_or (s : List Char) : Paired s ∧ continues s = false ∨
    ∃ t, s = t ++ ['\\'] ∧ Paired t ∧ continues s = true := by
  -- A backslash at the end begins an escape if the text before it is paired, and is escaped by the
  -- backslash before it otherwise.
  induction s using List.reverseRecOn with
  | nil => exact .inl ⟨.nil, rfl⟩
  | append_singleton s c ih =>
    by_cases hc : c = '\\'
    · subst hc
      rw [continues_snoc_backslash]
      rcases ih with ⟨hs, hcontinues⟩ | ⟨t, rfl, ht, hcontinues⟩
      · exact .inr ⟨s, rfl, hs, by rw [hcontinues]; rfl⟩
      · rw [List.append_assoc]
        exact .inl ⟨ht.append (.escape _ .nil), by rw [hcontinues]; rfl⟩
    · refine .inl ⟨?_, continues_snoc_of_ne s hc⟩
      rcases ih with ⟨hs, -⟩ | ⟨t, rfl, ht, -⟩
      · exact hs.append (.plain hc .nil)
      · rw [List.append_assoc]
        exact ht.append (.escape _ .nil)

/-- What is joined is paired, so that no backslash is left at its end. -/
theorem Joins.paired {line joined : List Char} {lines rest : List (List Char)}
    (h : Joins line lines joined rest) : Paired joined := by
  induction h with
  | whole h => exact h
  | last h => exact h
  | next _ _ ih => exact ih

/-- Lines are joined in only one way. -/
theorem Joins.unique {line joined joined' : List Char} {lines rest rest' : List (List Char)}
    (h : Joins line lines joined rest) (h' : Joins line lines joined' rest') :
    joined = joined' ∧ rest = rest' := by
  induction h with
  | whole h =>
    cases h' with
    | whole => exact ⟨rfl, rfl⟩
    | last h' => exact absurd h (not_paired_snoc h')
    | next h' => exact absurd h (not_paired_snoc h')
  | @last line h =>
    generalize hline : line ++ ['\\'] = line' at h'
    cases h' with
    | whole h' => exact absurd (hline ▸ h') (not_paired_snoc h)
    | last h' => exact ⟨List.append_cancel_right hline, rfl⟩
  | @next line next _ lines _ h _ ih =>
    generalize hline : line ++ ['\\'] = line' at h'
    cases h' with
    | whole h' => exact absurd (hline ▸ h') (not_paired_snoc h)
    | next h' hj' =>
      rw [← List.append_cancel_right hline] at hj'
      exact ih hj'

/-- The line that comes last decides whether one more is joined, since what has been joined before
is paired. -/
theorem joins_join {body : List Char} (hbody : Paired body) (line : List Char)
    (ls : List (Nat × List Char)) : Joins (body ++ line) (ls.map Prod.snd)
      (body ++ (join line ls).1) ((join line ls).2.map Prod.snd) := by
  induction ls generalizing body line with
  | nil =>
    rw [join_eq]
    rcases paired_or line with ⟨hline, hcontinues⟩ | ⟨t, rfl, ht, hcontinues⟩
    · rw [hcontinues]
      exact .whole (hbody.append hline) _
    · rw [hcontinues, if_pos rfl, List.dropLast_concat, ← List.append_assoc]
      simpa [joinNext] using Joins.last (hbody.append ht)
  | cons l ls ih =>
    rw [join_eq]
    rcases paired_or line with ⟨hline, hcontinues⟩ | ⟨t, rfl, ht, hcontinues⟩
    · rw [hcontinues]
      exact .whole (hbody.append hline) _
    · rw [hcontinues, if_pos rfl, List.dropLast_concat, ← List.append_assoc]
      have hnext := ih (hbody.append ht) (Text.trimStart l.2)
      simpa [joinNext] using Joins.next (hbody.append ht) hnext

theorem holds_comment_iff {line entry : List Char} {lines : List (List Char)}
    (h : isComment (Text.trimStart line) = true) :
    Holds (line :: lines) entry ↔ Holds lines entry := by
  constructor
  · rintro (⟨h', -⟩ | ⟨-, he⟩ | ⟨h', -⟩)
    · cases h.symm.trans h'
    · exact he
    · cases h.symm.trans h'
  · exact .behindComment h

theorem holds_entry_iff {line joined entry : List Char} {lines rest : List (List Char)}
    (h : isComment (Text.trimStart line) = false)
    (hj : Joins (Text.trimStart line) lines joined rest) :
    Holds (line :: lines) entry ↔ entry = joined ∨ Holds rest entry := by
  constructor
  · rintro (⟨-, hj'⟩ | ⟨h', -⟩ | ⟨-, hj', he⟩)
    · exact .inl (hj'.unique hj).1
    · cases h.symm.trans h'
    · rw [(hj'.unique hj).2] at he
      exact .inr he
  · rintro (rfl | he)
    · exact .here h hj
    · exact .behindEntry h hj he

/-- **The entries that lines hold** are the joined lines. -/
theorem holds_iff {entry : List Char} :
    Holds (ls.map Prod.snd) entry ↔ entry ∈ (logicalLines ls).map Prod.snd := by
  fun_induction logicalLines ls with
  | case1 =>
    refine iff_of_false ?_ List.not_mem_nil
    rintro ⟨⟩
  | case2 n line ls _ h ih => rw [List.map_cons, holds_comment_iff h, ih]
  | case3 n line ls _ h ih =>
    have hj := joins_join .nil (Text.trimStart line) ls
    rw [List.map_cons, holds_entry_iff (Bool.eq_false_iff.2 h) hj, ih, List.map_cons, List.mem_cons]
    rfl

theorem paired_of_holds {entry : List Char} {lines : List (List Char)} (h : Holds lines entry) :
    Paired entry := by
  induction h with
  | here _ hj => exact hj.paired
  | behindComment _ _ ih => exact ih
  | behindEntry _ _ _ ih => exact ih

/-! ## Texts that are refused -/

/-- A key or value is read unless it is malformed, whatever is said of it otherwise. -/
theorem exists_read_eq_ok_iff {ε : Type} {f : List Char → ε} :
    (∃ t, ((unescape s).map String.ofList).mapError f = .ok t) ↔ ¬Malformed s := by
  rw [← exists_unescape_eq_error_iff, exists_eq_error_iff, not_not]
  simp only [mapError_eq_ok_iff, map_eq_ok_iff]
  exact ⟨fun ⟨_, t, ht, _⟩ => ⟨t, ht⟩, fun ⟨t, ht⟩ => ⟨_, t, ht, rfl⟩⟩

/-- An entry is read when neither its key nor its value is malformed. -/
theorem exists_entry_eq_ok_iff {l : Nat × List Char} : (∃ e, entry l = .ok e) ↔
    ¬Malformed (splitEntry l.2).1 ∧ ¬Malformed (splitEntry l.2).2 := by
  unfold entry
  dsimp only
  rw [exists_bind_eq_ok_iff]
  simp only [exists_bind_pure_eq_ok_iff, exists_read_eq_ok_iff, exists_and_right]

/-- **A property file is refused just when a key or a value of it is malformed.** -/
theorem exists_parse_eq_error_iff (text : String) : (∃ e, parse text = .error e) ↔
    ∃ line key value, Holds (lines text.toList) line ∧ Splits line key value ∧
      (Malformed key ∨ Malformed value) := by
  have hlines : (((lines text.toList).mapIdx fun i line => (i + 1, line)).map Prod.snd) =
      lines text.toList :=
    List.ext_getElem (by simp) fun i _ _ => by simp
  rw [exists_eq_error_iff, parse, exists_bind_pure_eq_ok_iff, exists_mapM_eq_ok_iff]
  generalize (lines text.toList).mapIdx (fun i line => (i + 1, line)) = ls at hlines ⊢
  rw [← hlines]
  simp only [exists_entry_eq_ok_iff]
  constructor
  · intro h
    push Not at h
    obtain ⟨l, hl, hmalformed⟩ := h
    have hholds := holds_iff.2 (List.mem_map_of_mem hl)
    refine ⟨l.2, _, _, hholds, (splits_iff (paired_of_holds hholds)).2 rfl, ?_⟩
    exact or_iff_not_imp_left.2 hmalformed
  · rintro ⟨line, key, value, hholds, hsplits, hmalformed⟩ h
    obtain ⟨l, hl, rfl⟩ := List.mem_map.1 (holds_iff.1 hholds)
    obtain ⟨hkey, hvalue⟩ := h l hl
    rw [splitEntry_of_splits hsplits] at hkey hvalue
    exact hmalformed.elim hkey hvalue

/-- A plus and three digits are read as a character, although they are not four digits. -/
theorem parse_signed : (∃ d, parse "k=\\u+041" = .ok d ∧ d.get? "k" = some "A") ∧
    Holds (lines "k=\\u+041".toList) "k=\\u+041".toList ∧
      Splits "k=\\u+041".toList "k".toList "\\u+041".toList ∧ ¬BeginsCodePoint "+041".toList := by
  have hpaired : Paired "k=\\u+041".toList :=
    .plain (by decide) <| .plain (by decide) <| .escape 'u' <| .plain (by decide) <|
      .plain (by decide) <| .plain (by decide) <| .plain (by decide) .nil
  have hparse : ∃ d, parse "k=\\u+041" = .ok d ∧ d.get? "k" = some "A" :=
    exists_eq_ok_of_map (x := parse "k=\\u+041") (f := fun d => d.get? "k") (by decide +kernel)
  refine ⟨hparse, .here rfl (.whole hpaired []), (splits_iff hpaired).2 rfl, ?_⟩
  rintro ⟨_, _, _, _, _, ⟨⟩, ⟨hplus, -⟩, -⟩
  exact absurd hplus (by decide)

end StartOrder.Properties
