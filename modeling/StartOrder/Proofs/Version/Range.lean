import StartOrder.Proofs.Filter.Grammar
import StartOrder.Filter.Matching
import StartOrder.Proofs.Version.Text

/-!
# Ranges as filters

A range is handed on as the text of a filter. The text is read by the grammar of filters, and each
bound that was written into it is read once more as a version when an attribute is compared. Bounds
have none of the characters by which filters are told apart, so that the filter which is read is the
one that was meant, and it accepts the members of the range.

## Main definitions

* `Version.Range.condition`: the filter that the text of a range stands for
* `Version.Range.WellFormed`: both bounds can be written

## Main results

* `Filter.derives_compare`, `Filter.Derives.negated`, `Filter.Derives.both`: texts of filters that
  are put together
* `Filter.parse_of_derives`: what the grammar derives is read
* `Version.Range.readBounds_eq_ok_iff`: what is read between brackets
* `Version.Range.derives_filterText`: what the text of a range stands for
* `Version.Range.accepts_condition`: the members are accepted
* `Version.Range.exists_parse_filterText`: the text of a range is read, and its members are accepted
-/

namespace StartOrder

/-! ## Texts of filters that are put together -/

namespace Filter

variable {t u : List Char} {f g : Filter} {key operand text : String} {op : Comparison}

/-- A value without the characters of the grammar spells itself. -/
theorem spells_of_plain (h : ∀ c ∈ t, c ∉ ['(', ')', '*', '\\']) : Spells t (t.map .char) := by
  induction t with
  | nil => exact .nil
  | cons c t ih =>
    rw [List.forall_mem_cons] at h
    exact .plain h.1 (ih h.2)

/-- A comparison is derived from the name, the sign and the operand. -/
theorem derives_compare (hkey : Names key.toList key) (op : Comparison)
    (h : ∀ c ∈ operand.toList, c ∉ ['(', ')', '*', '\\']) :
    Derives ('(' :: (key.toList ++ sign op ++ operand.toList) ++ [')'])
      (.compare key op operand) := by
  have hstar : .star ∉ operand.toList.map Mark.char := by simp
  have htext : String.ofList ((operand.toList.map Mark.char).map Mark.toChar) = operand := by
    rw [List.map_map]
    exact (congrArg String.ofList (List.map_id _)).trans String.ofList_toList
  have hmeans : Means key op (operand.toList.map .char) (.compare key op operand) := by
    have h : Means key op (operand.toList.map .char) _ := .compare fun _ => hstar
    rwa [htext] at h
  exact .item (.mk hkey (spells_of_plain h) hmeans)

theorem Derives.negated (h : Derives t f) : Derives ('(' :: '!' :: t ++ [')']) (.not f) :=
  .not gap_nil h

theorem Derives.both (hf : Derives t f) (hg : Derives u g) :
    Derives ('(' :: '&' :: (t ++ u) ++ [')']) (.all [f, g]) := by
  have heach : DerivesEach (t ++ u) [f, g] := .cons gap_nil hf (.one gap_nil hg)
  have h := Derives.all heach gap_nil
  rwa [List.append_nil] at h

/-- What the grammar derives is read. -/
theorem parse_of_derives (h : Derives text.toList f) : parse text = .ok f := by
  have hread := read_of_derives gap_nil h gap_nil
  rw [List.nil_append, List.append_nil] at hread
  exact parse_eq_ok_iff_read.2 hread

/-- The attribute of that very name comes before those that differ in case. -/
theorem lookup_of_get? {a : Attributes} {x : AttributeValue} (h : a.get? key = some x) :
    lookup a key = some x := by
  rw [lookup, h, Option.some_or]

end Filter

namespace Version

/-- A version that can be written has none of the characters of filters. -/
theorem WellFormed.plain_render {v : Version} (h : v.WellFormed) :
    ∀ c ∈ v.render.toList, c ∉ ['(', ')', '*', '\\'] := by
  intro c hc hmem
  simp only [List.mem_cons, List.not_mem_nil, or_false] at hmem
  rcases hmem with rfl | rfl | rfl | rfl <;> exact h.not_mem_render (by decide) (by decide) hc

namespace Range

variable {r : Range} {v b : Version} {a : Attributes} {key : String}

/-- The bounds of a range can be written. -/
structure WellFormed (r : Range) : Prop where
  floor : r.floor.WellFormed
  ceiling : ∀ c ∈ r.ceiling, c.WellFormed

/-- The condition that a version lies on one side of a bound, by a comparison that includes the
bound, or by the negation of the comparison the other way. -/
def boundCondition (key : String) (op other : Comparison) (included : Bool) (b : Version) :
    Filter :=
  if included then .compare key op b.render else .not (.compare key other b.render)

/-- The filter that the text of a range stands for. -/
def condition (r : Range) (key : String) : Filter :=
  let low := boundCondition key .atLeast .atMost r.floorIncluded r.floor
  match r.ceiling with
  | none => low
  | some c => .all [low, boundCondition key .atMost .atLeast r.ceilingIncluded c]

/-! ## What has been read -/

/-- The bracket that closes an interval. -/
def bracket (included : Bool) : Char :=
  if included then ']' else ')'

/-- **What is read between brackets**: two versions in order, around the first comma. -/
theorem readBounds_eq_ok_iff {text body : List Char} {included : Bool} :
    readBounds text included body = .ok r ↔
    ∃ low high floor ceiling closed, body = low ++ ',' :: high ++ [bracket closed] ∧ ',' ∉ low ∧
      Version.read low = .ok floor ∧ Version.read high = .ok ceiling ∧
        (compare ceiling floor).isLT = false ∧ r = ⟨floor, included, some ceiling, closed⟩ := by
  unfold readBounds
  dsimp only
  constructor
  · intro h
    split at h
    case h_3 => cases h
    all_goals
      rename_i hlast
      obtain ⟨closed, hclosed, h⟩ := bind_eq_ok_iff.1 h
      have hbody := (List.dropLast_append_getLast? _ hlast).symm
      split at h
      · cases h
      · next low high hcut =>
        obtain ⟨hlow, hsplit⟩ := Text.cut_eq_some_iff.1 hcut
        obtain ⟨floor, hfloor, h⟩ := bind_eq_ok_iff.1 h
        obtain ⟨ceiling, hceiling, h⟩ := bind_eq_ok_iff.1 h
        split at h
        · cases h
        · next horder =>
          rw [hsplit] at hbody
          refine ⟨low, high, floor, ceiling, closed, ?_, hlow, hfloor, hceiling,
            eq_false_of_ne_true horder, (Except.ok.inj h).symm⟩
          rw [hbody, ← Except.ok.inj hclosed]
          rfl
  · rintro ⟨low, high, floor, ceiling, closed, rfl, hlow, hfloor, hceiling, horder, rfl⟩
    have hcut : Text.cut ',' (low ++ ',' :: high) = some (low, high) :=
      Text.cut_eq_some_iff.2 ⟨hlow, rfl⟩
    rw [List.getLast?_concat, List.dropLast_concat, hcut]
    cases closed
    all_goals
      refine bind_eq_ok_iff.2 ⟨_, rfl, bind_eq_ok_iff.2 ⟨floor, hfloor, ?_⟩⟩
      refine bind_eq_ok_iff.2 ⟨ceiling, hceiling, ?_⟩
      rw [horder]
      rfl

theorem wellFormed_of_readBounds {text body : List Char} {included : Bool}
    (h : readBounds text included body = .ok r) : r.WellFormed := by
  obtain ⟨_, _, floor, ceiling, _, -, -, hfloor, hceiling, -, rfl⟩ := readBounds_eq_ok_iff.1 h
  refine ⟨wellFormed_of_read hfloor, fun c hc => ?_⟩
  obtain rfl := Option.some.inj hc
  exact wellFormed_of_read hceiling

/-- **The bounds of a range that has been read can be written.** -/
theorem wellFormed_of_parse {text : String} (h : parse text = .ok r) : r.WellFormed := by
  unfold parse read at h
  split at h
  · exact wellFormed_of_readBounds h
  · exact wellFormed_of_readBounds h
  · obtain ⟨floor, hfloor, rfl⟩ := map_eq_ok_iff.1 h
    exact ⟨wellFormed_of_read hfloor, fun c hc => by cases hc⟩

/-! ## The text of a range -/

/-- The text of the condition on a bound. -/
def boundText (key : String) (op other : Comparison) (included : Bool) (b : Version) : List Char :=
  if included then '(' :: (key.toList ++ Filter.sign op ++ b.render.toList) ++ [')']
  else '(' :: '!' :: ('(' :: (key.toList ++ Filter.sign other ++ b.render.toList) ++ [')']) ++ [')']

theorem toList_filterText (r : Range) (key : String) : (r.filterText key).toList =
    let low := boundText key .atLeast .atMost r.floorIncluded r.floor
    match r.ceiling with
    | none => low
    | some c =>
      '(' :: '&' :: (low ++ boundText key .atMost .atLeast r.ceilingIncluded c) ++ [')'] := by
  unfold filterText boundText
  cases r.floorIncluded <;> cases r.ceilingIncluded <;> cases r.ceiling <;>
    simp [toString, Filter.sign]

/-- The text of a bound stands for the condition on it. -/
theorem derives_boundText (hkey : Filter.Names key.toList key) (hb : b.WellFormed)
    (op other : Comparison) (included : Bool) :
    Filter.Derives (boundText key op other included b)
      (boundCondition key op other included b) := by
  cases included with
  | true => exact Filter.derives_compare hkey op hb.plain_render
  | false => exact (Filter.derives_compare hkey other hb.plain_render).negated

/-- **What the text of a range stands for.** -/
theorem derives_filterText (hkey : Filter.Names key.toList key) (hr : r.WellFormed) :
    Filter.Derives (r.filterText key).toList (r.condition key) := by
  have hlow := derives_boundText hkey hr.floor .atLeast .atMost r.floorIncluded
  rw [toList_filterText, condition]
  cases hceiling : r.ceiling with
  | none => exact hlow
  | some c =>
    exact hlow.both (derives_boundText hkey (hr.ceiling c hceiling) .atMost .atLeast _)

/-! ## The members of a range -/

/-- A bound that was written is read again when it is compared with a version. -/
theorem accepts_boundCondition (hlookup : Filter.lookup a key = some (.version v))
    (hb : b.WellFormed) (op other : Comparison) (included : Bool) :
    Filter.accepts a (boundCondition key op other included b) =
      if included then Filter.satisfies op (compare v b)
      else !Filter.satisfies other (compare v b) := by
  have hcompare (op : Comparison) : Filter.accepts a (.compare key op b.render) =
      Filter.satisfies op (compare v b) := by
    rw [Filter.accepts, hlookup, Option.any_some, Filter.compareValue, hb.parse_render]
  cases included with
  | true => exact hcompare op
  | false => exact (Filter.accepts_not _ _).trans (congrArg _ (hcompare other))

/-- **The members of a range are accepted**, and no other version. -/
theorem accepts_condition (hlookup : Filter.lookup a key = some (.version v))
    (hr : r.WellFormed) : Filter.accepts a (r.condition key) = r.includes v := by
  -- A bound that is left out is written as the negation of the comparison the other way.
  have habove (o : Ordering) : (!o.isLE) = o.isGT := by cases o <;> rfl
  have hbelow (o : Ordering) : (!o.isGE) = o.isLT := by cases o <;> rfl
  unfold condition includes
  cases hceiling : r.ceiling with
  | none =>
    dsimp only
    rw [accepts_boundCondition hlookup hr.floor, Filter.satisfies, Filter.satisfies, habove,
      Bool.and_true]
  | some c =>
    dsimp only
    rw [Filter.accepts_all, List.all_cons, List.all_cons, List.all_nil, Bool.and_true,
      accepts_boundCondition hlookup hr.floor,
      accepts_boundCondition hlookup (hr.ceiling c hceiling)]
    simp only [Filter.satisfies, habove, hbelow]

/-- **A range and its filter agree.** The text of a range over an attribute is read as a filter,
and where the attribute is a version the filter accepts it exactly when it is in the range. The
name may begin with the sign of a connective, and there may be attributes of similar names. -/
theorem exists_parse_filterText (hr : r.WellFormed) (hne : key ≠ "")
    (hchars : ∀ c ∈ key.toList, c ∉ ['=', '<', '>', '~', '(', ')'])
    (hfirst : ∀ c, key.toList.head? = some c → Text.isBlank c = false)
    (hlast : ∀ c, key.toList.getLast? = some c → Text.isBlank c = false) :
    ∃ f, Filter.parse (r.filterText key) = .ok f ∧
      ∀ (a : Attributes) (v : Version), a.get? key = some (.version v) →
        (Filter.accepts a f = true ↔ r.includes v = true) := by
  have hnames : Filter.Names key.toList key := by
    refine Filter.names_of_ends (mt String.toList_eq_nil_iff.1 hne) (fun c hc => ?_) hfirst hlast
    simpa [Filter.isNameChar, and_assoc] using hchars c hc
  refine ⟨r.condition key, Filter.parse_of_derives (derives_filterText hnames hr), ?_⟩
  intro a v hv
  rw [accepts_condition (Filter.lookup_of_get? hv) hr]

/-- The versions behind 1.2, up to a candidate for the second release. -/
def candidates : Range where
  floor := { major := 1, minor := 2 }
  floorIncluded := false
  ceiling := some { major := 2, qualifier := "rc-1" }
  ceilingIncluded := true

/-- The attribute has a name that begins like a negation, and there is one in capital letters. -/
def releases (v : Version) : Attributes :=
  .ofList [("!NEXT", .text "1.9"), ("!next", .version v)]

theorem get?_releases (v : Version) : (releases v).get? "!next" = some (.version v) := by
  simp [releases, Dictionary.ofList]

/-- Both bounds are given to the filter: the one that is left out is refused, and the other is
accepted with its qualifier. -/
theorem exists_parse_filterText_candidates :
    candidates.WellFormed ∧ candidates.filterText "!next" =
      "(&(!(!next<=1.2.0))(!next<=2.0.0.rc-1))" ∧
    ∃ f, Filter.parse (candidates.filterText "!next") = .ok f ∧
      Filter.accepts (releases { major := 2, qualifier := "rc-1" }) f = true ∧
      Filter.accepts (releases { major := 1, minor := 2 }) f = false := by
  have hwellFormed : candidates.WellFormed :=
    ⟨by decide, fun c hc => Option.some.inj hc ▸ (by decide)⟩
  have hne : "!next" ≠ "" := by decide
  obtain ⟨f, hf, haccepts⟩ := exists_parse_filterText hwellFormed hne (by simp)
    (by rintro _ ⟨⟩; rfl) (by rintro _ ⟨⟩; rfl)
  refine ⟨hwellFormed, by decide +kernel, f, hf, ?_, ?_⟩
  · exact (haccepts _ _ (get?_releases _)).2 (by decide +kernel)
  · exact eq_false_of_ne_true (mt (haccepts _ _ (get?_releases _)).1 (by decide +kernel))

end Range

end Version

end StartOrder
