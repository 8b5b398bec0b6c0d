import StartOrder.Proofs.Filter.Item
import StartOrder.Version.Range

/-!
# The texts of versions

A version is written with all of its numbers, and with the qualifier behind a third dot unless it
is empty. Decimal digits are neither dots nor blanks, so the text is cut at the dots that were put
in, and reads back. This needs a qualifier that may be written at all, and every version that was
read has one.

## Main definitions

* `Version.WellFormed`: the qualifier of a version can be written
* `Version.suffix`: the qualifier as it is written

## Main results

* `Version.wellFormed_of_parse`: what has been read can be written
* `Version.WellFormed.parse_render`: what has been written reads back
-/

namespace StartOrder

/-! ## Texts cut at marks -/

namespace Text

variable {mark : Char} {s a b : List Char} {n : Nat}

theorem fields_append (h : mark ∉ a) :
    fields mark (n + 1) (a ++ mark :: b) = a :: fields mark n b := by
  rw [fields, cut_eq_some_iff.2 ⟨h, rfl⟩]

theorem fields_of_not_mem (h : mark ∉ s) : fields mark n s = [s] := by
  cases n with
  | zero => rfl
  | succ n => rw [fields, cut_eq_none_iff.2 h]

/-- The digits of a number are ASCII digits. -/
theorem isDigit_of_mem_repr {c : Char} (h : c ∈ n.repr.toList) : c.isDigit = true := by
  rw [Nat.toList_repr] at h
  exact Nat.isDigit_of_mem_toDigits (by decide) (by decide) h

/-- A text without blanks has none to be taken off. -/
theorem trim_of_forall (h : ∀ c ∈ s, isBlank c = false) : trim s = s :=
  trim_of_ends (fun c hc => h c (List.mem_of_head? hc)) fun c hc => h c (List.mem_of_getLast? hc)

theorem trim_trim (s : List Char) : trim (trim s) = trim s :=
  trim_of_ends (fun _ => head?_trim) fun _ => getLast?_trim

end Text

namespace Version

variable {v : Version} {c : Char} {text : String}

/-- The qualifier has no other characters than those that may be written. -/
def WellFormed (v : Version) : Prop :=
  ∀ c ∈ v.qualifier.toList, isQualifierChar c = true

instance : Decidable v.WellFormed :=
  List.decidableBAll (isQualifierChar · = true) v.qualifier.toList

theorem wellFormed_of_read {s : List Char} (h : read s = .ok v) : v.WellFormed := by
  unfold read at h
  dsimp only at h
  split at h
  · cases h
  · obtain ⟨_, -, h⟩ := bind_eq_ok_iff.1 h
    obtain ⟨_, -, h⟩ := bind_eq_ok_iff.1 h
    obtain ⟨_, -, h⟩ := bind_eq_ok_iff.1 h
    split at h
    · next hqualifier =>
      obtain rfl := Except.ok.inj h
      intro c hc
      rw [String.toList_ofList] at hc
      exact List.all_eq_true.1 hqualifier c hc
    · cases h

/-- **What has been read can be written.** -/
theorem wellFormed_of_parse (h : parse text = .ok v) : v.WellFormed :=
  wellFormed_of_read h

theorem isBlank_of_isQualifierChar (h : isQualifierChar c = true) : Text.isBlank c = false := by
  rcases (Bool.or_eq_true _ _).mp h with h | h
  · rcases (Bool.or_eq_true _ _).mp h with h | h
    · exact Text.isBlank_of_isAlphanum h
    · obtain rfl := beq_iff_eq.1 h
      rfl
  · obtain rfl := beq_iff_eq.1 h
    rfl

theorem isQualifierChar_of_isDigit (h : c.isDigit = true) : isQualifierChar c = true := by
  simp [isQualifierChar, Char.isAlphanum, h]

/-- The qualifier as it is written: behind a dot, or not at all. -/
def suffix (v : Version) : List Char :=
  if v.qualifier.isEmpty then [] else '.' :: v.qualifier.toList

theorem toList_render (v : Version) : v.render.toList =
    v.major.toNat.repr.toList ++ '.' ::
      (v.minor.toNat.repr.toList ++ '.' :: (v.micro.toNat.repr.toList ++ v.suffix)) := by
  unfold render suffix
  dsimp only
  split <;> simp [toString, -Nat.toList_repr]

/-- A version is written with dots and with characters that may stand in qualifiers. -/
theorem WellFormed.of_mem_render (h : v.WellFormed) (hc : c ∈ v.render.toList) :
    c = '.' ∨ isQualifierChar c = true := by
  have hnumber {n : Nat} (hc : c ∈ n.repr.toList) : isQualifierChar c = true :=
    isQualifierChar_of_isDigit (Text.isDigit_of_mem_repr hc)
  have hsuffix (hc : c ∈ v.suffix) : c = '.' ∨ isQualifierChar c = true := by
    unfold suffix at hc
    split at hc
    · cases hc
    · exact (List.mem_cons.1 hc).imp_right (h c)
  rw [toList_render] at hc
  simp only [List.mem_append, List.mem_cons] at hc
  rcases hc with hc | hc | hc | hc | hc | hc
  · exact .inr (hnumber hc)
  · exact .inl hc
  · exact .inr (hnumber hc)
  · exact .inl hc
  · exact .inr (hnumber hc)
  · exact hsuffix hc

theorem WellFormed.isBlank_of_mem_render (h : v.WellFormed) (hc : c ∈ v.render.toList) :
    Text.isBlank c = false := by
  rcases h.of_mem_render hc with rfl | hc
  · rfl
  · exact isBlank_of_isQualifierChar hc

/-- What may neither stand in a qualifier nor is a dot is not written. -/
theorem WellFormed.not_mem_render (h : v.WellFormed) (hdot : c ≠ '.')
    (hchar : isQualifierChar c = false) : c ∉ v.render.toList := by
  intro hc
  rcases h.of_mem_render hc with rfl | hc
  · exact hdot rfl
  · rw [hchar] at hc
    cases hc

/-- The dots that were put in are found again. -/
theorem fields_render (v : Version) : Text.fields '.' 3 v.render.toList =
    [v.major.toNat.repr.toList, v.minor.toNat.repr.toList, v.micro.toNat.repr.toList] ++
      if v.qualifier.isEmpty then [] else [v.qualifier.toList] := by
  have hdot (n : Nat) : '.' ∉ n.repr.toList := fun h => by
    have := Text.isDigit_of_mem_repr h
    contradiction
  rw [toList_render, Text.fields_append (hdot _), Text.fields_append (hdot _), suffix]
  split
  · rw [List.append_nil, Text.fields_of_not_mem (hdot _)]
    rfl
  · rw [Text.fields_append (hdot _)]
    rfl

theorem component_repr {text : List Char} {parts : List (List Char)} {i : Nat} {n : UInt32}
    (h : parts[i]? = some n.toNat.repr.toList) : component text parts i = .ok n := by
  rw [component, h]
  dsimp only
  rw [Text.unsigned?_repr n.toNat_lt]
  exact congrArg Except.ok UInt32.ofNat_toNat

/-- **What has been written reads back.** -/
theorem WellFormed.parse_render (h : v.WellFormed) : parse v.render = .ok v := by
  have htrim : Text.trim v.render.toList = v.render.toList :=
    Text.trim_of_forall fun c hc => h.isBlank_of_mem_render hc
  have hne : v.render.toList.isEmpty = false := by
    rw [List.isEmpty_eq_false_iff, toList_render]
    simp
  have hqualifier : (Text.fields '.' 3 v.render.toList)[3]?.getD [] = v.qualifier.toList := by
    rw [fields_render]
    split
    · next hempty =>
      rw [String.isEmpty_iff.1 hempty]
      rfl
    · rfl
  have hall : v.qualifier.toList.all isQualifierChar = true := List.all_eq_true.2 h
  unfold parse read
  rw [htrim]
  dsimp only
  rw [hne, if_neg Bool.false_ne_true]
  refine bind_eq_ok_iff.2 ⟨v.major, component_repr (by rw [fields_render]; rfl), ?_⟩
  refine bind_eq_ok_iff.2 ⟨v.minor, component_repr (by rw [fields_render]; rfl), ?_⟩
  refine bind_eq_ok_iff.2 ⟨v.micro, component_repr (by rw [fields_render]; rfl), ?_⟩
  rw [hqualifier, if_pos hall, String.ofList_toList]
  rfl

end Version

end StartOrder
