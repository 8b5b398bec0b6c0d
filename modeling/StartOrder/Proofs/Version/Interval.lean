import StartOrder.Proofs.Version.Range

/-!
# The texts of ranges

An interval is written with its bounds between brackets, and a range that is open above as its
floor alone. Neither has a blank, so no blanks are taken off when the text is read. An interval is
told by the bracket it begins with, which no version has, and is cut at the comma that was put in.

Not every range has a text. A text gives its bounds in order, and a single version stands for itself
and all later ones. What has been read is of this form, and what is of this form reads back, so that
the texts of ranges denote just the regular ones.

## Main definitions

* `Version.Range.Regular`: the ranges that have a text

## Main results

* `Version.Range.regular_of_parse`: what has been read is regular
* `Version.Range.Regular.parse_render`: what is regular reads back
* `Version.Range.exists_parse_iff`: the ranges that have a text
* `Version.parse_render_of_parse`: ranges and versions survive being written
-/

namespace StartOrder.Version

variable {text : String}

namespace Range

variable {r : Range} {s body : List Char} {included : Bool}

/-- A range whose bounds can be written and are in order. Open above, it includes its floor. -/
structure Regular (r : Range) : Prop extends r.WellFormed where
  ordered : ∀ c ∈ r.ceiling, (compare c r.floor).isLT = false
  unbounded : r.ceiling = none → r.floorIncluded = true ∧ r.ceilingIncluded = false

/-- An interval between its brackets. -/
theorem toList_render_of_ceiling {c : Version} (h : r.ceiling = some c) : r.render.toList =
    (if r.floorIncluded then '[' else '(') ::
      (r.floor.render.toList ++ ',' :: c.render.toList ++ [bracket r.ceilingIncluded]) := by
  unfold render bracket
  rw [h]
  cases r.floorIncluded <;> cases r.ceilingIncluded <;> simp

theorem toList_render_of_unbounded (h : r.ceiling = none) :
    r.render.toList = r.floor.render.toList := by
  unfold render
  rw [h]

/-! ## What has been read -/

theorem regular_of_readBounds (h : readBounds s included body = .ok r) : r.Regular := by
  have hwellFormed := wellFormed_of_readBounds h
  obtain ⟨_, _, floor, ceiling, _, -, -, -, -, horder, rfl⟩ := readBounds_eq_ok_iff.1 h
  refine ⟨hwellFormed, fun c hc => ?_, fun hnone => ?_⟩
  · obtain rfl := Option.some.inj hc
    exact horder
  · cases hnone

/-- **What has been read is regular.** -/
theorem regular_of_parse (h : parse text = .ok r) : r.Regular := by
  unfold parse read at h
  split at h
  · exact regular_of_readBounds h
  · exact regular_of_readBounds h
  · obtain ⟨floor, hfloor, rfl⟩ := map_eq_ok_iff.1 h
    refine ⟨⟨wellFormed_of_read hfloor, fun c hc => ?_⟩, fun c hc => ?_, fun _ => ⟨rfl, rfl⟩⟩
    · cases hc
    · cases hc

/-! ## What has been written -/

theorem Regular.trim_render (h : r.Regular) : Text.trim r.render.toList = r.render.toList := by
  refine Text.trim_of_forall fun c hc => ?_
  cases hceiling : r.ceiling with
  | none =>
    rw [toList_render_of_unbounded hceiling] at hc
    exact h.floor.isBlank_of_mem_render hc
  | some v =>
    rw [toList_render_of_ceiling hceiling] at hc
    simp only [List.mem_cons, List.mem_append, List.not_mem_nil, or_false] at hc
    rcases hc with rfl | (hc | rfl | hc) | rfl
    · cases r.floorIncluded <;> rfl
    · exact h.floor.isBlank_of_mem_render hc
    · rfl
    · exact (h.ceiling v hceiling).isBlank_of_mem_render hc
    · cases r.ceilingIncluded <;> rfl

/-- What stands between the brackets reads back, whichever the brackets are. -/
theorem Regular.readBounds_body (h : r.Regular) {c : Version} (hc : r.ceiling = some c) :
    readBounds s r.floorIncluded
      (r.floor.render.toList ++ ',' :: c.render.toList ++ [bracket r.ceilingIncluded]) = .ok r := by
  refine readBounds_eq_ok_iff.2 ⟨_, _, r.floor, c, r.ceilingIncluded, rfl, ?_, ?_, ?_, ?_, ?_⟩
  · exact h.floor.not_mem_render (by decide) (by decide)
  · exact h.floor.parse_render
  · exact (h.ceiling c hc).parse_render
  · exact h.ordered c hc
  · rw [← hc]

/-- **What is regular reads back.** -/
theorem Regular.parse_render (h : r.Regular) : parse r.render = .ok r := by
  unfold parse read
  rw [h.trim_render]
  cases hceiling : r.ceiling with
  | none =>
    obtain ⟨hfloor, hceilingIncluded⟩ := h.unbounded hceiling
    rw [toList_render_of_unbounded hceiling]
    split
    · next body hbracket =>
      refine absurd ?_ (h.floor.not_mem_render (c := '[') (by decide) (by decide))
      rw [hbracket]
      exact List.mem_cons_self
    · next body hbracket =>
      refine absurd ?_ (h.floor.not_mem_render (c := '(') (by decide) (by decide))
      rw [hbracket]
      exact List.mem_cons_self
    · refine map_eq_ok_iff.2 ⟨r.floor, h.floor.parse_render, ?_⟩
      rw [atLeast, ← hfloor, ← hceilingIncluded, ← hceiling]
  | some c =>
    have hbody := h.readBounds_body (s := r.render.toList) hceiling
    rw [toList_render_of_ceiling hceiling] at hbody ⊢
    cases hfloor : r.floorIncluded with
    | true =>
      rw [hfloor] at hbody
      exact hbody
    | false =>
      rw [hfloor] at hbody
      exact hbody

/-- **The ranges that have a text** are the regular ones. -/
theorem exists_parse_iff : (∃ text, parse text = .ok r) ↔ r.Regular := by
  constructor
  · rintro ⟨text, h⟩
    exact regular_of_parse h
  · intro h
    exact ⟨r.render, h.parse_render⟩

end Range

/-- **Ranges and versions survive being written.** Whatever text they were read from, the text that
is written for them reads back as the same range and the same version. -/
theorem parse_render_of_parse :
    (∀ (text : String) (r : Range), Range.parse text = .ok r → Range.parse r.render = .ok r) ∧
      ∀ (text : String) (v : Version), parse text = .ok v → parse v.render = .ok v := by
  constructor
  · intro text r h
    exact (Range.regular_of_parse h).parse_render
  · intro text v h
    exact (wellFormed_of_parse h).parse_render

/-- An interval between equal bounds, of which one is left out, so that it has no members. -/
def degenerate : Range where
  floor := { major := 1, minor := 2 }
  floorIncluded := true
  ceiling := some { major := 1, minor := 2 }
  ceilingIncluded := false

/-- The greatest number of a version, behind which a number is missing. -/
def latest : Version where
  major := 4294967295
  minor := 7

/-- Blanks, a sign, missing numbers and a dot with no qualifier are not written again. -/
theorem parse_render_of_parse_degenerate :
    Range.parse " [ 1.2 , 1.+2.0.) " = .ok degenerate ∧ degenerate.render = "[1.2.0,1.2.0)" ∧
      Range.parse degenerate.render = .ok degenerate ∧
    parse "4294967295.7 " = .ok latest ∧ latest.render = "4294967295.7.0" ∧
      parse latest.render = .ok latest := by
  obtain ⟨hranges, hversions⟩ := parse_render_of_parse
  have hrange : Range.parse " [ 1.2 , 1.+2.0.) " = .ok degenerate := by decide +kernel
  have hversion : parse "4294967295.7 " = .ok latest := by decide +kernel
  exact ⟨hrange, by decide +kernel, hranges _ _ hrange, hversion, by decide +kernel,
    hversions _ _ hversion⟩

end StartOrder.Version
