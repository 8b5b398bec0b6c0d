import StartOrder.Text.Cut

/-!
# Reading from the start of a text

A reader takes something from the start of a text and gives it with the text that follows, or
gives nothing. It advances if what follows is always shorter than the text, so that it can be
repeated until the text ends.

## Main definitions

* `Reader`, `Reader.map`: readers, and what a function makes of what they take
* `Reader.Advances`: the readers that can be repeated
* `run?`: the characters of one kind that come first
* `sign`: the sign that may come first

## Main results

* `advances_run?`, `length_sign_le`, `length_of_behind?`: how much is left
-/

namespace StartOrder.Text

/-- Takes something from the start of a text and gives it with the text that follows. -/
abbrev Reader (α : Type) := List Char → Option (α × List Char)

namespace Reader

variable {α β : Type}

/-- What a function makes of what a reader takes. -/
def map (f : α → β) (p : Reader α) : Reader β := fun s =>
  (p s).map fun (a, r) => (f a, r)

/-- What follows is always shorter than the text. -/
structure Advances (p : Reader α) : Prop where
  length_lt : ∀ {s : List Char} {a : α} {r : List Char}, p s = some (a, r) → r.length < s.length

theorem map_eq_some_iff {f : α → β} {p : Reader α} {s r : List Char} {b : β} :
    p.map f s = some (b, r) ↔ ∃ a, p s = some (a, r) ∧ f a = b := by
  simp only [map, Option.map_eq_some_iff, Prod.exists, Prod.mk.injEq]
  constructor
  · rintro ⟨a, _, ha, hb, rfl⟩
    exact ⟨a, ha, hb⟩
  · rintro ⟨a, ha, hb⟩
    exact ⟨a, r, ha, hb, rfl⟩

theorem Advances.map {p : Reader α} (h : p.Advances) (f : α → β) : (p.map f).Advances := by
  refine ⟨fun hb => ?_⟩
  obtain ⟨a, ha, -⟩ := map_eq_some_iff.1 hb
  exact h.length_lt ha

end Reader

/-- The characters of one kind that come first, at least one. -/
def run? (isKind : Char → Bool) : Reader (List Char) := fun s =>
  let cs := s.takeWhile isKind
  if cs.isEmpty then none else some (cs, s.dropWhile isKind)

/-- Whether a minus comes first, and the text behind the sign that comes first, if any. -/
def sign : List Char → Bool × List Char
  | '-' :: r => (true, r)
  | '+' :: r => (false, r)
  | r => (false, r)

theorem length_dropWhile_le (p : Char → Bool) (s : List Char) :
    (s.dropWhile p).length ≤ s.length :=
  (List.dropWhile_suffix p).length_le

theorem advances_run? (isKind : Char → Bool) : (run? isKind).Advances := by
  refine ⟨fun {s cs r} h => ?_⟩
  cases s with
  | nil => simp [run?] at h
  | cons c s =>
    by_cases hc : isKind c = true
    · have := length_dropWhile_le isKind s
      simp [run?, hc] at h
      simp only [← h.2, List.length_cons]
      omega
    · simp [run?, hc] at h

theorem length_sign_le (s : List Char) : (sign s).2.length ≤ s.length := by
  unfold sign
  split <;> simp

theorem length_of_behind? {mark : Char} {s r : List Char} (h : behind? mark s = some r) :
    s.length = r.length + 1 := by
  cases s with
  | nil => simp [behind?] at h
  | cons c s =>
    simp only [behind?, Option.ite_none_right_eq_some, Option.some.injEq] at h
    simp [h.2]

end StartOrder.Text
