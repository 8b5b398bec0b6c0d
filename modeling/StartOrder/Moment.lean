import StartOrder.Text.Reader

/-!
# Dates and times

The texts of dates and times of day. A reader gives the text in its one canonical spelling,
together with the text that follows.

## Main definitions

* `Moment.read?`: the date or time at the start of a text
* `Moment.isWhole`: whether a text is one date or time and nothing else
-/

namespace StartOrder.Moment

/-- A number of exactly `n` digits. -/
def fixed? (n : Nat) : Text.Reader Nat := fun s =>
  let ds := s.take n
  if ds.length = n ∧ ds.all Char.isDigit then
    some (Nat.ofDigitChars 10 ds 0, s.drop n)
  else none

/-- The number of days in a month. -/
def daysIn (year month : Nat) : Nat :=
  if month = 2 then (if year % 4 = 0 ∧ (year % 100 ≠ 0 ∨ year % 400 = 0) then 29 else 28)
  else if month = 4 ∨ month = 6 ∨ month = 9 ∨ month = 11 then 30 else 31

/-- The text of a date of the calendar, and what follows it. -/
def date? : Text.Reader (List Char) := fun s => do
  let (year, r) ← fixed? 4 s
  let r ← Text.behind? '-' r
  let (month, r) ← fixed? 2 r
  let r ← Text.behind? '-' r
  let (day, r) ← fixed? 2 r
  guard (1 ≤ month ∧ month ≤ 12 ∧ 1 ≤ day ∧ day ≤ daysIn year month)
  return (s.take 10, r)

/-- The text of the digits behind the point of a time: nine at most, without zeros at the end. -/
def secondFraction (ds : List Char) : List Char :=
  let kept := ((ds.take 9).reverse.dropWhile (· == '0')).reverse
  if kept.isEmpty then [] else '.' :: kept

/-- The text of a time of day, and what follows it. -/
def time? : Text.Reader (List Char) := fun s => do
  let (hour, r) ← fixed? 2 s
  let r ← Text.behind? ':' r
  let (minute, r) ← fixed? 2 r
  let r ← Text.behind? ':' r
  let (second, r) ← fixed? 2 r
  guard (hour ≤ 23 ∧ minute ≤ 59 ∧ second ≤ 60)
  match r with
  | '.' :: q => (Text.run? Char.isDigit).map (fun ds => s.take 8 ++ secondFraction ds) q
  | q => return (s.take 8, q)

/-- The text of a distance from world time behind its sign: hours and minutes as on a clock.
There is no distance of zero below zero. -/
def distance? (sign : Char) : Text.Reader (List Char) := fun s => do
  let (hours, r) ← fixed? 2 s
  let r ← Text.behind? ':' r
  let (minutes, r) ← fixed? 2 r
  guard (hours ≤ 23 ∧ minutes ≤ 59)
  return ((if hours = 0 ∧ minutes = 0 then '+' else sign) :: s.take 5, r)

/-- The text of a distance from world time, and what follows it. -/
def offset? : Text.Reader (List Char)
  | 'Z' :: r | 'z' :: r => some (['Z'], r)
  | '+' :: s => distance? '+' s
  | '-' :: s => distance? '-' s
  | _ => none

/-- A character that may stand between a date and a time. -/
def isJoint (c : Char) : Bool :=
  c == 'T' || c == 't' || c == ' '

/-- A time with the offset that may follow it. -/
def withOffset (t r : List Char) : List Char × List Char :=
  match offset? r with
  | none => (t, r)
  | some (o, q) => (t ++ o, q)

/-- The text of a time behind a date and of the offset it may have, and what follows them. -/
def clock? : Text.Reader (List Char)
  | [] => none
  | c :: s =>
    if isJoint c then (time? s).map fun (t, r) => withOffset ('T' :: t) r
    else none

/-- The text of a date, a time, or a date with a time behind it that may have an offset, and what
follows it. -/
def read? : Text.Reader String := fun s =>
  match date? s with
  | none => time?.map String.ofList s
  | some (d, r) =>
    match clock? r with
    | none => some (String.ofList d, r)
    | some (t, q) => some (String.ofList (d ++ t), q)

/-- Whether a text is a date, a time, or a date with a time behind it that may have an offset. -/
def isWhole (s : List Char) : Bool :=
  (read? s).any (·.2.isEmpty)

theorem length_of_fixed? {n m : Nat} {s r : List Char} (h : fixed? n s = some (m, r)) :
    s.length = r.length + n := by
  simp only [fixed?, Option.ite_none_right_eq_some, Option.some.injEq, Prod.mk.injEq] at h
  obtain ⟨⟨hn, -⟩, -, rfl⟩ := h
  simp only [List.length_take, List.length_drop] at *
  omega

theorem advances_date? : Text.Reader.Advances date? := by
  refine ⟨fun {s d r} h => ?_⟩
  obtain ⟨⟨_, _⟩, h₁, h⟩ := Option.bind_eq_some_iff.1 h
  obtain ⟨_, h₂, h⟩ := Option.bind_eq_some_iff.1 h
  obtain ⟨⟨_, _⟩, h₃, h⟩ := Option.bind_eq_some_iff.1 h
  obtain ⟨_, h₄, h⟩ := Option.bind_eq_some_iff.1 h
  obtain ⟨⟨_, _⟩, h₅, h⟩ := Option.bind_eq_some_iff.1 h
  obtain ⟨_, -, h⟩ := Option.bind_eq_some_iff.1 h
  cases h
  have := length_of_fixed? h₁
  have := Text.length_of_behind? h₂
  have := length_of_fixed? h₃
  have := Text.length_of_behind? h₄
  have := length_of_fixed? h₅
  omega

theorem advances_time? : Text.Reader.Advances time? := by
  refine ⟨fun {s t r} h => ?_⟩
  obtain ⟨⟨_, _⟩, h₁, h⟩ := Option.bind_eq_some_iff.1 h
  obtain ⟨_, h₂, h⟩ := Option.bind_eq_some_iff.1 h
  obtain ⟨⟨_, _⟩, h₃, h⟩ := Option.bind_eq_some_iff.1 h
  obtain ⟨_, h₄, h⟩ := Option.bind_eq_some_iff.1 h
  obtain ⟨⟨_, _⟩, h₅, h⟩ := Option.bind_eq_some_iff.1 h
  obtain ⟨_, -, h⟩ := Option.bind_eq_some_iff.1 h
  have := length_of_fixed? h₁
  have := Text.length_of_behind? h₂
  have := length_of_fixed? h₃
  have := Text.length_of_behind? h₄
  have hsecond := length_of_fixed? h₅
  split at h
  · have := ((Text.advances_run? _).map _).length_lt h
    rw [List.length_cons] at hsecond
    omega
  · cases h
    omega

theorem advances_distance? (sign : Char) : (distance? sign).Advances := by
  refine ⟨fun {s d r} h => ?_⟩
  obtain ⟨⟨_, _⟩, h₁, h⟩ := Option.bind_eq_some_iff.1 h
  obtain ⟨_, h₂, h⟩ := Option.bind_eq_some_iff.1 h
  obtain ⟨⟨_, _⟩, h₃, h⟩ := Option.bind_eq_some_iff.1 h
  obtain ⟨_, -, h⟩ := Option.bind_eq_some_iff.1 h
  cases h
  have := length_of_fixed? h₁
  have := Text.length_of_behind? h₂
  have := length_of_fixed? h₃
  omega

theorem advances_offset? : Text.Reader.Advances offset? := by
  refine ⟨fun {s o r} h => ?_⟩
  unfold offset? at h
  split at h
  · cases h
    exact Nat.lt_succ_self _
  · cases h
    exact Nat.lt_succ_self _
  · exact Nat.lt_succ_of_lt ((advances_distance? _).length_lt h)
  · exact Nat.lt_succ_of_lt ((advances_distance? _).length_lt h)
  · cases h

theorem length_withOffset_le (t r : List Char) : (withOffset t r).2.length ≤ r.length := by
  unfold withOffset
  split
  · exact Nat.le_refl _
  · next h => exact Nat.le_of_lt (advances_offset?.length_lt h)

theorem advances_clock? : Text.Reader.Advances clock? := by
  refine ⟨fun {s t r} h => ?_⟩
  cases s with
  | nil => cases h
  | cons c s =>
    simp only [clock?, Option.ite_none_right_eq_some, Option.map_eq_some_iff, Prod.exists] at h
    obtain ⟨-, t', r', ht, h⟩ := h
    have := advances_time?.length_lt ht
    have := length_withOffset_le ('T' :: t') r'
    simp only [h, List.length_cons] at *
    omega

theorem advances_read? : Text.Reader.Advances read? := by
  refine ⟨fun {s t r} h => ?_⟩
  unfold read? at h
  split at h
  · exact (advances_time?.map _).length_lt h
  · next hd =>
    have := advances_date?.length_lt hd
    split at h
    · cases h
      exact this
    · next hc =>
      have := advances_clock?.length_lt hc
      cases h
      omega

end StartOrder.Moment
