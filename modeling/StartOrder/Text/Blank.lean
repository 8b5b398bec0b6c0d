/-!
# Blank characters

The characters that carry the Unicode property `White_Space`, and the texts that are left when
they are taken off an end. Names, versions, ranges and lists are written with blanks around
them, and every reader of this library takes them off by this one rule.

## Main definitions

* `isBlank`: the characters with the property
* `trimStart`, `trimEnd`, `trim`: a text without its outer blanks
* `trimmed`: the same on strings

## Main results

* `isBlank_of_isAlphanum`: no ASCII letter or digit is blank
* `head?_trimStart`, `trim_of_ends`: what is left does not begin with a blank, and a text without
  outer blanks is left as it is
-/

namespace StartOrder.Text

/-- A character with the Unicode property `White_Space`. -/
def isBlank (c : Char) : Bool :=
  let n := c.toNat
  (9 ≤ n && n ≤ 13) || n == 0x20 || n == 0x85 || n == 0xA0 || n == 0x1680 ||
    (0x2000 ≤ n && n ≤ 0x200A) || n == 0x2028 || n == 0x2029 || n == 0x202F || n == 0x205F ||
    n == 0x3000

/-- A text without the blanks it begins with. -/
def trimStart (s : List Char) : List Char :=
  s.dropWhile isBlank

/-- A text without the blanks it ends with. -/
def trimEnd (s : List Char) : List Char :=
  (s.reverse.dropWhile isBlank).reverse

/-- A text without the blanks around it. -/
def trim (s : List Char) : List Char :=
  trimEnd (trimStart s)

/-- A string without the blanks around it. -/
def trimmed (s : String) : String :=
  String.ofList (trim s.toList)

/-- ASCII letters and digits stand behind the ASCII blanks and before all others. -/
theorem toNat_of_isAlphanum {c : Char} (h : c.isAlphanum = true) :
    48 ≤ c.toNat ∧ c.toNat ≤ 122 := by
  rcases (Bool.or_eq_true _ _).mp h with h | hdigit
  · rcases (Bool.or_eq_true _ _).mp h with hupper | hlower
    · have hupper : 65 ≤ c.toNat ∧ c.toNat ≤ 90 := of_decide_eq_true hupper
      omega
    · have hlower : 97 ≤ c.toNat ∧ c.toNat ≤ 122 :=
        ((Bool.and_eq_true _ _).mp hlower).imp of_decide_eq_true of_decide_eq_true
      omega
  · have hdigit : 48 ≤ c.toNat ∧ c.toNat ≤ 57 :=
      ((Bool.and_eq_true _ _).mp hdigit).imp of_decide_eq_true of_decide_eq_true
    omega

theorem isBlank_of_isAlphanum {c : Char} (h : c.isAlphanum = true) : isBlank c = false := by
  have hc := toNat_of_isAlphanum h
  simp only [isBlank, Bool.or_eq_false_iff, Bool.and_eq_false_iff, decide_eq_false_iff_not,
    beq_eq_false_iff_ne]
  omega

@[simp] theorem trim_nil : trim [] = [] := rfl

/-- The text left at the start does not begin with a blank. -/
theorem head?_trimStart {s : List Char} {c : Char} (h : (trimStart s).head? = some c) :
    isBlank c = false := by
  induction s with
  | nil => simp [trimStart] at h
  | cons d s ih =>
    by_cases hd : isBlank d
    · exact ih (by simpa [trimStart, List.dropWhile_cons, hd] using h)
    · have : d = c := by simpa [trimStart, List.dropWhile_cons, hd] using h
      simpa [this] using hd

/-- A text that neither begins nor ends with a blank is left as it is. -/
theorem trim_of_ends {s : List Char} (hs : ∀ c, s.head? = some c → isBlank c = false)
    (he : ∀ c, s.getLast? = some c → isBlank c = false) : trim s = s := by
  have start : trimStart s = s := by
    cases s with
    | nil => rfl
    | cons c s => simp [trimStart, hs c rfl]
  have stop : s.reverse.dropWhile isBlank = s.reverse := by
    cases hr : s.reverse with
    | nil => rfl
    | cons c r =>
      have : isBlank c = false := he c (by rw [← List.head?_reverse, hr]; rfl)
      simp [this]
  rw [trim, start, trimEnd, stop, List.reverse_reverse]

end StartOrder.Text
