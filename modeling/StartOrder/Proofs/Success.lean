import Mathlib.Data.List.Forall2

/-!
# Computations that succeed

A computation that may fail is taken apart at its steps: when the whole succeeds, every step has
succeeded.

## Main results

* `bind_eq_ok_iff`, `map_eq_ok_iff`, `mapError_eq_ok_iff`, `exists_bind_eq_ok_iff`,
  `exists_bind_pure_eq_ok_iff`: when a composed computation succeeds
* `bind_eq_error_iff`, `map_eq_error_iff`, `mapError_eq_error_iff`: when it fails, and with what
* `exists_eq_error_iff`, `exists_map_eq_error_iff`: when it fails at all
* `exists_eq_ok_of_map`, `isOk_iff`: a computation succeeds when something of its result is known,
  or that it has one
* `exists_mapM_eq_ok_iff`, `exists_foldlM_eq_ok_iff`, `forIn_eq_ok`: when a loop succeeds
* `forall₂_of_mapM_eq_ok`, `mem_iff_of_mapM_eq_ok`, `getElem?_of_mapM_eq_ok`: the results of a
  loop over a list
* `mapError_bind`, `mapError_forIn`: the errors of a sequence and of a loop replaced by others
-/

namespace StartOrder

variable {ε α β : Type}

theorem bind_eq_ok_iff {x : Except ε α} {f : α → Except ε β} {b : β} :
    x >>= f = .ok b ↔ ∃ a, x = .ok a ∧ f a = .ok b := by
  cases x with
  | error e => simp [bind, Except.bind]
  | ok a => simp [bind, Except.bind]

theorem map_eq_ok_iff {x : Except ε α} {f : α → β} {b : β} :
    x.map f = .ok b ↔ ∃ a, x = .ok a ∧ f a = b := by
  cases x with
  | error e => simp [Except.map]
  | ok a => simp [Except.map]

theorem mapError_eq_ok_iff {ε' : Type} {x : Except ε α} {f : ε → ε'} {a : α} :
    x.mapError f = .ok a ↔ x = .ok a := by
  cases x <;> simp [Except.mapError]

/-- A sequence succeeds when its first part does, and the second one behind what the first gives. -/
theorem exists_bind_eq_ok_iff {x : Except ε α} {f : α → Except ε β} :
    (∃ b, x >>= f = .ok b) ↔ ∃ a, x = .ok a ∧ ∃ b, f a = .ok b := by
  simp only [bind_eq_ok_iff]
  rw [exists_comm]
  simp only [exists_and_left]

/-- A computation that only rearranges the result of another one succeeds when that one does. -/
theorem exists_bind_pure_eq_ok_iff {x : Except ε α} {f : α → β} :
    (∃ b, (x >>= fun a => pure (f a)) = .ok b) ↔ ∃ a, x = .ok a := by
  rw [exists_bind_eq_ok_iff]
  exact exists_congr fun a => and_iff_left ⟨f a, rfl⟩

/-- A sequence fails at its first part, or at the second one behind what the first gives. -/
theorem bind_eq_error_iff {x : Except ε α} {f : α → Except ε β} {e : ε} :
    x >>= f = .error e ↔ x = .error e ∨ ∃ a, x = .ok a ∧ f a = .error e := by
  cases x with
  | error e' => simp [bind, Except.bind]
  | ok a => simp [bind, Except.bind]

theorem map_eq_error_iff {x : Except ε α} {f : α → β} {e : ε} :
    x.map f = .error e ↔ x = .error e := by
  cases x <;> simp [Except.map]

theorem exists_map_eq_error_iff {x : Except ε α} {f : α → β} :
    (∃ e, x.map f = .error e) ↔ ∃ e, x = .error e :=
  exists_congr fun _ => map_eq_error_iff

theorem mapError_eq_error_iff {ε' : Type} {x : Except ε α} {f : ε → ε'} {e' : ε'} :
    x.mapError f = .error e' ↔ ∃ e, x = .error e ∧ f e = e' := by
  cases x <;> simp [Except.mapError]

/-- A computation fails when it does not succeed. -/
theorem exists_eq_error_iff {x : Except ε α} : (∃ e, x = .error e) ↔ ¬∃ a, x = .ok a := by
  cases x <;> simp

/-- A computation succeeds when something of its result is known. -/
theorem exists_eq_ok_of_map {x : Except ε α} {f : α → β} {b : β}
    (h : x.toOption.map f = some b) : ∃ a, x = .ok a ∧ f a = b := by
  cases x with
  | error e => simp [Except.toOption] at h
  | ok a => exact ⟨a, rfl, by simpa [Except.toOption] using h⟩

theorem isOk_map (x : Except ε α) (f : α → β) : (x.map f).isOk = x.isOk := by
  cases x <;> rfl

theorem isOk_iff {x : Except ε α} : x.isOk = true ↔ ∃ a, x = .ok a := by
  cases x <;> simp [Except.isOk, Except.toBool]

theorem exists_eq_ok_of_isOk {x : Except ε α} (h : x.isOk = true) : ∃ a, x = .ok a :=
  isOk_iff.1 h

theorem exists_mapM_eq_ok_iff {f : α → Except ε β} {as : List α} :
    (∃ bs, as.mapM f = .ok bs) ↔ ∀ a ∈ as, ∃ b, f a = .ok b := by
  induction as with
  | nil => exact ⟨fun _ => by simp, fun _ => ⟨[], rfl⟩⟩
  | cons a as ih =>
    rw [List.forall_mem_cons, ← ih, List.mapM_cons]
    constructor
    · rintro ⟨_, h⟩
      obtain ⟨b, hb, h⟩ := bind_eq_ok_iff.1 h
      obtain ⟨bs, hbs, -⟩ := bind_eq_ok_iff.1 h
      exact ⟨⟨b, hb⟩, bs, hbs⟩
    · rintro ⟨⟨b, hb⟩, bs, hbs⟩
      exact ⟨b :: bs, by rw [hb, hbs]; rfl⟩

/-- A loop over a list gives one result for each member, at the same position. -/
theorem forall₂_of_mapM_eq_ok {f : α → Except ε β} {as : List α} {bs : List β}
    (h : as.mapM f = .ok bs) : List.Forall₂ (fun a b => f a = .ok b) as bs := by
  induction as generalizing bs with
  | nil =>
    obtain rfl := Except.ok.inj h
    exact .nil
  | cons a as ih =>
    rw [List.mapM_cons] at h
    obtain ⟨b, hb, h⟩ := bind_eq_ok_iff.1 h
    obtain ⟨bs, hbs, h⟩ := bind_eq_ok_iff.1 h
    obtain rfl := Except.ok.inj h
    exact .cons hb (ih hbs)

/-- The results of a loop are those of the members of the list. -/
theorem mem_iff_of_mapM_eq_ok {f : α → Except ε β} {as : List α} {bs : List β}
    (h : as.mapM f = .ok bs) {b : β} : b ∈ bs ↔ ∃ a ∈ as, f a = .ok b := by
  have hall := forall₂_of_mapM_eq_ok h
  clear h
  induction hall with
  | nil => simp
  | cons hb _ ih => simp [ih, hb, eq_comm (a := b)]

theorem getElem?_of_mapM_eq_ok {f : α → Except ε β} {as : List α} {bs : List β} {i : Nat} {a : α}
    (h : as.mapM f = .ok bs) (ha : as[i]? = some a) : ∃ b, bs[i]? = some b ∧ f a = .ok b := by
  have hall := forall₂_of_mapM_eq_ok h
  clear h
  induction hall generalizing i with
  | nil => cases ha
  | @cons a' b as bs hb _ ih =>
    cases i with
    | zero => exact ⟨b, rfl, Option.some.inj ha ▸ hb⟩
    | succ i => exact ih ha

/-- A loop with a state succeeds when its steps do, if no step depends on the state for that. -/
theorem exists_foldlM_eq_ok_iff {P : α → Prop} {f : β → α → Except ε β} {as : List α}
    (h : ∀ a ∈ as, ∀ b, (∃ b', f b a = .ok b') ↔ P a) (b : β) :
    (∃ b', as.foldlM f b = .ok b') ↔ ∀ a ∈ as, P a := by
  induction as generalizing b with
  | nil => exact ⟨fun _ => List.forall_mem_nil _, fun _ => ⟨b, rfl⟩⟩
  | cons a as ih =>
    rw [List.forall_mem_cons] at h
    rw [List.forall_mem_cons, List.foldlM_cons]
    constructor
    · rintro ⟨b', hb'⟩
      obtain ⟨b₁, hb₁, hb'⟩ := bind_eq_ok_iff.1 hb'
      exact ⟨(h.1 b).1 ⟨b₁, hb₁⟩, (ih h.2 b₁).1 ⟨b', hb'⟩⟩
    · rintro ⟨ha, has⟩
      obtain ⟨b₁, hb₁⟩ := (h.1 b).2 ha
      rw [hb₁]
      exact (ih h.2 b₁).2 has

/-- A loop with a state succeeds when each of its steps does so from every state. -/
theorem exists_foldlM_eq_ok {f : β → α → Except ε β} {as : List α}
    (h : ∀ a ∈ as, ∀ b, ∃ b', f b a = .ok b') (b : β) : ∃ b', as.foldlM f b = .ok b' :=
  (exists_foldlM_eq_ok_iff (P := fun _ => True) (fun a ha b => by simp [h a ha b]) b).2
    fun _ _ => trivial

/-- A loop that only checks succeeds when all checks do. -/
theorem forIn_eq_ok {f : α → Except ε β} {as : List α} (h : ∀ a ∈ as, ∃ b, f a = .ok b) :
    forIn as PUnit.unit (fun a _ => do let _ ← f a; pure (.yield PUnit.unit)) =
      Except.ok PUnit.unit := by
  induction as with
  | nil => rfl
  | cons a as ih =>
    rw [List.forall_mem_cons] at h
    obtain ⟨b, hb⟩ := h.1
    rw [List.forIn_cons, hb]
    exact ih h.2

/-! ## Other errors -/

/-- The steps of a sequence can give the other errors themselves. -/
theorem mapError_bind {ε' : Type} (x : Except ε α) (f : α → Except ε β) (g : ε → ε') :
    (x >>= f).mapError g = x.mapError g >>= fun a => (f a).mapError g := by
  cases x <;> rfl

/-- The checks of a loop that only checks can give the other errors themselves. -/
theorem mapError_forIn {ε' : Type} (f : α → Except ε β) (g : ε → ε') (as : List α) :
    (forIn as PUnit.unit (fun a _ => do let _ ← f a; pure (.yield PUnit.unit))).mapError g =
      forIn as PUnit.unit (fun a _ => do let _ ← (f a).mapError g; pure (.yield PUnit.unit)) := by
  induction as with
  | nil => rfl
  | cons a as ih =>
    rw [List.forIn_cons, List.forIn_cons, mapError_bind, mapError_bind]
    cases f a with
    | error e => rfl
    | ok b => exact ih

end StartOrder
