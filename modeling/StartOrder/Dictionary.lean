/-!
# Dictionaries with sorted keys

A dictionary holds at most one value for a name and lists its entries by the order of the names'
code points, whatever the order in which they were put in. Equal contents are therefore equal
dictionaries. A dictionary without values is a set of names.

## Main definitions

* `Dictionary`, `Dictionary.get?`, `Dictionary.insert`, `Dictionary.ofList`
* `Names`: a set of names

## Main results

* `Dictionary.get?_insert`: an entry put in is found, and no other changes
* `Dictionary.get?_empty`: nothing is found in the empty dictionary
* `Dictionary.get?_ofList`: of the entries in a list the last one for a name is found
* `Dictionary.mem_entries_iff`: the entries are what looking up finds
-/

namespace StartOrder

/-- Entries with strictly increasing names. -/
structure Dictionary (α : Type) where
  entries : List (String × α) := []
  sorted : entries.Pairwise fun a b => a.1 < b.1 := by exact List.Pairwise.nil

namespace Dictionary

variable {α : Type}

instance [DecidableEq α] : DecidableEq (Dictionary α) := fun a b =>
  decidable_of_iff (a.entries = b.entries) ⟨fun h => by cases a; cases b; simp_all, congrArg _⟩

instance [Repr α] : Repr (Dictionary α) where
  reprPrec d n := reprPrec d.entries n

/-- The dictionary without entries. -/
def empty : Dictionary α := {}

instance : Inhabited (Dictionary α) := ⟨empty⟩

instance : EmptyCollection (Dictionary α) := ⟨empty⟩

/-- Put an entry among sorted entries, in place of one with the same name. -/
def insertEntry (name : String) (value : α) : List (String × α) → List (String × α)
  | [] => [(name, value)]
  | e :: es =>
    if name < e.1 then (name, value) :: e :: es
    else if name = e.1 then (name, value) :: es
    else e :: insertEntry name value es

theorem mem_insertEntry {name : String} {value : α} {e : String × α} {es : List (String × α)}
    (h : e ∈ insertEntry name value es) : e = (name, value) ∨ e ∈ es := by
  induction es with
  | nil => simpa [insertEntry] using h
  | cons d es ih =>
    unfold insertEntry at h
    split at h
    · simpa using h
    · split at h
      · rcases List.mem_cons.1 h with h | h
        · exact .inl h
        · exact .inr (List.mem_cons_of_mem _ h)
      · rcases List.mem_cons.1 h with h | h
        · exact .inr (h ▸ List.mem_cons_self)
        · exact (ih h).imp_right (List.mem_cons_of_mem _)

theorem sorted_insertEntry {name : String} {value : α} {es : List (String × α)}
    (h : es.Pairwise fun a b => a.1 < b.1) :
    (insertEntry name value es).Pairwise fun a b => a.1 < b.1 := by
  induction es with
  | nil => exact List.pairwise_singleton _ _
  | cons d es ih =>
    have hd := List.pairwise_cons.1 h
    unfold insertEntry
    split
    · next hlt =>
      refine List.pairwise_cons.2 ⟨fun e he => ?_, h⟩
      rcases List.mem_cons.1 he with rfl | he
      · exact hlt
      · exact String.lt_trans hlt (hd.1 e he)
    · split
      · next heq => exact List.pairwise_cons.2 ⟨fun e he => heq ▸ hd.1 e he, hd.2⟩
      · next hlt hne =>
        refine List.pairwise_cons.2 ⟨fun e he => ?_, ih hd.2⟩
        rcases mem_insertEntry he with rfl | he
        · rcases String.le_total name d.1 with hle | hle
          · exact absurd (String.le_antisymm hle (String.not_lt.1 hlt)) hne
          · exact String.not_le.1 fun h' => hne (String.le_antisymm h' hle)
        · exact hd.1 e he

/-- Give `name` the value `value`. -/
def insert (d : Dictionary α) (name : String) (value : α) : Dictionary α where
  entries := insertEntry name value d.entries
  sorted := sorted_insertEntry d.sorted

/-- The value of a name. -/
def get? (d : Dictionary α) (name : String) : Option α :=
  d.entries.lookup name

/-- Whether a name has a value. -/
def contains (d : Dictionary α) (name : String) : Bool :=
  (d.get? name).isSome

/-- The names, in order. -/
def names (d : Dictionary α) : List String :=
  d.entries.map Prod.fst

/-- The dictionary of a list of entries, of which the last for a name stands. -/
def ofList (es : List (String × α)) : Dictionary α :=
  es.foldl (fun d e => d.insert e.1 e.2) empty

@[simp] theorem get?_empty (name : String) : (empty : Dictionary α).get? name = none := rfl

theorem lookup_cons_eq_ite (key : String) (e : String × α) (es : List (String × α)) :
    (e :: es).lookup key = if key = e.1 then some e.2 else es.lookup key := by
  obtain ⟨name, value⟩ := e
  by_cases h : key = name
  · simp [h]
  · rw [List.lookup_cons, beq_false_of_ne h, if_neg h]

theorem lookup_insertEntry {name : String} {value : α} (key : String) (es : List (String × α)) :
    (insertEntry name value es).lookup key =
      if key = name then some value else es.lookup key := by
  induction es with
  | nil => simp [insertEntry, lookup_cons_eq_ite]
  | cons d es ih =>
    unfold insertEntry
    split
    · rw [lookup_cons_eq_ite]
    · split
      · next heq => simp only [lookup_cons_eq_ite, heq]; split <;> rfl
      · next hne =>
        rw [lookup_cons_eq_ite, lookup_cons_eq_ite, ih]
        by_cases h : key = d.1
        · simp [h, Ne.symm hne]
        · simp [h]

/-- An entry that was put in is found, and no other changes. -/
@[simp] theorem get?_insert (d : Dictionary α) (name : String) (value : α) (key : String) :
    (d.insert name value).get? key = if key = name then some value else d.get? key :=
  lookup_insertEntry key d.entries

/-- The last entry for a name is found. -/
theorem get?_ofList (es : List (String × α)) (key : String) :
    (ofList es).get? key = es.reverse.lookup key := by
  suffices h : ∀ d : Dictionary α, (es.foldl (fun d e => d.insert e.1 e.2) d).get? key =
      (es.reverse.lookup key).or (d.get? key) by
    rw [ofList, h, get?_empty, Option.or_none]
  induction es with
  | nil => exact fun d => rfl
  | cons e es ih =>
    intro d
    rw [List.foldl_cons, ih, get?_insert, List.reverse_cons, List.lookup_append,
      lookup_cons_eq_ite, List.lookup_nil, Option.or_assoc]
    split <;> rfl

/-- The entries are what looking up finds. -/
theorem mem_entries_iff {d : Dictionary α} {name : String} {value : α} :
    (name, value) ∈ d.entries ↔ d.get? name = some value := by
  obtain ⟨es, hs⟩ := d
  simp only [get?]
  induction es with
  | nil => simp
  | cons e es ih =>
    have he := List.pairwise_cons.1 hs
    rw [lookup_cons_eq_ite, List.mem_cons]
    by_cases h : name = e.1
    · have hm : (name, value) ∉ es := fun hm => String.lt_irrefl _ (h ▸ he.1 _ hm)
      subst h
      simp only [hm, or_false, ↓reduceIte, Option.some.injEq]
      exact ⟨fun h => (congrArg Prod.snd h).symm, fun h => by rw [← h]⟩
    · have hne : (name, value) ≠ e := fun he => h (congrArg Prod.fst he)
      simp [h, hne, ih he.2]

end Dictionary

/-- A set of names. -/
abbrev Names := Dictionary Unit

namespace Names

/-- The names of a list. -/
def ofList (ns : List String) : Names :=
  ns.foldl (fun d n => d.insert n ()) Dictionary.empty

/-- The members in order. -/
def toList (s : Names) : List String :=
  Dictionary.names s

/-- The members of either set. -/
def union (s t : Names) : Names :=
  t.toList.foldl (fun d n => d.insert n ()) s

/-- Whether a member of the one set is a member of the other. -/
def meets (s t : Names) : Bool :=
  s.toList.any t.contains

end Names

end StartOrder
