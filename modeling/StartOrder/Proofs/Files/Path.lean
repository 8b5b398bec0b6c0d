import Mathlib.Data.List.Basic
import StartOrder.Files

/-!
# Paths by their names

A path is followed name by name, where an empty name and a dot stay in place. What is put behind a
path adds its names to those of the path, unless it begins at the root of the machine. Steps upwards
can be resolved without looking at any directory: each takes away the name before it. Above the root
of the machine there is nothing, but a path that does not begin there may go up from where it begins
as often as it likes.

## Main definitions

* `Path.names`: the names that lead somewhere
* `Path.IsName`: a single name, of an entry in a directory
* `Path.trail`: the names that are left when steps upwards are resolved, the last one first
* `Path.LeadsOn`: names lead on, without going up, from where other names lead
* `Path.IsBelow`: a path leads to something strictly below a directory

## Main results

* `Path.names_join`, `Path.isAbsolute_join`, `Path.trail_join`: what is put behind a path
* `Path.IsName.isBelow_join_iff`: which entries lie below a directory
-/

namespace StartOrder.Path

variable {path name : String}

/-! ## Names -/

/-- The names that lead somewhere. An empty name and a dot stay in place. -/
def names (path : String) : List String :=
  (parts path).filter fun name => name != "" && name != "."

theorem mem_names_iff : name ∈ names path ↔ name ∈ parts path ∧ name ≠ "" ∧ name ≠ "." := by
  simp [names]

theorem parts_append_slash (p q : String) : parts (p ++ "/" ++ q) = parts p ++ parts q := by
  simp [parts, List.splitOn_append_cons_self]

theorem parts_slash (p : String) : parts (p ++ "/") = parts p ++ [""] := by
  rw [← String.append_empty (s := p ++ "/"), parts_append_slash]
  rfl

theorem names_append_slash (p q : String) : names (p ++ "/" ++ q) = names p ++ names q := by
  rw [names, parts_append_slash, List.filter_append]
  rfl

theorem names_empty : names "" = [] := rfl

/-- A path that ends with a slash is another one with the slash behind it. -/
theorem exists_eq_append_slash (h : path.toList.getLast? = some '/') :
    ∃ p, path = p ++ "/" := by
  obtain ⟨s, hs⟩ := List.getLast?_eq_some_iff.1 h
  refine ⟨String.ofList s, String.toList_inj.1 ?_⟩
  simp [hs]

/-- **The names behind a path are added to its own.** -/
theorem names_join (h : isAbsolute name = false) :
    names (join path name) = names path ++ names name := by
  unfold join
  split
  · next hempty =>
    rw [h, Bool.false_or, String.isEmpty_iff] at hempty
    rw [hempty, names_empty, List.nil_append]
  · split
    · next hslash =>
      obtain ⟨p, rfl⟩ := exists_eq_append_slash (by simpa using hslash)
      have hp : names (p ++ "/") = names p := by
        simp [names, parts_slash]
      rw [names_append_slash, hp]
    · exact names_append_slash path name

theorem isAbsolute_append {q : String} (h : path ≠ "") :
    isAbsolute (path ++ q) = isAbsolute path := by
  have hne : path.toList ≠ [] := by simpa using h
  simp only [isAbsolute, String.toList_append, List.head?_append_of_ne_nil _ hne]

/-- What is put behind a path does not change where it begins. -/
theorem isAbsolute_join (h : isAbsolute name = false) :
    isAbsolute (join path name) = isAbsolute path := by
  unfold join
  split
  · next hempty =>
    rw [h, Bool.false_or, String.isEmpty_iff] at hempty
    rw [hempty, h]
    rfl
  · next hempty =>
    have hne : path ≠ "" := by
      rintro rfl
      simp at hempty
    split
    · exact isAbsolute_append hne
    · rw [String.append_assoc]
      exact isAbsolute_append hne

/-- A name that an entry of a directory can have. -/
structure IsName (name : String) : Prop where
  slash : '/' ∉ name.toList
  nonempty : name ≠ ""
  dot : name ≠ "."
  up : name ≠ ".."

instance (name : String) : Decidable (IsName name) :=
  decidable_of_iff ('/' ∉ name.toList ∧ name ≠ "" ∧ name ≠ "." ∧ name ≠ "..")
    ⟨fun ⟨hslash, hne, hdot, hup⟩ => ⟨hslash, hne, hdot, hup⟩, fun h => ⟨h.1, h.2, h.3, h.4⟩⟩

/-- A text without slashes is a name of its own, unless it stays in place. -/
theorem parts_of_not_mem (h : '/' ∉ name.toList) : parts name = [name] := by
  rw [parts, List.splitOn_eq_singleton h]
  simp

theorem isAbsolute_of_not_mem (h : '/' ∉ name.toList) : isAbsolute name = false := by
  rw [isAbsolute, beq_eq_false_iff_ne]
  exact fun hhead => h (List.mem_of_head? hhead)

theorem IsName.names_eq (h : IsName name) : names name = [name] := by
  simp [names, parts_of_not_mem h.slash, h.nonempty, h.dot]

/-! ## Names behind a path -/

variable {ns : List String}

theorem names_foldl_join (path : String) (h : ∀ n ∈ ns, IsName n) :
    names (ns.foldl join path) = names path ++ ns := by
  induction ns generalizing path with
  | nil => simp
  | cons n ns ih =>
    obtain ⟨hn, hns⟩ := List.forall_mem_cons.1 h
    rw [List.foldl_cons, ih (join path n) hns, names_join (isAbsolute_of_not_mem hn.slash),
      hn.names_eq, List.append_assoc, List.singleton_append]

/-- A name is put behind a path that does not end with a slash as one more part. -/
theorem parts_join (hpath : path ≠ "") (hend : path.toList.getLast? ≠ some '/') (h : IsName name) :
    parts (join path name) = parts path ++ [name] := by
  have habsolute := isAbsolute_of_not_mem h.slash
  rw [join, if_neg (by simp [habsolute, hpath]), if_neg (by simpa using hend), parts_append_slash,
    parts_of_not_mem h.slash]

theorem exists_join_eq_append (path name : String) : ∃ front, join path name = front ++ name := by
  unfold join
  split_ifs
  · exact ⟨"", by simp⟩
  · exact ⟨path, rfl⟩
  · exact ⟨path ++ "/", rfl⟩

/-- A path with a name behind it does not end with a slash. -/
theorem join_ne_empty_and_getLast? (path : String) (h : IsName name) :
    join path name ≠ "" ∧ (join path name).toList.getLast? ≠ some '/' := by
  obtain ⟨front, hfront⟩ := exists_join_eq_append path name
  have hne : name.toList ≠ [] := by simpa using h.nonempty
  rw [hfront, String.toList_append, List.getLast?_append_of_ne_nil _ hne]
  exact ⟨by simp [h.nonempty], fun hend => h.slash (List.mem_of_getLast? hend)⟩

theorem foldl_join_ne_empty (hpath : path ≠ "") (h : ∀ n ∈ ns, IsName n) :
    ns.foldl join path ≠ "" := by
  induction ns generalizing path with
  | nil => exact hpath
  | cons n ns ih =>
    obtain ⟨hn, hns⟩ := List.forall_mem_cons.1 h
    exact ih (join_ne_empty_and_getLast? path hn).1 hns

theorem parts_foldl_join (hpath : path ≠ "") (hend : path.toList.getLast? ≠ some '/')
    (h : ∀ n ∈ ns, IsName n) : parts (ns.foldl join path) = parts path ++ ns := by
  induction ns generalizing path with
  | nil => simp
  | cons n ns ih =>
    obtain ⟨hn, hns⟩ := List.forall_mem_cons.1 h
    obtain ⟨hpath', hend'⟩ := join_ne_empty_and_getLast? path hn
    rw [List.foldl_cons, ih hpath' hend' hns, parts_join hpath hend hn, List.append_assoc,
      List.singleton_append]

/-- Names are put behind a path as its last parts. They replace an empty part at its end. -/
theorem exists_parts_foldl_join (hpath : path ≠ "") :
    ∃ xs, (parts path = xs ∨ parts path = xs ++ [""]) ∧
      ∀ n ns, (∀ n' ∈ n :: ns, IsName n') → parts ((n :: ns).foldl join path) = xs ++ n :: ns := by
  by_cases hend : path.toList.getLast? = some '/'
  · obtain ⟨q, rfl⟩ := exists_eq_append_slash hend
    refine ⟨parts q, .inr (parts_slash q), fun n ns h => ?_⟩
    obtain ⟨hn, hns⟩ := List.forall_mem_cons.1 h
    have hjoin : join (q ++ "/") n = q ++ "/" ++ n := by
      rw [join, if_neg (by simp [isAbsolute_of_not_mem hn.slash]), if_pos (by simp)]
    -- Behind the first name there is no slash any more, and each other name adds a part.
    obtain ⟨hpath', hend'⟩ := join_ne_empty_and_getLast? (q ++ "/") hn
    rw [List.foldl_cons, parts_foldl_join hpath' hend' hns, hjoin, parts_append_slash,
      parts_of_not_mem hn.slash, List.append_assoc, List.singleton_append]
  · exact ⟨parts path, .inl rfl, fun n ns h => parts_foldl_join hpath hend h⟩

/-! ## Steps upwards -/

/-- Go one step on from where the names `above` lead, the last one first. -/
def step (isRooted : Bool) (above : List String) (name : String) : List String :=
  if name = ".." then
    match above with
    | [] => if isRooted then [] else [".."]
    | last :: rest => if last = ".." then ".." :: last :: rest else rest
  else name :: above

/-- The names that are left of a path when steps upwards are resolved, the last one first. -/
def trail (path : String) : List String :=
  (names path).foldl (step (isAbsolute path)) []

/-- Names lead on, without going up, from where other names lead. -/
def LeadsOn (above base : List String) : Prop :=
  ∃ rest, ".." ∉ rest ∧ above = rest ++ base

/-- A path leads to something strictly below a directory. -/
def IsBelow (path directory : String) : Prop :=
  isAbsolute path = isAbsolute directory ∧
    LeadsOn (trail path) (trail directory) ∧ trail path ≠ trail directory

variable {isRooted : Bool} {above base : List String}

theorem step_of_ne (h : name ≠ "..") : step isRooted above name = name :: above :=
  if_neg h

theorem step_up_cons (h : name ≠ "..") : step isRooted (name :: above) ".." = above := by
  rw [step, if_pos rfl]
  exact if_neg h

/-- A step upwards takes the last name away, or is one step further above. -/
theorem step_up_cases (isRooted : Bool) (above : List String) :
    (∃ last rest, above = last :: rest ∧ last ≠ ".." ∧ step isRooted above ".." = rest) ∨
      (isRooted = true ∧ above = [] ∧ step isRooted above ".." = []) ∨
        step isRooted above ".." = ".." :: above := by
  cases above with
  | nil => cases isRooted <;> simp [step]
  | cons last rest =>
    by_cases h : last = ".."
    · simp [step, h]
    · exact .inl ⟨last, rest, rfl, h, step_up_cons h⟩

theorem mem_foldl_step
    (h : name ∈ ns.foldl (step isRooted) above) : name ∈ above ∨ name ∈ ns ∨ name = ".." := by
  -- A step adds its own name, whether it goes upwards or not, or takes one away.
  induction ns generalizing above with
  | nil => exact .inl h
  | cons n ns ih =>
    rcases ih h with h | h | h
    · by_cases hn : n = ".."
      · subst hn
        rcases step_up_cases isRooted above with ⟨last, rest, rfl, -, hstep⟩ | ⟨-, -, hstep⟩ | hstep
        · rw [hstep] at h
          exact .inl (List.mem_cons_of_mem _ h)
        · rw [hstep] at h
          cases h
        · rw [hstep] at h
          exact (List.mem_cons.1 h).elim (fun h => .inr (.inr h)) .inl
      · rw [step_of_ne hn] at h
        exact (List.mem_cons.1 h).elim (fun h => .inr (.inl (h ▸ List.mem_cons_self))) .inl
    · exact .inr (.inl (List.mem_cons_of_mem _ h))
    · exact .inr (.inr h)

/-- A dot is no step. -/
theorem dot_not_mem_trail (path : String) : "." ∉ trail path := by
  intro h
  rcases mem_foldl_step h with h | h | h
  · cases h
  · exact (mem_names_iff.1 h).2.2 rfl
  · exact absurd h (by decide)

/-- Go on along a path. -/
def enter (isRooted : Bool) (above : List String) (path : String) : List String :=
  (names path).foldl (step isRooted) above

theorem trail_join (h : isAbsolute name = false) :
    trail (join path name) = enter (isAbsolute path) (trail path) name := by
  rw [trail, names_join h, isAbsolute_join h, List.foldl_append]
  rfl

/-- What is put behind a path, one name after the other. -/
theorem trail_foldl_join (path : String) (h : ∀ n ∈ ns, isAbsolute n = false) :
    isAbsolute (ns.foldl join path) = isAbsolute path ∧
      trail (ns.foldl join path) = ns.foldl (enter (isAbsolute path)) (trail path) := by
  induction ns generalizing path with
  | nil => exact ⟨rfl, rfl⟩
  | cons n ns ih =>
    rw [List.forall_mem_cons] at h
    obtain ⟨habsolute, htrail⟩ := ih (join path n) h.2
    rw [isAbsolute_join h.1] at habsolute htrail
    rw [List.foldl_cons, List.foldl_cons, habsolute, htrail, trail_join h.1]
    exact ⟨rfl, rfl⟩

theorem enter_dot (isRooted : Bool) (above : List String) : enter isRooted above "." = above := rfl

theorem enter_up (isRooted : Bool) (above : List String) :
    enter isRooted above ".." = step isRooted above ".." := rfl

theorem IsName.enter_eq (h : IsName name) : enter isRooted above name = name :: above := by
  rw [enter, h.names_eq]
  exact step_of_ne h.up

/-- Names are put behind the names above them. -/
theorem foldl_enter_eq (h : ∀ n ∈ ns, IsName n) :
    ns.foldl (enter isRooted) above = ns.reverse ++ above := by
  induction ns generalizing above with
  | nil => rfl
  | cons n ns ih =>
    rw [List.forall_mem_cons] at h
    rw [List.foldl_cons, h.1.enter_eq, ih h.2]
    simp

/-! ## Leading on -/

theorem LeadsOn.refl (base : List String) : LeadsOn base base :=
  ⟨[], List.not_mem_nil, rfl⟩

theorem leadsOn_append (h : ".." ∉ ns) : LeadsOn (ns ++ base) base :=
  ⟨ns, h, rfl⟩

theorem leadsOn_iff : LeadsOn above base ↔
    base <:+ above ∧ ".." ∉ above.take (above.length - base.length) := by
  constructor
  · rintro ⟨rest, hup, rfl⟩
    exact ⟨List.suffix_append rest base, by simpa using hup⟩
  · rintro ⟨⟨rest, rfl⟩, hup⟩
    exact leadsOn_append (by simpa using hup)

instance (above base : List String) : Decidable (LeadsOn above base) :=
  decidable_of_iff _ leadsOn_iff.symm

instance (path directory : String) : Decidable (IsBelow path directory) :=
  inferInstanceAs (Decidable (_ ∧ _ ∧ _))

/-- A name that does not go up leads on from where it began or from where names led on already. -/
theorem leadsOn_cons_iff (h : name ≠ "..") :
    LeadsOn (name :: above) base ↔ name :: above = base ∨ LeadsOn above base := by
  constructor
  · rintro ⟨_ | ⟨first, rest⟩, hup, heq⟩
    · exact .inl heq
    · rw [List.cons_append, List.cons.injEq] at heq
      exact .inr ⟨rest, fun hmem => hup (List.mem_cons_of_mem _ hmem), heq.2⟩
  · rintro (rfl | ⟨rest, hup, rfl⟩)
    · exact .refl _
    · exact ⟨name :: rest, by simpa using ⟨h.symm, hup⟩, rfl⟩

theorem LeadsOn.length_le (h : LeadsOn above base) : base.length ≤ above.length := by
  obtain ⟨rest, -, rfl⟩ := h
  rw [List.length_append]
  omega

/-- Names that go up from where others lead do not lead on from there. -/
theorem not_leadsOn_append_up (ns : List String) : ¬LeadsOn (ns ++ ".." :: base) base := by
  rintro ⟨rest, hup, heq⟩
  rw [List.append_cons] at heq
  exact hup (List.append_cancel_right heq ▸ by simp)

/-- An entry of a directory lies below another one, if the directory leads on from there. -/
theorem IsName.isBelow_join_iff {directory : String} (h : IsName name) :
    IsBelow (join path name) directory ↔
      isAbsolute path = isAbsolute directory ∧ LeadsOn (trail path) (trail directory) := by
  have habsolute := isAbsolute_of_not_mem h.slash
  rw [IsBelow, isAbsolute_join habsolute, trail_join habsolute, h.enter_eq, leadsOn_cons_iff h.up]
  refine and_congr_right fun _ => ?_
  constructor
  · rintro ⟨heq | hleads, hne⟩
    · exact absurd heq hne
    · exact hleads
  · refine fun hleads => ⟨.inr hleads, fun heq => ?_⟩
    have hlength := hleads.length_le
    rw [← heq, List.length_cons] at hlength
    omega

end StartOrder.Path
