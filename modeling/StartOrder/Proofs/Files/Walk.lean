import StartOrder.Dictionary
import StartOrder.Proofs.Files.Path
import StartOrder.Proofs.Success

/-!
# Files in a tree

A file can be found in a tree by going down from a directory to one of its entries, or by looking up
a path. Both agree below a directory that a path leads to, if the tree is one that can be stored:
the names in a directory differ, and each is a single name that is not too long.

## Main definitions

* `FileTree.Holds`: a file lies at the end of names that lead down a tree
* `FileTree.WellFormed`: a tree that can be stored
* `FileTree.next`: one step along a path

## Main results

* `FileTree.walk_append`: a path is followed step by step
* `FileTree.walk_eq_ok_file_iff`: names are followed to the files that a tree holds
* `Machine.fileAt?_foldl_join_eq_some_iff`: the files at paths below a directory are those that it
  holds
-/

namespace StartOrder

open StartOrder.Path (IsName)

namespace FileTree

variable {t : FileTree} {es : List (String × FileTree)} {above : List FileTree} {name : String}
  {ns : List String} {content : FileContent}

/-! ## Going down -/

/-- A file lies at the end of names that lead down from a tree. -/
inductive Holds : FileTree → List String → FileContent → Prop
  | file (content : FileContent) : Holds (file content) [] content
  | entry {es : List (String × FileTree)} {name : String} {sub : FileTree} {ns : List String}
      {content : FileContent} (hentry : (name, sub) ∈ es) (hsub : Holds sub ns content) :
      Holds (directory es) (name :: ns) content

theorem holds_file_iff {content' : FileContent} :
    (file content').Holds ns content ↔ ns = [] ∧ content' = content := by
  constructor
  · rintro ⟨⟩
    exact ⟨rfl, rfl⟩
  · rintro ⟨rfl, rfl⟩
    exact .file _

theorem not_holds_directory_nil : ¬(directory es).Holds [] content := nofun

theorem ne_nil_of_holds_directory (h : (directory es).Holds ns content) : ns ≠ [] := by
  rintro rfl
  exact not_holds_directory_nil h

theorem holds_directory_cons_iff :
    (directory es).Holds (name :: ns) content ↔ ∃ sub, (name, sub) ∈ es ∧ sub.Holds ns content := by
  constructor
  · rintro ⟨⟩
    next sub hentry hsub => exact ⟨sub, hentry, hsub⟩
  · rintro ⟨sub, hentry, hsub⟩
    exact .entry hentry hsub

theorem not_holds_directory_empty : ¬(directory []).Holds ns content
  | .entry hentry _ => nomatch hentry

theorem holds_directory_cons_entry_iff :
    (directory ((name, t) :: es)).Holds ns content ↔
      (∃ ns', ns = name :: ns' ∧ t.Holds ns' content) ∨ (directory es).Holds ns content := by
  cases ns with
  | nil => exact iff_of_false not_holds_directory_nil (by simp [not_holds_directory_nil])
  | cons n ns =>
    simp only [holds_directory_cons_iff, List.mem_cons, Prod.mk.injEq, or_and_right, exists_or,
      List.cons.injEq]
    refine or_congr_left ?_
    constructor
    · rintro ⟨sub, ⟨rfl, rfl⟩, h⟩
      exact ⟨ns, ⟨rfl, rfl⟩, h⟩
    · rintro ⟨ns', ⟨rfl, rfl⟩, h⟩
      exact ⟨t, ⟨rfl, rfl⟩, h⟩

theorem exists_cons_of_holds_directory (h : (directory es).Holds ns content) :
    ∃ name ns', ns = name :: ns' ∧ name ∈ es.map Prod.fst := by
  obtain ⟨name, ns', rfl⟩ := List.exists_cons_of_ne_nil (ne_nil_of_holds_directory h)
  obtain ⟨sub, hentry, -⟩ := holds_directory_cons_iff.1 h
  exact ⟨name, ns', rfl, List.mem_map_of_mem hentry⟩

/-- A tree that can be stored. -/
inductive WellFormed : FileTree → Prop
  | file (content : FileContent) : WellFormed (file content)
  | directory {es : List (String × FileTree)} (hnodup : (es.map Prod.fst).Nodup)
      (hname : ∀ e ∈ es, IsName e.1 ∧ e.1.utf8ByteSize ≤ Path.nameLimit)
      (hsub : ∀ e ∈ es, WellFormed e.2) : WellFormed (directory es)

theorem WellFormed.sub (h : (FileTree.directory es).WellFormed) (hentry : (name, t) ∈ es) :
    IsName name ∧ t.WellFormed := by
  cases h with
  | directory hnodup hname hsub => exact ⟨(hname _ hentry).1, hsub _ hentry⟩

/-- The names that lead down a tree that can be stored are single names. -/
theorem WellFormed.isName_of_holds (ht : t.WellFormed) (h : t.Holds ns content) :
    ∀ n ∈ ns, IsName n := by
  induction h with
  | file content => exact List.forall_mem_nil _
  | entry hentry hsub ih =>
    exact List.forall_mem_cons.2 ⟨(ht.sub hentry).1, ih (ht.sub hentry).2⟩

theorem wellFormed_directory_cons (h : (directory ((name, t) :: es)).WellFormed) :
    t.WellFormed ∧ name ∉ es.map Prod.fst ∧ (directory es).WellFormed := by
  cases h with
  | directory hnodup hname hsub =>
    obtain ⟨hfirst, hrest⟩ := List.nodup_cons.1 hnodup
    exact ⟨hsub _ List.mem_cons_self, hfirst,
      .directory hrest (fun e he => hname e (List.mem_cons_of_mem _ he))
        (fun e he => hsub e (List.mem_cons_of_mem _ he))⟩

/-! ## Following a path -/

theorem lookup_eq_some_iff_mem (h : (es.map Prod.fst).Nodup) :
    es.lookup name = some t ↔ (name, t) ∈ es := by
  induction es with
  | nil => simp
  | cons e es ih =>
    obtain ⟨hfirst, hrest⟩ := List.nodup_cons.1 h
    rw [Dictionary.lookup_cons_eq_ite, List.mem_cons, Prod.ext_iff]
    by_cases hname : name = e.1
    · have hmem : (name, t) ∉ es := fun hmem => hfirst (hname ▸ List.mem_map_of_mem hmem)
      simp [hname, hname ▸ hmem, eq_comm]
    · simp [hname, ih hrest]

/-- Follow one part of a path from what it has led to, with the directories above that. -/
def next : FileTree × List FileTree → String → Except Absence (FileTree × List FileTree)
  | (file _, _), _ => .error .blocked
  | (directory es, above), name =>
    if name = "" ∨ name = "." then .ok (directory es, above)
    else if name = ".." then
      match above with
      | [] => .ok (directory es, [])
      | t :: ts => .ok (t, ts)
    else if Path.nameLimit < name.utf8ByteSize then .error .blocked
    else
      match es.lookup name with
      | none => .error .missing
      | some t => .ok (t, directory es :: above)

theorem walk_cons : walk (name :: ns) t above =
    next (t, above) name >>= fun s => walk ns s.1 s.2 := by
  cases t with
  | file content => rfl
  | directory es =>
    simp only [walk, next]
    split_ifs
    · rfl
    · cases above <;> rfl
    · rfl
    · cases es.lookup name <;> rfl

/-- The parts of a path are followed one after the other. -/
theorem walk_append (xs ys : List String) (s : FileTree × List FileTree) :
    walk (xs ++ ys) s.1 s.2 = xs.foldlM next s >>= fun s' => walk ys s'.1 s'.2 := by
  induction xs generalizing s with
  | nil => rfl
  | cons x xs ih =>
    rw [List.cons_append, walk_cons, List.foldlM_cons, bind_assoc]
    exact congrArg _ (funext fun s' => ih s')

/-- What is put behind a path to a directory is followed from there. An empty name behind the path
makes no difference. -/
theorem exists_walk_append_eq (xs : List String) (h : walk xs t above = .ok (directory es) ∨
    walk (xs ++ [""]) t above = .ok (directory es)) :
    ∃ above', ∀ ns, walk (xs ++ ns) t above = walk ns (directory es) above' := by
  obtain ⟨above', hrun⟩ : ∃ above', xs.foldlM next (t, above) = .ok (directory es, above') := by
    rcases h with h | h
    · rw [← List.append_nil xs] at h
      obtain ⟨⟨t', above'⟩, hs, h⟩ :=
        bind_eq_ok_iff.1 ((walk_append xs [] (t, above)).symm.trans h)
      obtain rfl : t' = directory es := Except.ok.inj h
      exact ⟨above', hs⟩
    · obtain ⟨⟨t', above'⟩, hs, h⟩ :=
        bind_eq_ok_iff.1 ((walk_append xs [""] (t, above)).symm.trans h)
      -- An empty name stays in place in a directory, and leads nowhere from a file.
      cases t' with
      | file content => cases h
      | directory es' =>
        have heq : directory es' = directory es := Except.ok.inj h
        exact ⟨above', heq ▸ hs⟩
  refine ⟨above', fun ns => ?_⟩
  rw [walk_append xs ns (t, above), hrun]
  rfl

/-- A name leads to the entry of that name, if there is one. -/
theorem next_eq_ok_iff {s : FileTree × List FileTree} (hes : (directory es).WellFormed)
    (h : IsName name) :
    next (directory es, above) name = .ok s ↔ (name, s.1) ∈ es ∧ s.2 = directory es :: above := by
  obtain ⟨t, above'⟩ := s
  cases hes with
  | directory hnodup hname hsub =>
    rw [← lookup_eq_some_iff_mem hnodup]
    simp only [next, h.nonempty, h.dot, h.up, or_self, if_false]
    split
    · next hlimit =>
      refine iff_of_false nofun (fun ⟨hlookup, _⟩ => ?_)
      have hentry := (lookup_eq_some_iff_mem hnodup).1 hlookup
      exact absurd (hname _ hentry).2 (Nat.not_le.2 hlimit)
    · cases es.lookup name with
      | none => simp
      | some t' => simp [eq_comm]

/-- **Names are followed to the files that a tree holds.** -/
theorem walk_eq_ok_file_iff (ht : t.WellFormed) (hns : ∀ n ∈ ns, IsName n) :
    walk ns t above = .ok (file content) ↔ t.Holds ns content := by
  induction ns generalizing t above with
  | nil =>
    cases t with
    | file content' => simp [walk, holds_file_iff]
    | directory es => simp [walk, not_holds_directory_nil]
  | cons n ns ih =>
    obtain ⟨hn, hns⟩ := List.forall_mem_cons.1 hns
    cases t with
    | file content' => simp [walk, holds_file_iff]
    | directory es =>
      rw [holds_directory_cons_iff, walk_cons, bind_eq_ok_iff]
      simp only [next_eq_ok_iff ht hn]
      constructor
      · rintro ⟨⟨sub, above'⟩, ⟨hentry, -⟩, h⟩
        exact ⟨sub, hentry, (ih (ht.sub hentry).2 hns).1 h⟩
      · rintro ⟨sub, hentry, h⟩
        exact ⟨(sub, directory es :: above), ⟨hentry, rfl⟩, (ih (ht.sub hentry).2 hns).2 h⟩

end FileTree

/-! ## The path of a file -/

namespace Machine

open FileTree (directory file walk)

variable {machine : Machine} {path : String} {t : FileTree} {es : List (String × FileTree)}
  {ns : List String} {content : FileContent}

theorem fileAt?_eq_some_iff :
    machine.fileAt? path = some content ↔ machine.locate path = .ok (file content) := by
  unfold fileAt?
  split
  · next h => simp [h]
  · next h => exact iff_of_false nofun (h content)

theorem locate_eq_ok (h : machine.locate path = .ok t) :
    path ≠ "" ∧ walk (machine.route path) machine.root [] = .ok t := by
  unfold locate at h
  split_ifs at h with himpossible hempty
  exact ⟨by simpa using hempty, h⟩

/-- Names are followed behind what is followed for a path, wherever the path begins. They replace an
empty name at its end. -/
theorem exists_route_foldl_join (machine : Machine) (hpath : path ≠ "") :
    ∃ xs, (machine.route path = xs ∨ machine.route path = xs ++ [""]) ∧
      ∀ n ns, (∀ n' ∈ n :: ns, IsName n') →
        machine.route ((n :: ns).foldl Path.join path) = xs ++ n :: ns := by
  obtain ⟨xs, hparts, hjoin⟩ := Path.exists_parts_foldl_join hpath
  have habsolute {ns : List String} (hns : ∀ n ∈ ns, IsName n) :
      Path.isAbsolute (ns.foldl Path.join path) = Path.isAbsolute path :=
    (Path.trail_foldl_join path fun n hn => Path.isAbsolute_of_not_mem (hns n hn).slash).1
  let start := if Path.isAbsolute path then [] else machine.workingDirectory
  have hroute {q : String} (hq : Path.isAbsolute q = Path.isAbsolute path) :
      machine.route q = start ++ Path.parts q := by
    simp only [route, hq, start]
    split <;> rfl
  refine ⟨start ++ xs, ?_, fun n ns hns => ?_⟩
  · rw [hroute rfl, List.append_assoc]
    exact hparts.imp (congrArg _) (congrArg _)
  · rw [hroute (habsolute hns), hjoin n ns hns, List.append_assoc]

/-- **The files at paths below a directory are those that it holds**, unless their paths are
impossible. -/
theorem fileAt?_foldl_join_eq_some_iff (hes : (directory es).WellFormed)
    (hpath : machine.locate path = .ok (directory es)) (hns : ∀ n ∈ ns, IsName n) :
    machine.fileAt? (ns.foldl Path.join path) = some content ↔
      Path.isImpossible (ns.foldl Path.join path) = false ∧ (directory es).Holds ns content := by
  obtain ⟨hne, hwalk⟩ := locate_eq_ok hpath
  cases ns with
  | nil =>
    rw [List.foldl_nil, fileAt?, hpath]
    exact iff_of_false nofun (fun h => FileTree.not_holds_directory_nil h.2)
  | cons n ns =>
    obtain ⟨xs, hroute, hjoin⟩ := exists_route_foldl_join machine hne
    obtain ⟨above, habove⟩ := FileTree.exists_walk_append_eq xs
      (hroute.imp (fun h => h ▸ hwalk) (fun h => h ▸ hwalk))
    have hempty := Path.foldl_join_ne_empty hne hns
    rw [fileAt?_eq_some_iff, locate, hjoin n ns hns, habove]
    split
    · next himpossible =>
      exact iff_of_false nofun (fun h => Bool.false_ne_true (h.1.symm.trans himpossible))
    · next himpossible =>
      rw [if_neg (by simpa only [String.isEmpty_iff] using hempty),
        FileTree.walk_eq_ok_file_iff hes hns, and_iff_right (Bool.eq_false_iff.2 himpossible)]

end Machine

end StartOrder
