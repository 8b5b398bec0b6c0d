import StartOrder.Document.Readers
import StartOrder.Proofs.Files.Walk
import StartOrder.Repository

/-!
# What is discovered in a repository

A repository is scanned by going down its directories. Which files are found does not depend on the
order of the entries in a directory, only on where the files lie, and none is found twice, as the
entries of a directory differ in their names. The files are then sorted by the names that lead to
them, and those that do not load are left out, one by one. So the descriptors that come out are
determined by what loads: there is one list of them in strictly increasing order.

## Main definitions

* `Repository.IsManifest`: the names at which a manifest can lie
* `Repository.Offers`: a manifest of a repository loads, and is described
* `Repository.Increasing`: descriptors in the order of their paths

## Main results

* `Repository.mem_manifestFiles_iff`: which files are found
* `Repository.distinct_manifestFiles`: none is found twice
* `Repository.pairwise_sorted`: their order
* `Repository.discovered_once`: the descriptors are those of the manifests that load, each once and
  in order, whatever else lies in the repository
-/

namespace StartOrder

open StartOrder.Path (IsName)

namespace Repository

/-- The names that lead to a manifest: a file with the extension in the repository itself, or one
with the name of a manifest in a directory below. -/
def IsManifest (names : List String) : Prop :=
  (∃ stem, stem ≠ "" ∧ names = [stem ++ ".toml"]) ∨ ∃ ns, ns ≠ [] ∧ names = ns ++ ["module.toml"]

variable {names ns : List String} {name : String} {content : FileContent}
  {es sub : List (String × FileTree)} {f : Found}

/-! ## What is found -/

/-- Names lead from a directory below the repository to a manifest. -/
def LeadsTo (t : FileTree) (names : List String) (f : Found) : Prop :=
  ∃ ns, ns.getLast? = some manifestName ∧ f.1 = names ++ ns ∧ t.Holds ns f.2

theorem not_leadsTo_empty : ¬LeadsTo (.directory []) names f :=
  fun ⟨_, _, _, hholds⟩ => FileTree.not_holds_directory_empty hholds

theorem leadsTo_cons_file_iff : LeadsTo (.directory ((name, .file content) :: es)) names f ↔
    (name = manifestName ∧ f = (names ++ [name], content)) ∨ LeadsTo (.directory es) names f := by
  unfold LeadsTo
  simp only [FileTree.holds_directory_cons_entry_iff, FileTree.holds_file_iff, and_or_left,
    exists_or]
  refine or_congr_left ?_
  constructor
  · rintro ⟨_, hlast, hf, _, rfl, rfl, rfl⟩
    exact ⟨by simpa using hlast, Prod.ext hf rfl⟩
  · rintro ⟨hname, rfl⟩
    exact ⟨[name], by simp [hname], rfl, [], rfl, rfl, rfl⟩

theorem leadsTo_cons_directory_iff :
    LeadsTo (.directory ((name, .directory sub) :: es)) names f ↔
      LeadsTo (.directory sub) (names ++ [name]) f ∨ LeadsTo (.directory es) names f := by
  unfold LeadsTo
  simp only [FileTree.holds_directory_cons_entry_iff, and_or_left, exists_or]
  refine or_congr_left ?_
  constructor
  · rintro ⟨_, hlast, hf, ns, rfl, hholds⟩
    rw [List.getLast?_cons_of_ne_nil (FileTree.ne_nil_of_holds_directory hholds)] at hlast
    exact ⟨ns, hlast, by simpa using hf, hholds⟩
  · rintro ⟨ns, hlast, hf, hholds⟩
    rw [← List.getLast?_cons_of_ne_nil (FileTree.ne_nil_of_holds_directory hholds)] at hlast
    exact ⟨name :: ns, hlast, by simpa using hf, ns, rfl, hholds⟩

mutual

theorem mem_manifestsBelow_iff (names : List String) : (t : FileTree) →
    (f ∈ manifestsBelow names t ↔ LeadsTo t names f)
  | .file content => by
    refine iff_of_false (by simp [manifestsBelow]) ?_
    rintro ⟨ns, hlast, -, hholds⟩
    obtain ⟨rfl, -⟩ := FileTree.holds_file_iff.1 hholds
    cases hlast
  | .directory es => mem_manifestsAmong_iff names es

theorem mem_manifestsAmong_iff (names : List String) : (es : List (String × FileTree)) →
    (f ∈ manifestsAmong names es ↔ LeadsTo (.directory es) names f)
  | [] => iff_of_false List.not_mem_nil not_leadsTo_empty
  | (name, .file content) :: es => by
    rw [manifestsAmong, List.mem_append, mem_manifestsAmong_iff names es, leadsTo_cons_file_iff]
    by_cases h : name = manifestName <;> simp [h]
  | (name, .directory sub) :: es => by
    rw [manifestsAmong, List.mem_append, mem_manifestsBelow_iff _ (.directory sub),
      mem_manifestsAmong_iff names es, leadsTo_cons_directory_iff]

end

theorem hasExtension_iff :
    hasExtension name = true ↔ ∃ stem, stem ≠ "" ∧ name = stem ++ ".toml" := by
  rw [hasExtension, Bool.and_eq_true, List.isSuffixOf_iff_suffix, decide_eq_true_eq,
    ← String.length_toList]
  constructor
  · rintro ⟨⟨stem, hstem⟩, hlength⟩
    refine ⟨String.ofList stem, fun hempty => ?_, String.toList_inj.1 ?_⟩
    · obtain rfl : stem = [] := by simpa using congrArg String.toList hempty
      rw [← hstem] at hlength
      exact Nat.lt_irrefl _ hlength
    · simpa [extension] using hstem.symm
  · rintro ⟨stem, hne, rfl⟩
    have hpos : stem.toList ≠ [] := by simpa using hne
    refine ⟨⟨stem.toList, by simp [extension]⟩, ?_⟩
    have hlength := List.length_pos_iff.2 hpos
    rw [String.toList_append, List.length_append, extension]
    omega

theorem isManifest_singleton_iff : IsManifest [name] ↔ hasExtension name = true := by
  rw [hasExtension_iff]
  constructor
  · rintro (⟨stem, hne, hname⟩ | ⟨ns, hne, hname⟩)
    · exact ⟨stem, hne, List.head_eq_of_cons_eq hname⟩
    · cases ns with
      | nil => exact absurd rfl hne
      | cons n ns => simp at hname
  · rintro ⟨stem, hne, rfl⟩
    exact .inl ⟨stem, hne, rfl⟩

theorem isManifest_cons_iff (h : ns ≠ []) :
    IsManifest (name :: ns) ↔ ns.getLast? = some manifestName := by
  rw [List.getLast?_eq_some_iff]
  constructor
  · rintro (⟨stem, -, hnames⟩ | ⟨ns', hne, hnames⟩)
    · exact absurd (List.tail_eq_of_cons_eq hnames) h
    · obtain ⟨n, ns', rfl⟩ := List.exists_cons_of_ne_nil hne
      exact ⟨ns', List.tail_eq_of_cons_eq hnames⟩
  · rintro ⟨ns', rfl⟩
    exact .inr ⟨name :: ns', List.cons_ne_nil _ _, rfl⟩

/-- **The files that are found are the manifests of the repository.** -/
theorem mem_manifestFiles_iff (es : List (String × FileTree)) :
    f ∈ manifestFiles es ↔ IsManifest f.1 ∧ (FileTree.directory es).Holds f.1 f.2 := by
  induction es with
  | nil => exact iff_of_false List.not_mem_nil fun h => FileTree.not_holds_directory_empty h.2
  | cons e es ih =>
    obtain ⟨name, t⟩ := e
    rw [FileTree.holds_directory_cons_entry_iff, and_or_left, ← ih]
    cases t with
    | file content =>
      rw [manifestFiles, List.mem_append]
      refine or_congr_left ?_
      simp only [FileTree.holds_file_iff]
      constructor
      · intro h
        split at h
        · next hextension =>
          obtain rfl := List.mem_singleton.1 h
          exact ⟨isManifest_singleton_iff.2 hextension, [], rfl, rfl, rfl⟩
        · cases h
      · rintro ⟨hmanifest, _, hf, rfl, hcontent⟩
        rw [hf, isManifest_singleton_iff] at hmanifest
        rw [if_pos hmanifest, List.mem_singleton]
        exact Prod.ext hf hcontent.symm
    | directory sub =>
      rw [manifestFiles, List.mem_append, mem_manifestsBelow_iff]
      refine or_congr_left ?_
      constructor
      · rintro ⟨ns, hlast, hf, hholds⟩
        have hne : ns ≠ [] := by
          rintro rfl
          cases hlast
        exact ⟨hf ▸ (isManifest_cons_iff hne).2 hlast, ns, hf, hholds⟩
      · rintro ⟨hmanifest, ns, hf, hholds⟩
        have hne := FileTree.ne_nil_of_holds_directory hholds
        exact ⟨ns, (isManifest_cons_iff hne).1 (hf ▸ hmanifest), hf, hholds⟩

/-! ## Nothing is found twice -/

/-- No two files that are found have the same names. -/
def Distinct (fs : List Found) : Prop :=
  fs.Pairwise fun f f' => f.1 ≠ f'.1

/-- What is found at one entry is not found at the entries behind it. -/
theorem distinct_append {fs fs' : List Found} (hname : name ∉ es.map Prod.fst) (hfs : Distinct fs)
    (hfs' : Distinct fs') (hentry : ∀ f ∈ fs, ∃ ns, f.1 = names ++ name :: ns)
    (hentries : ∀ f ∈ fs', ∃ ns, f.1 = names ++ ns ∧ (FileTree.directory es).Holds ns f.2) :
    Distinct (fs ++ fs') := by
  refine List.pairwise_append.2 ⟨hfs, hfs', fun f hf f' hf' heq => ?_⟩
  obtain ⟨ns, hns⟩ := hentry f hf
  obtain ⟨ns', hns', hholds⟩ := hentries f' hf'
  obtain ⟨name', ns', rfl, hname'⟩ := FileTree.exists_cons_of_holds_directory hholds
  rw [hns, hns'] at heq
  have hhead := List.head_eq_of_cons_eq (List.append_cancel_left heq)
  exact hname (hhead ▸ hname')

/-- At an entry that is a file, at most this file is found. -/
theorem distinct_file {c : Prop} [Decidable c] :
    Distinct (if c then [f] else []) ∧ ∀ f' ∈ (if c then [f] else []), f' = f := by
  split
  · exact ⟨List.pairwise_singleton _ _, by simp⟩
  · exact ⟨.nil, by simp⟩

/-- What is found at an entry that is a directory has its name. -/
theorem exists_eq_append_of_mem_manifestsBelow (names : List String) {t : FileTree}
    (h : f ∈ manifestsBelow (names ++ [name]) t) : ∃ ns, f.1 = names ++ name :: ns := by
  obtain ⟨ns, -, hf, -⟩ := (mem_manifestsBelow_iff _ t).1 h
  exact ⟨ns, by simpa using hf⟩

theorem exists_eq_append_of_mem_manifestsAmong (h : f ∈ manifestsAmong names es) :
    ∃ ns, f.1 = names ++ ns ∧ (FileTree.directory es).Holds ns f.2 := by
  obtain ⟨ns, -, hf, hholds⟩ := (mem_manifestsAmong_iff names es).1 h
  exact ⟨ns, hf, hholds⟩

mutual

theorem distinct_manifestsBelow (names : List String) : (t : FileTree) → t.WellFormed →
    Distinct (manifestsBelow names t)
  | .file _, _ => .nil
  | .directory es, h => distinct_manifestsAmong names es h

theorem distinct_manifestsAmong (names : List String) : (es : List (String × FileTree)) →
    (FileTree.directory es).WellFormed → Distinct (manifestsAmong names es)
  | [], _ => .nil
  | (name, .file content) :: es, h => by
    obtain ⟨-, hname, hes⟩ := FileTree.wellFormed_directory_cons h
    rw [manifestsAmong]
    exact distinct_append hname distinct_file.1 (distinct_manifestsAmong names es hes)
      (fun f hf => ⟨[], by rw [distinct_file.2 f hf]⟩)
      fun f => exists_eq_append_of_mem_manifestsAmong
  | (name, .directory sub) :: es, h => by
    obtain ⟨hsub, hname, hes⟩ := FileTree.wellFormed_directory_cons h
    rw [manifestsAmong]
    exact distinct_append hname (distinct_manifestsBelow _ _ hsub)
      (distinct_manifestsAmong names es hes)
      (fun f => exists_eq_append_of_mem_manifestsBelow names)
      fun f => exists_eq_append_of_mem_manifestsAmong

end

theorem distinct_manifestFiles (h : (FileTree.directory es).WellFormed) :
    Distinct (manifestFiles es) := by
  induction es with
  | nil => exact .nil
  | cons e es ih =>
    obtain ⟨name, t⟩ := e
    obtain ⟨ht, hname, hes⟩ := FileTree.wellFormed_directory_cons h
    have hentries : ∀ f ∈ manifestFiles es, ∃ ns, f.1 = [] ++ ns ∧
        (FileTree.directory es).Holds ns f.2 :=
      fun f hf => ⟨f.1, rfl, ((mem_manifestFiles_iff es).1 hf).2⟩
    cases t with
    | file content =>
      exact distinct_append hname distinct_file.1 (ih hes)
        (fun f hf => ⟨[], by rw [distinct_file.2 f hf]; rfl⟩) hentries
    | directory sub =>
      exact distinct_append hname (distinct_manifestsBelow _ _ ht) (ih hes)
        (fun f => exists_eq_append_of_mem_manifestsBelow []) hentries

/-! ## The order -/

/-- The files that are found, in the order of their names. -/
def sorted (es : List (String × FileTree)) : List Found :=
  (manifestFiles es).mergeSort fun a b => ¬ b.1 < a.1

theorem mem_sorted_iff : f ∈ sorted es ↔ f ∈ manifestFiles es :=
  (List.mergeSort_perm _ _).mem_iff

/-- **What is found is in strictly increasing order.** -/
theorem pairwise_sorted (h : (FileTree.directory es).WellFormed) :
    (sorted es).Pairwise fun f f' => f.1 < f'.1 := by
  -- Files are sorted so that none has smaller names than one before it. The order is strict since
  -- no names come up twice.
  have hdistinct : (sorted es).Pairwise fun f f' => f.1 ≠ f'.1 :=
    (distinct_manifestFiles h).perm (List.mergeSort_perm _ _).symm Ne.symm
  have hle : (sorted es).Pairwise fun f f' => ¬f'.1 < f.1 := by
    refine (List.pairwise_mergeSort ?_ ?_ (manifestFiles es)).imp of_decide_eq_true
    · intro a b c hab hbc
      simp only [decide_eq_true_eq, Std.not_lt] at hab hbc ⊢
      exact Std.le_trans hab hbc
    · intro a b
      simp only [Bool.or_eq_true, decide_eq_true_eq, Std.not_lt]
      exact Std.le_total
  exact (hle.and hdistinct).imp fun h => Std.lt_of_le_of_ne (Std.not_lt.1 h.1) h.2

/-! ## Descriptors -/

variable {p : Repository} {machine : Machine} {d : Descriptor} {ds ds' : List Descriptor}

/-- The path of a file in the repository. -/
def pathOf (p : Repository) (names : List String) : String :=
  names.foldl Path.join p.directory

/-- A file below the repository is read as what the repository holds. -/
theorem fileAt?_pathOf_eq_some_iff (hes : (FileTree.directory es).WellFormed)
    (hdirectory : machine.locate p.directory = .ok (.directory es)) (hns : ∀ n ∈ ns, IsName n) :
    machine.fileAt? (p.pathOf ns) = some content ↔
      Path.isImpossible (p.pathOf ns) = false ∧ (FileTree.directory es).Holds ns content :=
  Machine.fileAt?_foldl_join_eq_some_iff hes hdirectory hns

/-- Descriptors are in strictly increasing order of their paths, name by name. -/
def Increasing (ds : List Descriptor) : Prop :=
  ds.Pairwise fun d d' => Path.names d.location < Path.names d'.location

theorem Increasing.nodup (h : Increasing ds) : ds.Nodup := by
  refine List.Pairwise.imp (fun {d d'} hlt heq => ?_) h
  rw [heq] at hlt
  exact Std.lt_irrefl hlt

/-- There is one increasing list of the same descriptors. -/
theorem Increasing.eq_of_mem_iff (h : Increasing ds) (h' : Increasing ds')
    (hmem : ∀ d, d ∈ ds ↔ d ∈ ds') : ds = ds' :=
  ((List.perm_ext_iff_of_nodup h.nodup h'.nodup).2 hmem).eq_of_pairwise
    (fun _ _ _ _ hlt hlt' => absurd hlt' (Std.not_gt_of_lt hlt)) h h'

section Described

variable [Readers]

/-- The manifest at the end of names below a repository loads, and is described. -/
structure Loads (p : Repository) (machine : Machine) (names : List String) (d : Descriptor) :
    Prop where
  location : d.location = p.pathOf names
  manifest : ∃ content, machine.fileAt? d.location = some content ∧
    p.load d.location content = .ok d.manifest
  artifact : d.artifact = ⟨d.manifest.group.getD "", d.manifest.symbolicName, d.manifest.version⟩

/-- A manifest of the repository loads, and is described. -/
def Offers (p : Repository) (machine : Machine) (d : Descriptor) : Prop :=
  ∃ names, IsManifest names ∧ (∀ n ∈ names, IsName n) ∧ p.Loads machine names d

theorem offers_of_load_eq_ok {m : Manifest} (hmanifest : IsManifest names)
    (hnames : ∀ n ∈ names, IsName n)
    (hread : machine.fileAt? (p.pathOf names) = some content)
    (hload : p.load (p.pathOf names) content = .ok m) :
    ∃ d, p.Offers machine d ∧ d.location = p.pathOf names :=
  ⟨⟨⟨m.group.getD "", m.symbolicName, m.version⟩, p.pathOf names, m⟩,
    ⟨names, hmanifest, hnames, rfl, ⟨content, hread, hload⟩, rfl⟩, rfl⟩

theorem descriptor?_eq_some_iff : p.descriptor? f = some d ↔
    Path.isImpossible (p.pathOf f.1) = false ∧ d.location = p.pathOf f.1 ∧
      p.load d.location f.2 = .ok d.manifest ∧
      d.artifact = ⟨d.manifest.group.getD "", d.manifest.symbolicName, d.manifest.version⟩ := by
  obtain ⟨artifact, location, manifest⟩ := d
  rw [descriptor?, ← pathOf]
  split
  · next himpossible => simp [himpossible]
  · next himpossible =>
    dsimp only
    rw [and_iff_right (Bool.eq_false_iff.2 himpossible)]
    split
    · next e hload =>
      refine iff_of_false nofun ?_
      rintro ⟨rfl, hload', -⟩
      cases hload.symm.trans hload'
    · next m hload =>
      rw [Option.some.injEq, Descriptor.mk.injEq]
      constructor
      · rintro ⟨rfl, rfl, rfl⟩
        exact ⟨rfl, hload, rfl⟩
      · rintro ⟨rfl, hload', rfl⟩
        obtain rfl := Except.ok.inj (hload.symm.trans hload')
        exact ⟨rfl, rfl, rfl⟩

section Scan

variable (hes : (FileTree.directory es).WellFormed)
  (hdirectory : machine.locate p.directory = .ok (.directory es))

include hes hdirectory

/-- A file that is found has a descriptor when it loads. -/
theorem descriptor?_eq_some_iff_loads (hf : (FileTree.directory es).Holds f.1 f.2) :
    p.descriptor? f = some d ↔ p.Loads machine f.1 d := by
  have hns := hes.isName_of_holds hf
  have hread (hpossible : Path.isImpossible (p.pathOf f.1) = false) :
      machine.fileAt? (p.pathOf f.1) = some f.2 :=
    (fileAt?_pathOf_eq_some_iff hes hdirectory hns).2 ⟨hpossible, hf⟩
  rw [descriptor?_eq_some_iff]
  constructor
  · rintro ⟨hpossible, hlocation, hload, hartifact⟩
    exact ⟨hlocation, ⟨f.2, hlocation ▸ hread hpossible, hload⟩, hartifact⟩
  · rintro ⟨hlocation, ⟨content, hcontent, hload⟩, hartifact⟩
    rw [hlocation] at hcontent
    obtain ⟨hpossible, -⟩ := (fileAt?_pathOf_eq_some_iff hes hdirectory hns).1 hcontent
    obtain rfl := Option.some.inj ((hread hpossible).symm.trans hcontent)
    exact ⟨hpossible, hlocation, hload, hartifact⟩

theorem mem_filterMap_sorted_iff :
    d ∈ (sorted es).filterMap p.descriptor? ↔ p.Offers machine d := by
  simp only [List.mem_filterMap, mem_sorted_iff, mem_manifestFiles_iff]
  constructor
  · rintro ⟨f, ⟨hmanifest, hf⟩, hd⟩
    exact ⟨f.1, hmanifest, hes.isName_of_holds hf,
      (descriptor?_eq_some_iff_loads hes hdirectory hf).1 hd⟩
  · rintro ⟨names, hmanifest, hnames, hloads⟩
    obtain ⟨content, hcontent, -⟩ := hloads.manifest
    rw [hloads.location] at hcontent
    have hf := ((fileAt?_pathOf_eq_some_iff hes hdirectory hnames).1 hcontent).2
    exact ⟨(names, content), ⟨hmanifest, hf⟩,
      (descriptor?_eq_some_iff_loads hes hdirectory hf).2 hloads⟩

theorem increasing_filterMap_sorted : Increasing ((sorted es).filterMap p.descriptor?) := by
  have hnames : ∀ f ∈ sorted es, ∀ d, p.descriptor? f = some d →
      Path.names d.location = Path.names p.directory ++ f.1 := by
    intro f hf d hd
    have hholds := ((mem_manifestFiles_iff es).1 (mem_sorted_iff.1 hf)).2
    rw [((descriptor?_eq_some_iff_loads hes hdirectory hholds).1 hd).location]
    exact Path.names_foldl_join _ (hes.isName_of_holds hholds)
  rw [Increasing, List.pairwise_filterMap]
  refine (pairwise_sorted hes).imp_of_mem fun hf hf' hlt d hd d' hd' => ?_
  rw [hnames _ hf d hd, hnames _ hf' d' hd']
  exact List.append_left_lt hlt

end Scan

theorem discover_eq_ok (hdirectory : machine.locate p.directory = .ok (.directory es)) :
    p.discover machine = .ok ((sorted es).filterMap p.descriptor?) := by
  rw [discover, hdirectory]
  rfl

/-- **Every manifest of a repository that loads is discovered once**, and they are discovered in
strictly increasing order. Nothing else makes a difference: in whatever place the same manifests
load, whichever others are there and do not, the same is discovered. -/
theorem discovered_once (hes : (FileTree.directory es).WellFormed)
    (hdirectory : machine.locate p.directory = .ok (.directory es)) :
    ∃ ds, p.discover machine = .ok ds ∧ Increasing ds ∧ (∀ d, d ∈ ds ↔ p.Offers machine d) ∧
      ∀ machine' es', (FileTree.directory es').WellFormed →
        machine'.locate p.directory = .ok (.directory es') →
          (∀ d, p.Offers machine' d ↔ p.Offers machine d) → p.discover machine' = .ok ds := by
  refine ⟨_, discover_eq_ok hdirectory, increasing_filterMap_sorted hes hdirectory,
    fun d => mem_filterMap_sorted_iff hes hdirectory, fun machine' es' hes' hdirectory' hsame => ?_⟩
  rw [discover_eq_ok hdirectory']
  -- Both lists are increasing and have the same members, so they are the same list.
  have heq := (increasing_filterMap_sorted hes' hdirectory').eq_of_mem_iff
    (increasing_filterMap_sorted hes hdirectory) fun d => by
      rw [mem_filterMap_sorted_iff hes' hdirectory', mem_filterMap_sorted_iff hes hdirectory,
        hsame d]
  exact congrArg Except.ok heq

end Described

/-- A repository in which one manifest does not load, and one file is no manifest where it lies. -/
def scattered : List (String × FileTree) :=
  [("late.toml", .file (.text "symbolic_name = \"late\"\nversion = \"1\"\n")),
    ("broken.toml", .file (.text "symbolic_name = ")),
    ("early", .directory
      [("other.toml", .file (.text "symbolic_name = \"other\"\nversion = \"1\"\n")),
        ("module.toml", .file (.text "symbolic_name = \"early\"\nversion = \"1\"\n"))])]

/-- A machine with this repository, on which the program runs in another directory. -/
def scatteredMachine : Machine where
  root := .directory
    [("srv", .directory [("modules", .directory scattered)]), ("run", .directory [])]
  workingDirectory := ["run"]

/-- The others are discovered. -/
theorem discovered_once_scattered :
    (FileTree.directory scattered).WellFormed ∧
      scatteredMachine.locate "/srv/modules" = .ok (.directory scattered) ∧
      ∃ ds, ({ directory := "/srv/modules" } : Repository).discover scatteredMachine = .ok ds ∧
        Increasing ds ∧ (∃ d ∈ ds, d.location = "/srv/modules/early/module.toml") ∧
        ∃ d ∈ ds, d.location = "/srv/modules/late.toml" := by
  have hwellFormed : (FileTree.directory scattered).WellFormed := by
    refine .directory (by decide) (by decide +kernel) ?_
    simp only [scattered, List.forall_mem_cons]
    refine ⟨.file _, .file _, .directory (by decide) (by decide +kernel) ?_, List.forall_mem_nil _⟩
    simp only [List.forall_mem_cons]
    exact ⟨.file _, .file _, List.forall_mem_nil _⟩
  have hdirectory : scatteredMachine.locate "/srv/modules" = .ok (.directory scattered) := by
    rw [Machine.locate, if_neg (by decide +kernel), if_neg (by decide +kernel)]
    rfl
  obtain ⟨ds, hds, hincreasing, hmem, -⟩ :=
    discovered_once (p := { directory := "/srv/modules" }) hwellFormed hdirectory
  have hdiscovered (names : List String) (location : String) (content : FileContent) (name : String)
      (hmanifest : IsManifest names) (hnames : ∀ n ∈ names, IsName n)
      (hlocation : pathOf { directory := "/srv/modules" } names = location)
      (hread : scatteredMachine.fileAt? location = some content)
      (hload : (load { directory := "/srv/modules" } location content).toOption.map
        Manifest.symbolicName = some name) : ∃ d ∈ ds, d.location = location := by
    subst hlocation
    obtain ⟨m, hm, -⟩ := exists_eq_ok_of_map hload
    obtain ⟨d, hd, hlocation⟩ := offers_of_load_eq_ok hmanifest hnames hread hm
    exact ⟨d, (hmem d).2 hd, hlocation⟩
  refine ⟨hwellFormed, hdirectory, ds, hds, hincreasing, ?_, ?_⟩
  · exact hdiscovered ["early", "module.toml"] "/srv/modules/early/module.toml"
      (.text "symbolic_name = \"early\"\nversion = \"1\"\n") "early"
      (.inr ⟨["early"], by decide, rfl⟩) (by decide) (by decide +kernel) (by decide +kernel)
      (by decide +kernel)
  · exact hdiscovered ["late.toml"] "/srv/modules/late.toml"
      (.text "symbolic_name = \"late\"\nversion = \"1\"\n") "late"
      (.inl ⟨"late", by decide, rfl⟩) (by decide) (by decide +kernel) (by decide +kernel)
      (by decide +kernel)

end Repository

end StartOrder
