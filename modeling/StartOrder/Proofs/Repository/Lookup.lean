import StartOrder.Proofs.Feature.Coordinates
import StartOrder.Proofs.Files.Path
import StartOrder.Repository

/-!
# Where manifests are looked for

The manifest of an artifact is looked for at two paths. One has artifact and version in a single
name behind the repository, and stays in it. The other has a directory for each segment of the
group, for the artifact and for the version. A segment has no dots and does not go up, but two dots
are an artifact or a version like any other when coordinates are read. Such a path leaves the
repository when there are not enough segments to make up for its steps upwards.

## Main definitions

* `Artifact.segments`: the directories for a group
* `Artifact.Climbs`: the way to a manifest goes up above where it begins
* `Artifact.enterFrom`: where the directories for an artifact lead
* `Repository.nested`, `Repository.flat`: the two paths

## Main results

* `Repository.isBelow_candidates_unless_climbs`: manifests are looked for inside of a repository,
  unless the way to them climbs
-/

namespace StartOrder

open StartOrder.Path (IsName LeadsOn IsBelow isAbsolute trail enter step)

namespace Artifact

variable {a : Artifact} {s : String}

/-- The names of the directories for a group: its parts between dots, without the empty ones. -/
def segments (a : Artifact) : List String :=
  ((a.group.toList.splitOn '.').filter (!·.isEmpty)).map String.ofList

/-- The way to the manifest of an artifact goes up above where it begins. Each segment of the group
makes up for one step upwards. -/
inductive Climbs (a : Artifact) : Prop
  | artifact (hsegments : a.segments = []) (hartifact : a.artifact = "..")
  | version (hsegments : a.segments = []) (hartifact : a.artifact = ".")
      (hversion : a.version = "..")
  | both (hsegments : a.segments.length = 1) (hartifact : a.artifact = "..")
      (hversion : a.version = "..")

/-- A segment is a single name. It does not go up, as it has no dot. -/
theorem isName_of_mem_segments (hslash : '/' ∉ a.group.toList) (h : s ∈ a.segments) : IsName s := by
  obtain ⟨part, hpart, rfl⟩ := List.mem_map.1 h
  obtain ⟨hpart, hne⟩ := List.mem_filter.1 hpart
  have hdot : '.' ∉ (String.ofList part).toList := by
    rw [String.toList_ofList]
    exact (Text.of_mem_splitOn hpart).1
  exact {
    slash := by
      rw [String.toList_ofList]
      exact fun hmem => hslash ((Text.of_mem_splitOn hpart).2 hmem)
    nonempty := by
      intro heq
      rw [← String.toList_inj, String.toList_ofList] at heq
      rw [heq] at hne
      exact Bool.false_ne_true hne
    dot := fun heq => hdot (heq ▸ List.mem_cons_self)
    up := fun heq => hdot (heq ▸ List.mem_cons_self) }

end Artifact

namespace Path

variable {isRooted : Bool} {above base : List String} {name : String}

/-- What leads on still does with one more name that does not go up. -/
theorem leadsOn_enter (hslash : '/' ∉ name.toList) (hne : name ≠ "") (hup : name ≠ "..")
    (h : LeadsOn above base) : LeadsOn (enter isRooted above name) base := by
  by_cases hdot : name = "."
  · rwa [hdot, enter_dot]
  · rw [IsName.enter_eq ⟨hslash, hne, hdot, hup⟩, leadsOn_cons_iff hup]
    exact .inr h

/-- A step upwards leaves a directory, unless it is the root of the machine. -/
theorem leadsOn_step_up_iff :
    LeadsOn (step isRooted base "..") base ↔ isRooted = true ∧ base = [] := by
  rcases step_up_cases isRooted base with ⟨last, rest, rfl, -, hstep⟩ | ⟨hroot, rfl, hstep⟩ | hstep
  · rw [hstep]
    refine iff_of_false (fun h => ?_) (by simp)
    exact absurd h.length_le (by simp)
  · rw [hstep]
    exact iff_of_true (.refl _) ⟨hroot, rfl⟩
  · rw [hstep]
    refine iff_of_false (not_leadsOn_append_up []) ?_
    rintro ⟨rfl, rfl⟩
    exact absurd hstep (by decide)

/-- A step upwards from a directory does not lead to its entries. -/
theorem not_leadsOn_step_up_cons (h : name ≠ "..") :
    ¬LeadsOn (step isRooted base "..") (name :: base) := by
  intro hleads
  have hlength := hleads.length_le
  rcases step_up_cases isRooted base with ⟨last, rest, rfl, -, hstep⟩ | ⟨-, rfl, hstep⟩ | hstep
  · rw [hstep] at hlength
    simp only [List.length_cons] at hlength
    omega
  · rw [hstep] at hlength
    simp at hlength
  · rw [hstep] at hleads
    obtain ⟨ns, -, heq⟩ := hleads
    rw [List.append_cons] at heq
    have hns : [".."] = ns ++ [name] := List.append_cancel_right heq
    have hname : ".." = name := by simpa using congrArg List.getLast? hns
    exact h hname.symm

/-- A second step upwards does not come back. -/
theorem leadsOn_step_up_step_up_iff :
    LeadsOn (step isRooted (step isRooted base "..") "..") base ↔ isRooted = true ∧ base = [] := by
  rcases step_up_cases isRooted base with
    ⟨last, rest, rfl, hlast, hstep⟩ | ⟨hroot, rfl, hstep⟩ | hstep
  · rw [hstep]
    exact iff_of_false (not_leadsOn_step_up_cons hlast) (by simp)
  · rw [hstep, hstep]
    exact iff_of_true (.refl _) ⟨hroot, rfl⟩
  · have hstep' : step isRooted (".." :: base) ".." = ".." :: ".." :: base := rfl
    rw [hstep, hstep']
    refine iff_of_false (not_leadsOn_append_up [".."]) ?_
    rintro ⟨rfl, rfl⟩
    exact absurd hstep (by decide)

/-- A step upwards is made up for by going back to where it was taken. -/
theorem leadsOn_enter_step_up_iff (hslash : '/' ∉ name.toList) (hne : name ≠ "")
    (hdot : "." ∉ base) :
    LeadsOn (enter isRooted (step isRooted base "..") name) base ↔
      (isRooted = true ∧ base = []) ∨ (name ≠ ".." ∧ base.head? = some name) := by
  by_cases hname : name = "."
  · subst hname
    have hhead : base.head? ≠ some "." := fun h => hdot (List.mem_of_head? h)
    rw [enter_dot, leadsOn_step_up_iff]
    simp [hhead]
  by_cases hup : name = ".."
  · subst hup
    rw [enter_up, leadsOn_step_up_step_up_iff]
    simp
  · have hback : name :: step isRooted base ".." = base ↔ base.head? = some name := by
      rw [List.head?_eq_some_iff]
      constructor
      · exact fun h => ⟨_, h.symm⟩
      · rintro ⟨rest, rfl⟩
        rw [step_up_cons hup]
    rw [IsName.enter_eq ⟨hslash, hne, hname, hup⟩, leadsOn_cons_iff hup, leadsOn_step_up_iff,
      hback, or_comm]
    simp [hup]

end Path

namespace Artifact

variable {a : Artifact} {isRooted : Bool} {base : List String}

/-- Where the directories for an artifact lead from a directory. -/
def enterFrom (isRooted : Bool) (base : List String) (a : Artifact) : List String :=
  enter isRooted (enter isRooted (a.segments.reverse ++ base) a.artifact) a.version

/-- The parts of coordinates are single names. -/
theorem Regular.names (h : a.Regular) :
    ('/' ∉ a.group.toList ∧ '/' ∉ a.artifact.toList ∧ '/' ∉ a.version.toList) ∧
      a.artifact ≠ "" ∧ a.version ≠ "" := by
  obtain ⟨-, hartifact, hversion⟩ := forall_mem_parts.1 h.nonempty
  exact ⟨forall_mem_parts.1 h.slash, by simpa using hartifact, by simpa using hversion⟩

/-- Unless the way to a manifest climbs, it leads on from where it begins. -/
theorem leadsOn_enterFrom (ha : a.Regular) (h : ¬a.Climbs) :
    LeadsOn (a.enterFrom isRooted base) base := by
  obtain ⟨⟨hgroup, hartifact, hversion⟩, hartifact', hversion'⟩ := ha.names
  have hup : ".." ∉ a.segments.reverse := by
    rw [List.mem_reverse]
    exact fun h => (isName_of_mem_segments hgroup h).up rfl
  unfold enterFrom
  by_cases hx : a.artifact = ".."
  · cases hsegments : a.segments.reverse with
    | nil => exact absurd (.artifact (List.reverse_eq_nil_iff.1 hsegments) hx) h
    | cons s ns =>
      rw [hsegments, List.mem_cons, not_or] at hup
      rw [hx, Path.enter_up, List.cons_append, Path.step_up_cons (Ne.symm hup.1)]
      by_cases hv : a.version = ".."
      · cases ns with
        | nil =>
          refine absurd (.both ?_ hx hv) h
          rw [← List.length_reverse, hsegments, List.length_singleton]
        | cons t ns =>
          rw [List.mem_cons, not_or] at hup
          rw [hv, Path.enter_up, List.cons_append, Path.step_up_cons (Ne.symm hup.2.1)]
          exact Path.leadsOn_append hup.2.2
      · exact Path.leadsOn_enter hversion hversion' hv (Path.leadsOn_append hup.2)
  · by_cases hv : a.version = ".."
    · by_cases hdot : a.artifact = "."
      · cases hsegments : a.segments.reverse with
        | nil => exact absurd (.version (List.reverse_eq_nil_iff.1 hsegments) hdot hv) h
        | cons s ns =>
          rw [hsegments, List.mem_cons, not_or] at hup
          rw [hdot, hv, Path.enter_dot, Path.enter_up, List.cons_append,
            Path.step_up_cons (Ne.symm hup.1)]
          exact Path.leadsOn_append hup.2
      · rw [hv, Path.enter_up, IsName.enter_eq ⟨hartifact, hartifact', hdot, hx⟩,
          Path.step_up_cons hx]
        exact Path.leadsOn_append hup
    · exact Path.leadsOn_enter hversion hversion' hv
        (Path.leadsOn_enter hartifact hartifact' hx (Path.leadsOn_append hup))

/-- A way that climbs leads on only where nothing is above, or where it comes back. -/
theorem Climbs.leadsOn_enterFrom_iff (ha : a.Regular) (hdot : "." ∉ base) (h : a.Climbs) :
    LeadsOn (a.enterFrom isRooted base) base ↔ (isRooted = true ∧ base = []) ∨
      (a.segments = [] ∧ a.artifact = ".." ∧ a.version ≠ ".." ∧ base.head? = some a.version) := by
  obtain ⟨⟨hgroup, -, hversion⟩, -, hversion'⟩ := ha.names
  unfold enterFrom
  cases h with
  | artifact hsegments hartifact =>
    rw [hsegments, hartifact, List.reverse_nil, List.nil_append, Path.enter_up,
      Path.leadsOn_enter_step_up_iff hversion hversion' hdot]
    simp
  | version hsegments hartifact hversion =>
    rw [hsegments, hartifact, hversion, List.reverse_nil, List.nil_append, Path.enter_dot,
      Path.enter_up, Path.leadsOn_step_up_iff]
    simp
  | both hsegments hartifact hversion =>
    obtain ⟨s, hs⟩ := List.length_eq_one_iff.1 hsegments
    have hup : s ≠ ".." := (isName_of_mem_segments hgroup (hs ▸ List.mem_singleton_self s)).up
    rw [hs, hartifact, hversion, List.reverse_singleton, List.singleton_append, Path.enter_up,
      Path.enter_up, Path.step_up_cons hup, Path.leadsOn_step_up_iff]
    simp

end Artifact

namespace Repository

variable {p : Repository} {a : Artifact} {text : String}

/-- The path at which a manifest lies in a directory of its own. -/
def nested (p : Repository) (a : Artifact) : String :=
  (a.segments ++ [a.artifact, a.version, manifestName]).foldl Path.join p.directory

/-- The path at which a manifest lies with artifact and version in its name. -/
def flat (p : Repository) (a : Artifact) : String :=
  Path.join p.directory s!"{a.artifact}-{a.version}.toml"

theorem candidates_eq : p.candidates a = [p.nested a, p.flat a] := rfl

/-- A manifest with artifact and version in its name lies in the repository itself. -/
theorem isBelow_flat (ha : a.Regular) : IsBelow (p.flat a) p.directory := by
  obtain ⟨⟨-, hartifact, hversion⟩, -⟩ := ha.names
  have hname : (s!"{a.artifact}-{a.version}.toml").toList =
      a.artifact.toList ++ ('-' :: (a.version.toList ++ ".toml".toList)) := by
    simp [toString]
  have hdash {name : String} (h : '-' ∉ name.toList) :
      s!"{a.artifact}-{a.version}.toml" ≠ name := by
    rintro rfl
    simp [hname] at h
  have hflat : IsName s!"{a.artifact}-{a.version}.toml" :=
    ⟨by simp [hname, hartifact, hversion], hdash (by decide), hdash (by decide), hdash (by decide)⟩
  exact hflat.isBelow_join_iff.2 ⟨rfl, .refl _⟩

/-- A manifest in a directory of its own lies where the directories for it lead. -/
theorem isBelow_nested_iff (ha : a.Regular) : IsBelow (p.nested a) p.directory ↔
    LeadsOn (a.enterFrom (isAbsolute p.directory) (trail p.directory)) (trail p.directory) := by
  obtain ⟨⟨hgroup, hartifact, hversion⟩, -⟩ := ha.names
  have hmanifest : IsName manifestName := by decide
  have hsegments : ∀ s ∈ a.segments, IsName s := fun s => Artifact.isName_of_mem_segments hgroup
  have hslash : ∀ n ∈ a.segments ++ [a.artifact, a.version], '/' ∉ n.toList := by
    intro n hn
    simp only [List.mem_append, List.mem_cons, List.not_mem_nil, or_false] at hn
    rcases hn with hn | rfl | rfl
    · exact (hsegments n hn).slash
    · exact hartifact
    · exact hversion
  obtain ⟨habsolute, htrail⟩ := Path.trail_foldl_join p.directory
    fun n hn => Path.isAbsolute_of_not_mem (hslash n hn)
  -- The name of the manifest goes down, so it leads below just where the directories lead on.
  have hnested : p.nested a = Path.join
      ((a.segments ++ [a.artifact, a.version]).foldl Path.join p.directory) manifestName := by
    simp [nested]
  rw [hnested, hmanifest.isBelow_join_iff, habsolute, htrail, List.foldl_append,
    Path.foldl_enter_eq hsegments]
  simp [Artifact.enterFrom]

/-- **Manifests are looked for inside of a repository, unless the way to them climbs.** The path
with artifact and version in its name lies below the repository for all coordinates that can be
read. So does the other one, unless it climbs: it then leaves every repository but the root of the
machine, and comes back only where the version names the directory that was left. -/
theorem isBelow_candidates_unless_climbs (h : Artifact.parse? text = some a) :
    ∃ nested flat, p.candidates a = [nested, flat] ∧ IsBelow flat p.directory ∧
      (IsBelow nested p.directory ↔ (a.Climbs →
        (isAbsolute p.directory = true ∧ trail p.directory = []) ∨
          (a.segments = [] ∧ a.artifact = ".." ∧ a.version ≠ ".." ∧
            (trail p.directory).head? = some a.version))) := by
  have ha := Artifact.regular_of_parse? h
  refine ⟨p.nested a, p.flat a, candidates_eq, isBelow_flat ha, ?_⟩
  rw [isBelow_nested_iff ha]
  by_cases hclimbs : a.Climbs
  · rw [hclimbs.leadsOn_enterFrom_iff ha (Path.dot_not_mem_trail _)]
    simp [hclimbs]
  · exact iff_of_true (Artifact.leadsOn_enterFrom ha hclimbs) fun h => absurd h hclimbs

/-- The steps upwards for artifact and version are made up for by the two segments of the group. -/
theorem isBelow_candidates_unless_climbs_balanced :
    Artifact.parse? " org.example/../.. " = some ⟨"org.example", "..", ".."⟩ ∧
      ∃ nested flat, ({} : Repository).candidates ⟨"org.example", "..", ".."⟩ = [nested, flat] ∧
        IsBelow flat "modules" ∧ IsBelow nested "modules" := by
  have hparse : Artifact.parse? " org.example/../.. " = some ⟨"org.example", "..", ".."⟩ := by
    decide +kernel
  obtain ⟨nested, flat, hcandidates, hflat, hnested⟩ :=
    isBelow_candidates_unless_climbs (p := {}) hparse
  refine ⟨hparse, nested, flat, hcandidates, hflat, hnested.2 fun hclimbs => ?_⟩
  cases hclimbs with
  | artifact hsegments => exact absurd hsegments (by decide +kernel)
  | version hsegments => exact absurd hsegments (by decide +kernel)
  | both hsegments => exact absurd hsegments (by decide +kernel)

/-- Two dots as artifact and as version are read, and lead out of the repository. -/
theorem not_isBelow_candidates_dotted :
    ∃ a, Artifact.parse? "g:..:.." = some a ∧
      ∃ path ∈ ({} : Repository).candidates a, ¬IsBelow path ({} : Repository).directory :=
  ⟨⟨"g", "..", ".."⟩, by decide +kernel, "modules/g/../../module.toml", by decide +kernel,
    by decide +kernel⟩

-- A path that has left the repository comes back by its name.
example : IsBelow (nested {} ⟨".", "..", "modules"⟩) "modules" := by decide +kernel

end Repository

end StartOrder
