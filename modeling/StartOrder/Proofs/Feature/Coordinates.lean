import StartOrder.Feature
import StartOrder.Proofs.Version.Text

/-!
# Coordinates that survive being written

Coordinates are written with colons, whichever marks they were read with. A text with slashes may
have colons in its parts, and these are taken for marks when the coordinates are read again, so that
there are too many parts. This is the only way in which coordinates get lost: without colons in its
parts, what has been written reads back, since no part has a slash and the outer parts do not have
blanks at the ends of the text.

## Main definitions

* `Artifact.Regular`: the coordinates that have a text
* `Artifact.Plain`: no part has a colon
* `Feature.toDocument`: the document that is written for a feature

## Main results

* `Artifact.exists_parse?_iff`: which coordinates have a text
* `Artifact.Regular.parse?_render`: coordinates read back when they are plain, and only then
* `Artifact.plain_iff`: coordinates are plain unless their text has both marks
* `Feature.reread_unless_mixed`: coordinates survive being written unless their text has both marks,
  and so do the features that are read with them
-/

namespace StartOrder

namespace Text

variable {mark c : Char} {s : List Char}

/-- The parts of a text hold no marks and no other characters than the text. -/
theorem of_mem_splitOn {part : List Char} (h : part ∈ s.splitOn mark) : mark ∉ part ∧ part ⊆ s := by
  induction s generalizing part with
  | nil =>
    rw [List.splitOn_nil, List.mem_singleton] at h
    rw [h]
    exact ⟨List.not_mem_nil, List.nil_subset _⟩
  | cons c s ih =>
    obtain ⟨p, ps, hsplit⟩ := List.exists_cons_of_ne_nil (List.splitOn_ne_nil mark s)
    rw [List.splitOn_cons_eq_if_modifyHead, hsplit] at h
    split at h
    · rcases List.mem_cons.1 h with rfl | h
      · exact ⟨List.not_mem_nil, List.nil_subset _⟩
      · exact (ih (hsplit ▸ h)).imp_right (List.subset_cons_of_subset c)
    · next hc =>
      rcases List.mem_cons.1 h with rfl | h
      · obtain ⟨hmark, hsub⟩ := ih (hsplit ▸ List.mem_cons_self)
        rw [List.mem_cons, not_or]
        exact ⟨⟨fun heq => hc (by simp [heq]), hmark⟩, List.cons_subset_cons c hsub⟩
      · exact (ih (hsplit ▸ List.mem_cons_of_mem _ h)).imp_right (List.subset_cons_of_subset c)

/-- A text that is cut into one part has no mark. -/
theorem splitOn_eq_singleton_iff {part : List Char} :
    s.splitOn mark = [part] ↔ mark ∉ s ∧ s = part := by
  constructor
  · intro h
    have hs : [mark].intercalate (s.splitOn mark) = s := List.intercalate_splitOn mark
    rw [h, List.intercalate_singleton] at hs
    subst hs
    exact ⟨(of_mem_splitOn (h ▸ List.mem_singleton_self _)).1, rfl⟩
  · rintro ⟨h, rfl⟩
    exact List.splitOn_eq_singleton h

/-- Only blanks are taken off a text. -/
theorem mem_trim_iff (hc : isBlank c = false) : c ∈ trim s ↔ c ∈ s := by
  obtain ⟨pre, post, hs, hpre, hpost⟩ := exists_eq_append_trim s
  have hout {blanks : List Char} (hblank : ∀ d ∈ blanks, isBlank d = true) : c ∉ blanks :=
    fun h => Bool.false_ne_true (hc.symm.trans (hblank c h))
  conv_rhs => rw [hs]
  simp [hout hpre, hout hpost]

end Text

namespace Artifact

variable {text : String} {a : Artifact}

/-! ## Parts -/

/-- The characters of the group, the artifact and the version. -/
def parts (a : Artifact) : List (List Char) :=
  [a.group.toList, a.artifact.toList, a.version.toList]

theorem forall_mem_parts {P : List Char → Prop} : (∀ part ∈ a.parts, P part) ↔
    P a.group.toList ∧ P a.artifact.toList ∧ P a.version.toList := by
  simp [parts]

/-- The mark at which a text is cut into parts. -/
def markOf (s : List Char) : Char :=
  if '/' ∈ s then '/' else ':'

/-- A text denotes its parts, if these are three and none of them is empty. -/
theorem read_eq_some_iff {s : List Char} : read s = some a ↔
    (Text.trim s).splitOn (markOf (Text.trim s)) = a.parts ∧ ∀ part ∈ a.parts, part ≠ [] := by
  obtain ⟨group, artifact, version⟩ := a
  rw [forall_mem_parts]
  unfold read markOf
  dsimp only
  split
  · next g x v h =>
    rw [h]
    by_cases hempty : g = [] ∨ x = [] ∨ v = []
    · rw [if_pos (by simpa [or_assoc] using hempty)]
      refine ⟨nofun, ?_⟩
      rintro ⟨heq, hg, hx, hv⟩
      simp only [parts, List.cons.injEq, and_true] at heq
      obtain ⟨rfl, rfl, rfl⟩ := heq
      simp [hg, hx, hv] at hempty
    · rw [if_neg (by simpa [or_assoc] using hempty)]
      simp only [not_or] at hempty
      simp only [Option.some.injEq, mk.injEq, parts, List.cons.injEq, and_true]
      constructor
      · rintro ⟨rfl, rfl, rfl⟩
        simpa using hempty
      · rintro ⟨⟨rfl, rfl, rfl⟩, -⟩
        simp
  · next hother =>
    refine ⟨nofun, ?_⟩
    rintro ⟨heq, -⟩
    exact absurd heq (hother _ _ _)

/-! ## The coordinates that have a text -/

/-- Coordinates that can stand between slashes: no part is empty or has a slash, and blanks do not
stand at the ends of the text. -/
structure Regular (a : Artifact) : Prop where
  nonempty : ∀ part ∈ a.parts, part ≠ []
  slash : ∀ part ∈ a.parts, '/' ∉ part
  first : ∀ c, a.group.toList.head? = some c → Text.isBlank c = false
  last : ∀ c, a.version.toList.getLast? = some c → Text.isBlank c = false

theorem eq_of_append_eq_triple {α : Type} {ls ms ns : List α} {x y z : α} (hls : ls ≠ [])
    (hms : ms ≠ []) (hns : ns ≠ []) (h : ls ++ (ms ++ ns) = [x, y, z]) :
    ls = [x] ∧ ms = [y] ∧ ns = [z] := by
  have hlength := congrArg List.length h
  have hpos := And.intro (List.length_pos_iff.2 hls)
    (And.intro (List.length_pos_iff.2 hms) (List.length_pos_iff.2 hns))
  simp only [List.length_append, List.length_cons, List.length_nil] at hlength
  obtain ⟨x', rfl⟩ := List.length_eq_one_iff.1 (show ls.length = 1 by omega)
  obtain ⟨y', rfl⟩ := List.length_eq_one_iff.1 (show ms.length = 1 by omega)
  obtain ⟨z', rfl⟩ := List.length_eq_one_iff.1 (show ns.length = 1 by omega)
  simpa using h

/-- The parts with a mark between them. -/
def joined (mark : Char) (a : Artifact) : List Char :=
  a.group.toList ++ mark :: (a.artifact.toList ++ mark :: a.version.toList)

theorem joined_eq_intercalate (mark : Char) (a : Artifact) :
    a.joined mark = [mark].intercalate a.parts := by
  simp [joined, parts, List.intercalate]

theorem toList_render (a : Artifact) : a.render.toList = a.joined ':' := by
  simp [render, joined, toString]

theorem parts_inj {b : Artifact} : a.parts = b.parts ↔ a = b := by
  cases a
  cases b
  simp [parts, String.toList_inj]

/-- What is cut into three parts and is made of three texts has no mark but those between them. -/
theorem splitOn_joined_eq_iff {mark : Char} {b : Artifact} :
    (a.joined mark).splitOn mark = b.parts ↔ (∀ part ∈ a.parts, mark ∉ part) ∧ a = b := by
  constructor
  · intro h
    -- Each of the texts is cut into one part at least, so that none is cut into more.
    have hne (part : List Char) : part.splitOn mark ≠ [] := List.splitOn_ne_nil mark part
    rw [joined, List.splitOn_append_cons_self, List.splitOn_append_cons_self] at h
    obtain ⟨hgroup, hartifact, hversion⟩ := eq_of_append_eq_triple (hne _) (hne _) (hne _) h
    rw [Text.splitOn_eq_singleton_iff] at hgroup hartifact hversion
    refine ⟨forall_mem_parts.2 ⟨hgroup.1, hartifact.1, hversion.1⟩, parts_inj.1 ?_⟩
    rw [parts, parts, hgroup.2, hartifact.2, hversion.2]
  · rintro ⟨hmark, rfl⟩
    rw [joined_eq_intercalate]
    exact List.splitOn_intercalate mark hmark (List.cons_ne_nil _ _)

theorem mem_joined_iff {mark c : Char} :
    c ∈ a.joined mark ↔ c = mark ∨ ∃ part ∈ a.parts, c ∈ part := by
  simp only [joined, parts, List.mem_append, List.mem_cons, List.not_mem_nil, or_false,
    exists_eq_or_imp, exists_eq_left]
  tauto

theorem head?_joined (hne : ∀ part ∈ a.parts, part ≠ []) (mark : Char) :
    (a.joined mark).head? = a.group.toList.head? :=
  List.head?_append_of_ne_nil _ (forall_mem_parts.1 hne).1

theorem getLast?_joined (hne : ∀ part ∈ a.parts, part ≠ []) (mark : Char) :
    (a.joined mark).getLast? = a.version.toList.getLast? := by
  have hjoined : a.joined mark =
      (a.group.toList ++ mark :: a.artifact.toList ++ [mark]) ++ a.version.toList := by
    simp [joined]
  rw [hjoined]
  exact List.getLast?_append_of_ne_nil _ (forall_mem_parts.1 hne).2.2

theorem Regular.trim_joined (h : a.Regular) (mark : Char) :
    Text.trim (a.joined mark) = a.joined mark := by
  refine Text.trim_of_ends (fun c hc => h.first c ?_) fun c hc => h.last c ?_
  · rwa [head?_joined h.nonempty] at hc
  · rwa [getLast?_joined h.nonempty] at hc

/-- Only the mark can be a slash of the joined text. -/
theorem Regular.markOf_joined (h : a.Regular) {mark : Char} (hmark : mark = '/' ∨ mark = ':') :
    markOf (a.joined mark) = mark := by
  unfold markOf
  split
  · next hslash =>
    rcases mem_joined_iff.1 hslash with heq | ⟨part, hpart, hc⟩
    · exact heq
    · exact absurd hc (h.slash part hpart)
  · next hslash =>
    rcases hmark with rfl | rfl
    · exact absurd (mem_joined_iff.2 (.inl rfl)) hslash
    · rfl

/-- **When a joined text is read**: no part may have the mark, and then the parts are found
again. -/
theorem Regular.read_joined (h : a.Regular) {mark : Char} (hmark : mark = '/' ∨ mark = ':') :
    read (a.joined mark) = if ∀ part ∈ a.parts, mark ∉ part then some a else none := by
  have hread (b : Artifact) : read (a.joined mark) = some b ↔
      (∀ part ∈ a.parts, mark ∉ part) ∧ a = b := by
    rw [read_eq_some_iff, h.trim_joined, h.markOf_joined hmark, splitOn_joined_eq_iff]
    refine and_iff_left_of_imp fun hb => ?_
    rw [← hb.2]
    exact h.nonempty
  split
  · next hplain => exact (hread a).2 ⟨hplain, rfl⟩
  · next hplain =>
    rw [Option.eq_none_iff_forall_ne_some]
    exact fun b hb => hplain ((hread b).1 hb).1

/-- What has been read is its parts with the mark between them. -/
theorem trim_eq_joined (h : parse? text = some a) :
    Text.trim text.toList = a.joined (markOf (Text.trim text.toList)) := by
  rw [joined_eq_intercalate, ← (read_eq_some_iff.1 h).1, List.intercalate_splitOn]

/-- **What has been read is regular.** -/
theorem regular_of_parse? (h : parse? text = some a) : a.Regular := by
  have htrim := trim_eq_joined h
  obtain ⟨hsplit, hne⟩ := read_eq_some_iff.1 h
  refine ⟨hne, fun part hpart hslash => ?_, fun c hc => ?_, fun c hc => ?_⟩
  · have hmem : '/' ∈ Text.trim text.toList := by
      rw [htrim]
      exact mem_joined_iff.2 (.inr ⟨part, hpart, hslash⟩)
    rw [← hsplit, markOf, if_pos hmem] at hpart
    exact (Text.of_mem_splitOn hpart).1 hslash
  · refine Text.head?_trim (s := text.toList) ?_
    rwa [htrim, head?_joined hne]
  · refine Text.getLast?_trim (s := text.toList) ?_
    rwa [htrim, getLast?_joined hne]

/-- **The coordinates that have a text** are the regular ones. -/
theorem exists_parse?_iff : (∃ text, parse? text = some a) ↔ a.Regular := by
  constructor
  · rintro ⟨text, h⟩
    exact regular_of_parse? h
  · intro h
    refine ⟨String.ofList (a.joined '/'), ?_⟩
    rw [parse?, String.toList_ofList, h.read_joined (.inl rfl), if_pos h.slash]

/-! ## What has been written -/

/-- No part has a colon, so that the parts are found again between colons. -/
def Plain (a : Artifact) : Prop :=
  ∀ part ∈ a.parts, ':' ∉ part

instance (a : Artifact) : Decidable a.Plain :=
  List.decidableBAll (':' ∉ ·) a.parts

/-- **Coordinates read back when they are plain**, and are no coordinates otherwise. -/
theorem Regular.parse?_render (h : a.Regular) :
    parse? a.render = if a.Plain then some a else none := by
  rw [parse?, toList_render]
  exact h.read_joined (.inr rfl)

/-- **Coordinates are plain unless their text has both marks.** -/
theorem plain_iff (h : parse? text = some a) :
    a.Plain ↔ ¬('/' ∈ text.toList ∧ ':' ∈ text.toList) := by
  have htrim := trim_eq_joined h
  rw [← Text.mem_trim_iff (c := '/') rfl, ← Text.mem_trim_iff (c := ':') rfl]
  by_cases hslash : '/' ∈ Text.trim text.toList
  · rw [markOf, if_pos hslash] at htrim
    rw [and_iff_right hslash, htrim, mem_joined_iff, Plain]
    simp
  · refine iff_of_true (fun part hpart => ?_) fun hboth => hslash hboth.1
    rw [← (read_eq_some_iff.1 h).1, markOf, if_neg hslash] at hpart
    exact (Text.of_mem_splitOn hpart).1

end Artifact

/-! ## Features -/

theorem mem_of_mapM_eq_some {α β : Type} {f : α → Option β} {as : List α} {bs : List β} {b : β}
    (h : as.mapM f = some bs) (hb : b ∈ bs) : ∃ a ∈ as, f a = some b := by
  induction as generalizing bs with
  | nil =>
    obtain rfl := Option.some.inj h
    cases hb
  | cons a as ih =>
    simp only [List.mapM_cons, Option.bind_eq_bind, Option.bind_eq_some_iff] at h
    obtain ⟨b', hb', bs', hbs', h⟩ := h
    obtain rfl := Option.some.inj h
    rcases List.mem_cons.1 hb with rfl | hb
    · exact ⟨a, List.mem_cons_self, hb'⟩
    · obtain ⟨a', ha', hb⟩ := ih hbs' hb
      exact ⟨a', List.mem_cons_of_mem _ ha', hb⟩

/-- A loop over texts that each read back, or not, as what they were written for. -/
theorem mapM_map_eq_ite {α β : Type} (P : β → Prop) [DecidablePred P] {read : α → Option β}
    (write : β → α) {bs : List β}
    (h : ∀ b ∈ bs, read (write b) = if P b then some b else none) :
    (bs.map write).mapM read = if ∀ b ∈ bs, P b then some bs else none := by
  induction bs with
  | nil => rfl
  | cons b bs ih =>
    rw [List.forall_mem_cons] at h
    simp only [List.forall_mem_cons, List.map_cons, List.mapM_cons, h.1, ih h.2]
    by_cases hb : P b
    · by_cases hbs : ∀ b ∈ bs, P b
      · rw [if_pos hb, if_pos hbs, if_pos ⟨hb, hbs⟩]
        rfl
      · rw [if_pos hb, if_neg hbs, if_neg fun hall => hbs hall.2]
        rfl
    · have hall : ¬(P b ∧ ∀ b ∈ bs, P b) := fun hall => hb hall.1
      rw [if_neg hb, if_neg hall]
      rfl

namespace Dictionary

variable {α : Type}

theorem insertEntry_of_forall_lt {name : String} {value : α} {es : List (String × α)}
    (h : ∀ e ∈ es, e.1 < name) : insertEntry name value es = es ++ [(name, value)] := by
  induction es with
  | nil => rfl
  | cons e es ih =>
    rw [List.forall_mem_cons] at h
    rw [insertEntry, if_neg fun hlt => String.lt_irrefl _ (String.lt_trans h.1 hlt),
      if_neg fun heq => String.lt_irrefl _ (heq ▸ h.1), ih h.2]
    rfl

theorem eq_of_entries {d d' : Dictionary α} (h : d.entries = d'.entries) : d = d' := by
  obtain ⟨es, hs⟩ := d
  obtain ⟨es', hs'⟩ := d'
  obtain rfl : es = es' := h
  rfl

/-- Entries that are in order are put in as they are. -/
theorem ofList_entries (d : Dictionary α) : ofList d.entries = d := by
  have happend {es : List (String × α)} {d : Dictionary α}
      (h : (d.entries ++ es).Pairwise fun a b => a.1 < b.1) :
      (es.foldl (fun d e => d.insert e.1 e.2) d).entries = d.entries ++ es := by
    induction es generalizing d with
    | nil => simp
    | cons e es ih =>
      have hinsert : (d.insert e.1 e.2).entries = d.entries ++ [e] :=
        insertEntry_of_forall_lt fun e' he' =>
          (List.pairwise_append.1 h).2.2 e' he' e List.mem_cons_self
      rw [List.append_cons, ← hinsert] at h ⊢
      exact ih h
  exact eq_of_entries (happend d.sorted)

end Dictionary

namespace Feature

open Document

variable {d : Document} {f : Feature}

/-- The document that is written for a feature. A title that is missing is left out. -/
def toDocument (f : Feature) : Document :=
  .table <| ("id", .text f.id.render) :: f.title.toList.map (fun t => ("title", .text t)) ++
    [("bundles", .list (f.bundles.map fun a => .text a.render)),
      ("configurations", .table f.configurations.entries)]

theorem fields?_toDocument (f : Feature) :
    f.toDocument.fields? .json ["id", "title", "bundles", "configurations"] =
      some [some (.text f.id.render), f.title.map .text,
        some (.list (f.bundles.map fun a => .text a.render)),
        some (.table f.configurations.entries)] := by
  cases h : f.title <;> simp [toDocument, fields?, h, List.lookup_cons]

theorem ofDocument?_eq_some_iff : ofDocument? .json d = some f ↔
    ∃ id title bundles configurations,
      d.fields? .json ["id", "title", "bundles", "configurations"] =
        some [id, title, bundles, configurations] ∧
      required? artifact? id = some f.id ∧
      withDefault? none (optional? text?) title = some f.title ∧
      withDefault? [] (listOf? artifact?) bundles = some f.bundles ∧
      withDefault? ∅ (dictionaryOf? readable?) configurations = some f.configurations := by
  unfold ofDocument?
  simp only [Option.bind_eq_bind, Option.bind_eq_some_iff]
  constructor
  · rintro ⟨fields, hfields, h⟩
    split at h
    · next id title bundles configurations =>
      simp only [Option.bind_eq_some_iff] at h
      obtain ⟨_, hid, _, htitle, _, hbundles, _, hconfigurations, h⟩ := h
      obtain rfl := Option.some.inj h
      exact ⟨_, _, _, _, hfields, hid, htitle, hbundles, hconfigurations⟩
    · cases h
  · rintro ⟨id, title, bundles, configurations, hfields, hid, htitle, hbundles, hconfigurations⟩
    exact ⟨_, hfields, by simp [hid, htitle, hbundles, hconfigurations]⟩

/-- Coordinates in a document are those of some text. -/
theorem regular_of_artifact? {a : Artifact} (h : artifact? d = some a) : a.Regular := by
  obtain ⟨text, -, htext⟩ := Option.bind_eq_some_iff.1 h
  exact Artifact.regular_of_parse? htext

theorem regular_of_id {id : Option Document} {a : Artifact}
    (h : required? artifact? id = some a) : a.Regular := by
  unfold required? at h
  split at h
  · exact regular_of_artifact? h
  · cases h

theorem regular_of_bundles {bundles : Option Document} {as : List Artifact}
    (h : withDefault? [] (listOf? artifact?) bundles = some as) : ∀ a ∈ as, a.Regular := by
  unfold withDefault? listOf? at h
  split at h
  · split at h
    · intro a ha
      obtain ⟨item, -, hitem⟩ := mem_of_mapM_eq_some h ha
      exact regular_of_artifact? hitem
    · cases h
  · obtain rfl := Option.some.inj h
    exact List.forall_mem_nil _

theorem isReadable_of_readable? {d' : Document} (h : readable? d = some d') :
    d'.isReadable = true := by
  unfold readable? at h
  split at h
  · next hreadable =>
    obtain rfl := Option.some.inj h
    exact hreadable
  · cases h

theorem isReadable_of_configurations {configurations : Option Document} {c : Dictionary Document}
    (h : withDefault? ∅ (dictionaryOf? readable?) configurations = some c) :
    ∀ e ∈ c.entries, e.2.isReadable = true := by
  have hofList {es : List (String × Document)} (hes : ∀ e ∈ es, e.2.isReadable = true) :
      ∀ e ∈ (Dictionary.ofList es).entries, e.2.isReadable = true := by
    intro e he
    rw [Dictionary.mem_entries_iff, Dictionary.get?_ofList] at he
    obtain ⟨before, behind, hsplit, -⟩ := List.lookup_eq_some_iff.1 he
    exact hes e (List.mem_reverse.1 (hsplit ▸ List.mem_append_right _ List.mem_cons_self))
  unfold withDefault? dictionaryOf? at h
  split at h
  · split at h
    · obtain ⟨es, hes, h⟩ := Option.bind_eq_some_iff.1 h
      obtain rfl := Option.some.inj h
      refine hofList fun e he => ?_
      obtain ⟨e', -, he'⟩ := mem_of_mapM_eq_some hes he
      obtain ⟨d', hd', rfl⟩ := Option.map_eq_some_iff.1 he'
      exact isReadable_of_readable? hd'
    · obtain ⟨d', hd', rfl⟩ := Option.map_eq_some_iff.1 h
      exact hofList (by simpa using isReadable_of_readable? hd')
    · cases h
  · obtain rfl := Option.some.inj h
    exact List.forall_mem_nil _

theorem configurations?_entries {c : Dictionary Document}
    (h : ∀ e ∈ c.entries, e.2.isReadable = true) :
    withDefault? ∅ (dictionaryOf? readable?) (some (.table c.entries)) = some c := by
  have hentries : (c.entries.mapM fun e => (readable? e.2).map (e.1, ·)) = some c.entries := by
    have hread : ∀ e ∈ c.entries, (readable? e.2).map (e.1, ·) = if True then some e else none := by
      intro e he
      rw [readable?, if_pos (h e he)]
      rfl
    have hall := mapM_map_eq_ite (fun _ => True) (fun e => e) hread
    rwa [List.map_id', if_pos fun _ _ => trivial] at hall
  unfold withDefault? dictionaryOf?
  dsimp only
  rw [hentries]
  exact congrArg some (Dictionary.ofList_entries c)

/-- **A feature reads back when its coordinates are plain**, and is no feature otherwise. -/
theorem ofDocument?_toDocument (h : ofDocument? .json d = some f) :
    ofDocument? .json f.toDocument =
      if ∀ a ∈ f.id :: f.bundles, a.Plain then some f else none := by
  obtain ⟨id, title, bundles, configurations, -, hid, -, hbundles, hconfigurations⟩ :=
    ofDocument?_eq_some_iff.1 h
  have hplain {a : Artifact} (ha : a.Regular) :
      artifact? (.text a.render) = if a.Plain then some a else none := ha.parse?_render
  have hreadBundles : withDefault? [] (listOf? artifact?)
      (some (.list (f.bundles.map fun a => .text a.render))) =
        if ∀ a ∈ f.bundles, a.Plain then some f.bundles else none :=
    mapM_map_eq_ite Artifact.Plain (fun a => Document.text a.render)
      fun a ha => hplain (regular_of_bundles hbundles a ha)
  have htitle : withDefault? none (optional? text?) (f.title.map .text) = some f.title := by
    cases f.title <;> rfl
  unfold ofDocument?
  rw [fields?_toDocument]
  simp only [Option.bind_eq_bind, Option.bind_some, required?, htitle, hreadBundles,
    configurations?_entries (isReadable_of_configurations hconfigurations)]
  rw [hplain (regular_of_id hid)]
  simp only [List.forall_mem_cons]
  by_cases hid : f.id.Plain
  · by_cases hall : ∀ a ∈ f.bundles, a.Plain
    · rw [if_pos hid, if_pos hall, if_pos ⟨hid, hall⟩]
      rfl
    · have hnot : ¬(f.id.Plain ∧ ∀ a ∈ f.bundles, a.Plain) := fun h => hall h.2
      rw [if_pos hid, if_neg hall, if_neg hnot]
      rfl
  · have hnot : ¬(f.id.Plain ∧ ∀ a ∈ f.bundles, a.Plain) := fun h => hid h.1
    rw [if_neg hid, if_neg hnot]
    rfl

/-- **Coordinates survive being written unless their text has both marks.** Such a text has slashes
between its parts and a colon in one of them, and what is written for it is refused. So a feature
that was read can be written and read again when the texts of its coordinates are plain. -/
theorem reread_unless_mixed (text : String) (d : Document) :
    (∀ a, Artifact.parse? text = some a → Artifact.parse? a.render =
      if '/' ∈ text.toList ∧ ':' ∈ text.toList then none else some a) ∧
    ∀ f, ofDocument? .json d = some f → ofDocument? .json f.toDocument =
      if ∀ a ∈ f.id :: f.bundles, a.Plain then some f else none := by
  refine ⟨fun a h => ?_, fun f h => ofDocument?_toDocument h⟩
  rw [(Artifact.regular_of_parse? h).parse?_render]
  by_cases hboth : '/' ∈ text.toList ∧ ':' ∈ text.toList
  · rw [if_pos hboth, if_neg fun hplain => (Artifact.plain_iff h).1 hplain hboth]
  · rw [if_neg hboth, if_pos ((Artifact.plain_iff h).2 hboth)]

/-- A colon between slashes belongs to the group, until the coordinates are written. -/
theorem not_reread_mixed :
    Artifact.parse? "a:b/c/1" = some ⟨"a:b", "c", "1"⟩ ∧
      Artifact.render ⟨"a:b", "c", "1"⟩ = "a:b:c:1" ∧ Artifact.parse? "a:b:c:1" = none := by
  decide +kernel

/-- A feature with coordinates in both forms, of which some have blanks around and inside. -/
def spaced : Document :=
  .table [("id", .text "org.example/a feature/1"), ("title", .null),
    ("bundles", .list [.text " org.example/lib/1.0 ", .text "org.example:lib:2\n"])]

/-- The blanks around coordinates and the slashes are not written again. -/
theorem reread_unless_mixed_spaced :
    (∃ a, Artifact.parse? " org.example/a lib/1.0 " = some a ∧
      a.render = "org.example:a lib:1.0" ∧ Artifact.parse? a.render = some a) ∧
    ∃ f, ofDocument? .json spaced = some f ∧
      f.bundles = [⟨"org.example", "lib", "1.0"⟩, ⟨"org.example", "lib", "2"⟩] ∧
        ofDocument? .json f.toDocument = some f := by
  obtain ⟨hartifact, hfeature⟩ := reread_unless_mixed " org.example/a lib/1.0 " spaced
  have hlib : Artifact.parse? " org.example/a lib/1.0 " =
      some ⟨"org.example", "a lib", "1.0"⟩ := by decide +kernel
  refine ⟨⟨_, hlib, by decide +kernel, hartifact _ hlib⟩, ?_⟩
  obtain ⟨f, hf, hid, hbundles⟩ : ∃ f, ofDocument? .json spaced = some f ∧
      f.id = ⟨"org.example", "a feature", "1"⟩ ∧
      f.bundles = [⟨"org.example", "lib", "1.0"⟩, ⟨"org.example", "lib", "2"⟩] :=
    ⟨_, rfl, by decide +kernel, by decide +kernel⟩
  refine ⟨f, hf, hbundles, (hfeature f hf).trans (if_pos ?_)⟩
  rw [hid, hbundles]
  decide +kernel

end Feature

end StartOrder
