import StartOrder.Proofs.Filter.Item

/-!
# The grammar of filters, without a reader

Which texts are filters can be said without a reader: by a grammar that derives filters from
texts. Separators stand before every filter within another, and behind the members of a
connective, but nowhere else. The reader follows the grammar in both directions. In particular a
text has no more than one meaning.

## Main definitions

* `Filter.Gap`: a run of separators
* `Filter.Derives`, `Filter.DerivesEach`: the texts of filters and of their members

## Main results

* `Filter.opening?_of_opens`, `Filter.opening?_of_not_opens`: when a filter follows
* `Filter.derives_of_reads_enclosed`, `Filter.reads_of_derives`: the reader follows the grammar
* `Filter.parse_eq_ok_iff`: the texts that denote a filter
-/

namespace StartOrder.Filter

/-! ## Derivations -/

/-- A run of separators. -/
def Gap (w : List Char) : Prop :=
  ∀ c ∈ w, isSeparator c = true

mutual

/-- The text of a filter, from the parenthesis that opens it to the one that closes it. -/
inductive Derives : List Char → Filter → Prop
  | all {ts w : List Char} {fs : List Filter} (h : DerivesEach ts fs) (hw : Gap w) :
      Derives ('(' :: '&' :: ts ++ w ++ [')']) (.all fs)
  | any {ts w : List Char} {fs : List Filter} (h : DerivesEach ts fs) (hw : Gap w) :
      Derives ('(' :: '|' :: ts ++ w ++ [')']) (.any fs)
  | not {t w : List Char} {f : Filter} (hw : Gap w) (h : Derives t f) :
      Derives ('(' :: '!' :: w ++ t ++ [')']) (.not f)
  | item {t : List Char} {f : Filter} (h : DerivesItem t f) : Derives ('(' :: t ++ [')']) f

/-- The text of one filter or more, with separators before each of them. -/
inductive DerivesEach : List Char → List Filter → Prop
  | one {t w : List Char} {f : Filter} (hw : Gap w) (h : Derives t f) : DerivesEach (w ++ t) [f]
  | cons {t ts w : List Char} {f : Filter} {fs : List Filter} (hw : Gap w) (h : Derives t f)
      (hs : DerivesEach ts fs) : DerivesEach (w ++ t ++ ts) (f :: fs)

end

variable {s t u q r w : List Char} {e f : Filter} {fs : List Filter}

/-! ## Separators -/

theorem gap_nil : Gap [] := List.forall_mem_nil _

theorem skip_append (hw : Gap w) : skip (w ++ s) = skip s := by
  rw [skip, skip, List.dropWhile_append_of_pos hw]

theorem exists_eq_append_skip (s : List Char) : ∃ w, Gap w ∧ s = w ++ skip s :=
  ⟨s.takeWhile isSeparator, fun _ hc => List.mem_takeWhile_imp hc,
    List.takeWhile_append_dropWhile.symm⟩

/-- A filter begins with a parenthesis, before which there may be separators. -/
def Opens (t u : List Char) : Prop :=
  ∃ w, Gap w ∧ t = w ++ '(' :: u

theorem opens_iff : Opens t u ↔ skip t = '(' :: u := by
  constructor
  · rintro ⟨w, hw, rfl⟩
    rw [skip_append hw]
    rfl
  · intro h
    obtain ⟨w, hw, ht⟩ := exists_eq_append_skip t
    rw [h] at ht
    exact ⟨w, hw, ht⟩

theorem Opens.length_lt (h : Opens t u) : u.length < t.length := by
  obtain ⟨w, -, rfl⟩ := h
  simp only [List.length_append, List.length_cons]
  omega

theorem opening?_of_opens (h : Opens t u) : opening? t = some ⟨u, h.length_lt⟩ := by
  rw [opens_iff] at h
  unfold opening?
  split
  · next r hr =>
    cases hr.symm.trans h
    rfl
  · next hne => exact absurd h (hne u)

theorem opening?_of_not_opens (h : ∀ u, ¬ Opens t u) : opening? t = none := by
  simp only [opens_iff] at h
  unfold opening?
  split
  · next r hr => exact absurd hr (h r)
  · rfl

theorem closing_eq_ok_iff {h : q.length < s.length} : closing s = .ok ⟨q, h⟩ ↔ s = ')' :: q := by
  constructor
  · intro hs
    unfold closing at hs
    split at hs <;> cases hs
    rfl
  · rintro rfl
    rfl

/-! ## Connectives -/

/-- Behind the members of a connective there may be separators, and then it is closed. -/
theorem reads_members_closing (k : List Filter → Filter)
    (hlt : ∀ {r q : List Char}, r.length < u.length → q.length < (skip r).length →
      q.length < s.length) :
    Reads (s := s) (do
        let (fs, ⟨_, hr⟩) ← members u
        let ⟨q, hq⟩ ← closing (skip _)
        return (k fs, ⟨q, hlt hr hq⟩)) e q ↔
      ∃ fs w, Reads (members u) fs (w ++ ')' :: q) ∧ Gap w ∧ e = k fs := by
  constructor
  · rintro ⟨h, hx⟩
    obtain ⟨⟨fs, r, hr⟩, hmembers, hx⟩ := bind_eq_ok_iff.1 hx
    obtain ⟨⟨q', hq⟩, hclosing, hx⟩ := bind_eq_ok_iff.1 hx
    cases hx
    obtain ⟨w, hw, hsplit⟩ := exists_eq_append_skip r
    rw [closing_eq_ok_iff.1 hclosing] at hsplit
    exact ⟨fs, w, ⟨hsplit ▸ hr, by rw [hmembers]; congr⟩, hw, rfl⟩
  · rintro ⟨fs, w, ⟨h, hmembers⟩, hw, rfl⟩
    have hskip : skip (w ++ ')' :: q) = ')' :: q := skip_append hw
    have hq : q.length < (skip (w ++ ')' :: q)).length := by
      rw [hskip]
      exact Nat.lt_succ_self _
    have hclosing : closing (skip (w ++ ')' :: q)) = .ok ⟨q, hq⟩ := closing_eq_ok_iff.2 hskip
    exact ⟨hlt h hq, bind_eq_ok_iff.2 ⟨_, hmembers, bind_eq_ok_iff.2 ⟨_, hclosing, rfl⟩⟩⟩

theorem Opens.rest_lt (h : Opens t u) (c : Char) {r q : List Char} (hr : r.length < u.length)
    (hq : q.length < (skip r).length) : q.length < (c :: t).length := by
  have hu := h.length_lt
  have hskip := length_skip_le r
  simp only [List.length_cons]
  omega

theorem reads_all (h : Opens t u) : Reads (enclosed ('&' :: t)) e q ↔
    ∃ fs w, Reads (members u) fs (w ++ ')' :: q) ∧ Gap w ∧ e = .all fs := by
  rw [enclosed, opening?_of_opens h]
  exact reads_members_closing .all (h.rest_lt '&')

theorem reads_any (h : Opens t u) : Reads (enclosed ('|' :: t)) e q ↔
    ∃ fs w, Reads (members u) fs (w ++ ')' :: q) ∧ Gap w ∧ e = .any fs := by
  rw [enclosed, opening?_of_opens h]
  exact reads_members_closing .any (h.rest_lt '|')

/-- The member of a negation is closed at once. -/
theorem reads_not (h : Opens t u) : Reads (enclosed ('!' :: t)) e q ↔
    ∃ f, Reads (enclosed u) f (')' :: q) ∧ e = .not f := by
  rw [enclosed, opening?_of_opens h]
  constructor
  · rintro ⟨hlt, hx⟩
    obtain ⟨⟨f, r, hr⟩, henclosed, hx⟩ := bind_eq_ok_iff.1 hx
    obtain ⟨⟨q', hq⟩, hclosing, hx⟩ := bind_eq_ok_iff.1 hx
    cases hx
    obtain rfl := closing_eq_ok_iff.1 hclosing
    exact ⟨f, ⟨hr, henclosed⟩, rfl⟩
  · rintro ⟨f, ⟨hr, henclosed⟩, rfl⟩
    have hclosing : closing (')' :: q) = .ok ⟨q, Nat.lt_succ_self _⟩ := rfl
    have hlt : q.length < ('!' :: t).length := by
      have hu := h.length_lt
      simp only [List.length_cons] at hr ⊢
      omega
    exact ⟨hlt, bind_eq_ok_iff.2 ⟨_, henclosed, bind_eq_ok_iff.2 ⟨_, hclosing, rfl⟩⟩⟩

/-- A text is read as an item unless it begins with a sign of a connective that a filter
follows. -/
theorem enclosed_eq_item (h : ∀ c t u, s = c :: t → c ∈ ['&', '|', '!'] → ¬ Opens t u) :
    enclosed s = item s := by
  unfold enclosed
  split
  · next t => rw [opening?_of_not_opens fun u => h '&' t u rfl (by simp)]
  · next t => rw [opening?_of_not_opens fun u => h '|' t u rfl (by simp)]
  · next t => rw [opening?_of_not_opens fun u => h '!' t u rfl (by simp)]
  · rfl

/-- One filter is read after the other, as long as another one follows. -/
theorem reads_members : Reads (members s) fs q ↔ ∃ f r, Reads (enclosed s) f r ∧
    ((∀ u, ¬ Opens r u) ∧ fs = [f] ∧ r = q ∨
      ∃ t fs', Opens r t ∧ Reads (members t) fs' q ∧ fs = f :: fs') := by
  rw [members]
  constructor
  · rintro ⟨hlt, hx⟩
    obtain ⟨⟨f, r, hr⟩, henclosed, hx⟩ := bind_eq_ok_iff.1 hx
    refine ⟨f, r, ⟨hr, henclosed⟩, ?_⟩
    by_cases h : ∃ t, Opens r t
    · obtain ⟨t, h⟩ := h
      dsimp only at hx
      rw [opening?_of_opens h] at hx
      obtain ⟨⟨fs', q', hq⟩, hmembers, hx⟩ := bind_eq_ok_iff.1 hx
      cases hx
      exact .inr ⟨t, fs', h, ⟨hq, hmembers⟩, rfl⟩
    · rw [not_exists] at h
      dsimp only at hx
      rw [opening?_of_not_opens h] at hx
      cases hx
      exact .inl ⟨h, rfl, rfl⟩
  · rintro ⟨f, r, ⟨hr, henclosed⟩, ⟨h, rfl, rfl⟩ | ⟨t, fs', h, ⟨hq, hmembers⟩, rfl⟩⟩
    · refine ⟨hr, bind_eq_ok_iff.2 ⟨_, henclosed, ?_⟩⟩
      dsimp only
      rw [opening?_of_not_opens h]
      rfl
    · refine ⟨(hq.trans h.length_lt).trans hr, bind_eq_ok_iff.2 ⟨_, henclosed, ?_⟩⟩
      dsimp only
      rw [opening?_of_opens h]
      exact bind_eq_ok_iff.2 ⟨_, hmembers, rfl⟩

/-! ## The reader follows the grammar -/

/-- Separators may be added before the first of several filters. -/
theorem DerivesEach.gap (hw : Gap w) (h : DerivesEach s fs) : DerivesEach (w ++ s) fs := by
  have hgap {v} (hv : Gap v) : Gap (w ++ v) := List.forall_mem_append.2 ⟨hw, hv⟩
  cases h with
  | one hv h =>
    rw [← List.append_assoc]
    exact .one (hgap hv) h
  | cons hv h hs =>
    rw [← List.append_assoc, ← List.append_assoc]
    exact .cons (hgap hv) h hs

/-- A text begins with a connective, or it is read as an item. -/
theorem connective_or_item (s : List Char) : (∃ t u, s = '&' :: t ∧ Opens t u) ∨
    (∃ t u, s = '|' :: t ∧ Opens t u) ∨ (∃ t u, s = '!' :: t ∧ Opens t u) ∨
      ∀ c t u, s = c :: t → c ∈ ['&', '|', '!'] → ¬ Opens t u := by
  by_cases h : ∃ c t u, s = c :: t ∧ c ∈ ['&', '|', '!'] ∧ Opens t u
  · obtain ⟨c, t, u, rfl, hc, h⟩ := h
    simp only [List.mem_cons, List.not_mem_nil, or_false] at hc
    rcases hc with rfl | rfl | rfl
    · exact .inl ⟨t, u, rfl, h⟩
    · exact .inr (.inl ⟨t, u, rfl, h⟩)
    · exact .inr (.inr (.inl ⟨t, u, rfl, h⟩))
  · exact .inr (.inr (.inr fun c t u hs hc hu => h ⟨c, t, u, hs, hc, hu⟩))

mutual

/-- What the reader reads behind an opening parenthesis is derived by the grammar. -/
theorem derives_of_reads_enclosed (s : List Char) {e : Filter} {q : List Char}
    (h : Reads (enclosed s) e q) : ∃ t, s = t ++ q ∧ Derives ('(' :: t) e := by
  rcases connective_or_item s with
    ⟨t, u, hs, hu⟩ | ⟨t, u, hs, hu⟩ | ⟨t, u, hs, hu⟩ | hitem
  · rw [hs] at h
    obtain ⟨fs, w, hmembers, hw, rfl⟩ := (reads_all hu).1 h
    obtain ⟨v, hv, hderives⟩ := derivesEach_of_reads_members u hmembers
    obtain ⟨w', hw', ht⟩ := hu
    refine ⟨'&' :: (w' ++ '(' :: v) ++ w ++ [')'], ?_, .all (hderives.gap hw') hw⟩
    simp [hs, ht, hv]
  · rw [hs] at h
    obtain ⟨fs, w, hmembers, hw, rfl⟩ := (reads_any hu).1 h
    obtain ⟨v, hv, hderives⟩ := derivesEach_of_reads_members u hmembers
    obtain ⟨w', hw', ht⟩ := hu
    refine ⟨'|' :: (w' ++ '(' :: v) ++ w ++ [')'], ?_, .any (hderives.gap hw') hw⟩
    simp [hs, ht, hv]
  · rw [hs] at h
    obtain ⟨f, henclosed, rfl⟩ := (reads_not hu).1 h
    obtain ⟨v, hv, hderives⟩ := derives_of_reads_enclosed u henclosed
    obtain ⟨w, hw, ht⟩ := hu
    refine ⟨'!' :: w ++ '(' :: v ++ [')'], ?_, .not hw hderives⟩
    simp [hs, ht, hv]
  · obtain ⟨t, rfl, ht⟩ := reads_item_iff.1 (enclosed_eq_item hitem ▸ h)
    exact ⟨t ++ [')'], by simp, .item ht⟩
termination_by 2 * s.length
decreasing_by
  all_goals
    have hlt := hu.length_lt
    simp only [hs, List.length_cons]
    omega

/-- The filters that the reader reads one after the other are derived by the grammar. -/
theorem derivesEach_of_reads_members (s : List Char) {fs : List Filter} {q : List Char}
    (h : Reads (members s) fs q) : ∃ t, s = t ++ q ∧ DerivesEach ('(' :: t) fs := by
  obtain ⟨f, r, henclosed, hrest⟩ := reads_members.1 h
  obtain ⟨v, hv, hderives⟩ := derives_of_reads_enclosed s henclosed
  rcases hrest with ⟨-, rfl, rfl⟩ | ⟨t, fs', hopens, hmembers, rfl⟩
  · exact ⟨v, hv, .one gap_nil hderives⟩
  · obtain ⟨v', hv', hderives'⟩ := derivesEach_of_reads_members t hmembers
    obtain ⟨w, hw, hr⟩ := hopens
    refine ⟨v ++ (w ++ '(' :: v'), ?_, .cons gap_nil hderives (hderives'.gap hw)⟩
    simp [hv, hr, hv']
termination_by 2 * s.length + 1
decreasing_by
  · omega
  · have hlt := hopens.length_lt
    have hlt' := henclosed.length_lt
    omega

end

/-- No filter follows a sign of a connective that is part of a name. -/
theorem not_opens_name {name : List Char} {op : Comparison}
    (hname : ∀ c ∈ name, isNameChar c = true) : ¬ Opens (name ++ sign op ++ r) u := by
  rw [opens_iff]
  induction name with
  | nil => cases op <;> exact fun h => by cases h
  | cons c name ih =>
    obtain ⟨hc, hname⟩ := List.forall_mem_cons.1 hname
    -- A name may begin with separators, but it has no parenthesis to be found behind them.
    rw [skip, List.cons_append, List.cons_append, List.dropWhile_cons]
    split
    · exact ih hname
    · intro h
      cases h
      cases hc

/-- No filter follows the parenthesis that closes a connective. -/
theorem not_opens_closing (hw : Gap w) : ¬ Opens (w ++ ')' :: q) u := by
  rw [opens_iff, skip_append hw]
  intro h
  cases h

theorem reads_enclosed_of_derivesItem (h : DerivesItem t e) :
    Reads (enclosed (t ++ ')' :: q)) e q := by
  have hitem : Reads (item (t ++ ')' :: q)) e q := reads_item_iff.2 ⟨t, rfl, h⟩
  rwa [enclosed_eq_item]
  intro c t' u' hs _
  obtain @⟨name, v, key, op, ms, _, hname, -, -⟩ := h
  obtain ⟨hchars, hne, -⟩ := names_iff.1 hname
  obtain ⟨d, name, rfl⟩ := List.exists_cons_of_ne_nil (l := name) fun hnil =>
    hne (by rw [hnil, Text.trim_nil])
  have ht : t' = name ++ sign op ++ (v ++ ')' :: q) := by
    simp only [List.cons_append, List.append_assoc, List.cons.injEq] at hs ⊢
    exact hs.2.symm
  rw [ht]
  exact not_opens_name (List.forall_mem_cons.1 hchars).2

mutual

/-- The reader reads what the grammar derives, whatever follows. -/
theorem reads_of_derives {t : List Char} {e : Filter} :
    Derives t e → ∀ q, ∃ u, t = '(' :: u ∧ Reads (enclosed (u ++ q)) e q
  | @Derives.all ts w fs h hw, q => by
    obtain ⟨u, hu, hmembers⟩ := reads_of_derivesEach h (w ++ ')' :: q) fun _ => not_opens_closing hw
    have heq : '&' :: ts ++ w ++ [')'] ++ q = '&' :: (ts ++ (w ++ ')' :: q)) := by simp
    refine ⟨'&' :: ts ++ w ++ [')'], rfl, ?_⟩
    rw [heq]
    exact (reads_all hu).2 ⟨fs, w, hmembers, hw, rfl⟩
  | @Derives.any ts w fs h hw, q => by
    obtain ⟨u, hu, hmembers⟩ := reads_of_derivesEach h (w ++ ')' :: q) fun _ => not_opens_closing hw
    have heq : '|' :: ts ++ w ++ [')'] ++ q = '|' :: (ts ++ (w ++ ')' :: q)) := by simp
    refine ⟨'|' :: ts ++ w ++ [')'], rfl, ?_⟩
    rw [heq]
    exact (reads_any hu).2 ⟨fs, w, hmembers, hw, rfl⟩
  | @Derives.not t w f hw h, q => by
    obtain ⟨u, rfl, hread⟩ := reads_of_derives h (')' :: q)
    have heq : '!' :: w ++ '(' :: u ++ [')'] ++ q = '!' :: (w ++ '(' :: (u ++ ')' :: q)) := by simp
    refine ⟨'!' :: w ++ '(' :: u ++ [')'], rfl, ?_⟩
    rw [heq]
    exact (reads_not ⟨w, hw, rfl⟩).2 ⟨f, hread, rfl⟩
  | @Derives.item t e h, q => by
    have heq : t ++ [')'] ++ q = t ++ ')' :: q := by simp
    refine ⟨t ++ [')'], rfl, ?_⟩
    rw [heq]
    exact reads_enclosed_of_derivesItem h

/-- The reader reads the filters that the grammar derives, when no other filter follows. -/
theorem reads_of_derivesEach {s : List Char} {fs : List Filter} :
    DerivesEach s fs → ∀ q, (∀ u, ¬ Opens q u) →
      ∃ u, Opens (s ++ q) u ∧ Reads (members u) fs q
  | @DerivesEach.one t w f hw h, q, hq => by
    obtain ⟨u, rfl, hread⟩ := reads_of_derives h q
    refine ⟨u ++ q, ⟨w, hw, by simp⟩, reads_members.2 ⟨f, q, hread, .inl ⟨hq, rfl, rfl⟩⟩⟩
  | @DerivesEach.cons t ts w f fs hw h hs, q, hq => by
    obtain ⟨v, hv, hmembers⟩ := reads_of_derivesEach hs q hq
    obtain ⟨u, rfl, hread⟩ := reads_of_derives h (ts ++ q)
    refine ⟨u ++ (ts ++ q), ⟨w, hw, by simp⟩, reads_members.2 ⟨f, ts ++ q, hread, .inr ?_⟩⟩
    exact ⟨v, fs, hv, hmembers, rfl⟩

end

/-- **A text denotes no more than one filter.** -/
theorem Derives.unique {e' : Filter} (h : Derives t e) (h' : Derives t e') : e = e' := by
  obtain ⟨u, rfl, _, hread⟩ := reads_of_derives h []
  obtain ⟨u', hu', _, hread'⟩ := reads_of_derives h' []
  cases hu'
  cases hread.symm.trans hread'
  rfl

/-! ## Whole texts -/

theorem skip_eq_nil_iff : skip s = [] ↔ Gap s :=
  List.dropWhile_eq_nil_iff

/-- A text is read whole, but for the separators around the filter. -/
theorem read_eq_ok_iff : read s = .ok e ↔ ∃ u q, Opens s u ∧ Reads (enclosed u) e q ∧ Gap q := by
  unfold read
  constructor
  · intro h
    by_cases hopens : ∃ u, Opens s u
    · obtain ⟨u, hu⟩ := hopens
      rw [opening?_of_opens hu] at h
      obtain ⟨⟨f, q, hq⟩, hread, h⟩ := bind_eq_ok_iff.1 h
      dsimp only at h
      split at h
      · next hskip =>
        cases h
        exact ⟨u, q, hu, ⟨hq, hread⟩, skip_eq_nil_iff.1 hskip⟩
      · cases h
    · rw [opening?_of_not_opens fun u hu => hopens ⟨u, hu⟩] at h
      cases h
  · rintro ⟨u, q, hu, ⟨hq, hread⟩, hgap⟩
    rw [opening?_of_opens hu]
    refine bind_eq_ok_iff.2 ⟨_, hread, ?_⟩
    dsimp only
    rw [skip_eq_nil_iff.2 hgap]
    rfl

/-- What the grammar derives is read, with separators around it. -/
theorem read_of_derives (hw : Gap w) (h : Derives t e) (hq : Gap q) :
    read (w ++ t ++ q) = .ok e := by
  obtain ⟨u, rfl, hread⟩ := reads_of_derives h q
  have hopens : Opens (w ++ '(' :: u ++ q) (u ++ q) := ⟨w, hw, by simp⟩
  exact read_eq_ok_iff.2 ⟨u ++ q, q, hopens, hread, hq⟩

theorem parse_eq_ok_iff_read {text : String} : parse text = .ok e ↔ read text.toList = .ok e := by
  rw [parse]
  cases read text.toList with
  | error fault => simp [Except.mapError]
  | ok f => simp [Except.mapError]

/-- **The texts that denote a filter** are those that the grammar derives, with separators around
them. -/
theorem parse_eq_ok_iff {text : String} : parse text = .ok e ↔ ∃ w t w', Gap w ∧ Gap w' ∧
    text.toList = w ++ t ++ w' ∧ Derives t e := by
  rw [parse_eq_ok_iff_read, read_eq_ok_iff]
  constructor
  · rintro ⟨u, q, ⟨w, hw, htext⟩, hread, hq⟩
    obtain ⟨t, rfl, ht⟩ := derives_of_reads_enclosed u hread
    exact ⟨w, '(' :: t, q, hw, hq, by simp [htext], ht⟩
  · rintro ⟨w, t, w', hw, hw', htext, ht⟩
    obtain ⟨u, rfl, hread⟩ := reads_of_derives ht w'
    exact ⟨u ++ w', w', ⟨w, hw, by simp [htext]⟩, hread, hw'⟩

end StartOrder.Filter
