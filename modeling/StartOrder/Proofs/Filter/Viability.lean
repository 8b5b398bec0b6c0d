import StartOrder.Proofs.Filter.Grammar

/-!
# Texts up to a fault

A text that is no filter is refused at a place, and the report shows that place first. What stands
before it is never at fault: it can be completed to a filter. The reader goes on only over what the
grammar allows so far, and every filter that is still open there can be closed by parentheses.
Behind the parenthesis that opens a filter any item can stand, behind the name of an attribute a
sign with no value, and a value can end behind each of its units.

A sign of a connective that no filter follows is read once more, as part of a name. This moves no
fault back over the parenthesis that opens a member, since the reader of a connective gives up
before it has passed one.

## Main definitions

* `Filter.Begins P s rest`: what stands in `s` before `rest` begins a text with the property `P`
* `Filter.IsEnclosed`, `Filter.AreMembers`: what can follow the parenthesis of a filter, and of the
  first of several

## Main results

* `Filter.begins_of_value_eq_error`, `Filter.begins_of_item_eq_error`,
  `Filter.begins_of_enclosed_eq_error`, `Filter.begins_of_members_eq_error`,
  `Filter.begins_of_read_eq_error`: what each reader has passed when it finds a fault
* `Filter.viable_of_parse_eq_error`: the text before the first place of a report
-/

namespace StartOrder.Filter

/-! ## Beginnings of texts -/

section Beginnings

variable {P Q : List Char → Prop} {s rest : List Char}

/-- What stands in `s` before `rest` is the beginning of a text with the property `P`. -/
def Begins (P : List Char → Prop) (s rest : List Char) : Prop :=
  ∃ before after, s = before ++ rest ∧ P (before ++ after)

/-- A beginning stays one behind a text that is put before it, when what it begins can be put
between that text and another one. -/
theorem Begins.behind (h : Begins P s rest) (pre post : List Char)
    (hPQ : ∀ t, P t → Q (pre ++ t ++ post)) : Begins Q (pre ++ s) rest := by
  obtain ⟨before, after, rfl, hP⟩ := h
  refine ⟨pre ++ before, after ++ post, (List.append_assoc _ _ _).symm, ?_⟩
  have hQ := hPQ _ hP
  simpa only [List.append_assoc] using hQ

end Beginnings

variable {s t u q r w : List Char} {e : Filter} {fs : List Filter} {fault : Fault}

/-! ## Items -/

/-- What has been passed of a value spells units, and the value can end behind them. -/
theorem spells_of_value_eq_error {start : List Char} (h : value start s = .error fault) :
    ∃ v ms, s = v ++ fault.rest ∧ Spells v ms := by
  induction s using value.induct with
  | case1 | case3 | case4 =>
    cases h
    exact ⟨[], [], rfl, .nil⟩
  | case2 r => cases h
  | case5 c r ih =>
    obtain ⟨v, ms, hr, hv⟩ := ih (map_eq_error_iff.1 h)
    exact ⟨'\\' :: c :: v, .char c :: ms, by rw [hr]; rfl, hv.escaped⟩
  | case6 r ih =>
    obtain ⟨v, ms, hr, hv⟩ := ih (map_eq_error_iff.1 h)
    exact ⟨'*' :: v, .star :: ms, by rw [hr]; rfl, hv.star⟩
  | case7 c r hclose hopen hlone hescape hstar ih =>
    rw [value.eq_7 start c r hclose hopen hlone hescape hstar] at h
    obtain ⟨v, ms, hr, hv⟩ := ih (map_eq_error_iff.1 h)
    have hback : c ≠ '\\' := by
      intro hc
      cases r with
      | nil => exact hlone hc rfl
      | cons d r => exact hescape d r hc rfl
    refine ⟨c :: v, .char c :: ms, by rw [hr]; rfl, hv.plain ?_⟩
    simp only [List.mem_cons, List.not_mem_nil, or_false, not_or]
    exact ⟨hopen, hclose, hstar, hback⟩

/-- A name with any sign and the units of a value behind it is an item. -/
theorem exists_derivesItem {name v : List Char} {key : String} {ms : List Mark}
    (hname : Names name key) (op : Comparison) (hv : Spells v ms) :
    ∃ e, DerivesItem (name ++ (sign op ++ v)) e := by
  refine ⟨condition key op ms, ?_⟩
  rw [← List.append_assoc]
  exact .mk hname hv (means_iff.2 rfl)

theorem exists_item : ∃ t e, DerivesItem t e := by
  have hname : Names "a".toList "a" := names_toList (by decide) rfl
  exact ⟨_, exists_derivesItem hname .equal .nil⟩

/-- **What has been passed of an item can be completed to an item.** -/
theorem begins_of_item_eq_error (h : item s = .error fault) :
    Begins (fun t => ∃ e, DerivesItem t e) s fault.rest := by
  -- Where no name has been found, any item can stand.
  obtain ⟨t, e, ht⟩ := exists_item
  unfold item at h
  dsimp only at h
  split at h
  · cases h
    exact ⟨[], t, rfl, e, ht⟩
  split at h
  · cases h
    exact ⟨[], t, rfl, e, ht⟩
  · next hname =>
    have hnames : Names (s.takeWhile isNameChar)
        (String.ofList (Text.trim (s.takeWhile isNameChar))) :=
      names_iff.2 ⟨fun c hc => List.mem_takeWhile_imp hc, fun hnil =>
        hname (List.isEmpty_iff.2 hnil), rfl⟩
    have hs : s = s.takeWhile isNameChar ++ s.dropWhile isNameChar :=
      List.takeWhile_append_dropWhile.symm
    split at h
    · cases h
      exact ⟨_, _, hs, exists_derivesItem hnames .equal .nil⟩
    · next op t hop =>
      rcases bind_eq_error_iff.1 h with hvalue | ⟨⟨ms, r, hr⟩, -, hok⟩
      · obtain ⟨v, ms, ht, hv⟩ := spells_of_value_eq_error hvalue
        rw [operator?_eq_some_iff.1 hop, ht, ← List.append_assoc, ← List.append_assoc,
          List.append_assoc (s.takeWhile isNameChar)] at hs
        refine ⟨_, [], hs, ?_⟩
        rw [List.append_nil]
        exact exists_derivesItem hnames op hv
      · cases hok

/-! ## Filters -/

/-- The text of a filter behind the parenthesis that opens it. -/
def IsEnclosed (t : List Char) : Prop :=
  ∃ e, Derives ('(' :: t) e

/-- The text of one filter or more behind the parenthesis that opens the first. -/
def AreMembers (t : List Char) : Prop :=
  ∃ fs, DerivesEach ('(' :: t) fs

theorem closing_eq_error (h : closing s = .error fault) : fault.rest = s := by
  unfold closing at h
  split at h <;> cases h
  rfl

/-- A connective is at fault in its members, or behind them where it is not closed. -/
theorem members_closing_eq_error (k : List Filter → Filter)
    (hlt : ∀ {r q : List Char}, r.length < u.length → q.length < (skip r).length →
      q.length < s.length)
    (h : (do
        let (fs, ⟨_, hr⟩) ← members u
        let ⟨q, hq⟩ ← closing (skip _)
        return (k fs, ⟨q, hlt hr hq⟩) : Reading Filter s) = .error fault) :
    members u = .error fault ∨ ∃ fs r, Reads (members u) fs r ∧ fault.rest = skip r := by
  rcases bind_eq_error_iff.1 h with hmembers | ⟨⟨fs, r, hr⟩, hmembers, h⟩
  · exact .inl hmembers
  rcases bind_eq_error_iff.1 h with hclosing | ⟨_, _, hok⟩
  · exact .inr ⟨fs, r, ⟨hr, hmembers⟩, closing_eq_error hclosing⟩
  · cases hok

/-- Members of a connective are completed, and the connective is closed. -/
theorem begins_of_members {c : Char} {k : List Filter → Filter} (hw : Gap w)
    (hderives : ∀ {ts w fs}, DerivesEach ts fs → Gap w →
      Derives ('(' :: c :: ts ++ w ++ [')']) (k fs))
    (h : Begins AreMembers u fault.rest ∨
      ∃ fs r, Reads (members u) fs r ∧ fault.rest = skip r) :
    Begins IsEnclosed (c :: (w ++ '(' :: u)) fault.rest := by
  rcases h with h | ⟨fs, r, hmembers, hrest⟩
  · have hpre : c :: (w ++ '(' :: u) = (c :: w ++ ['(']) ++ u := by simp
    rw [hpre]
    refine h.behind _ [')'] fun t ⟨fs, hts⟩ => ⟨k fs, ?_⟩
    simpa using hderives (hts.gap hw) gap_nil
  · obtain ⟨t, hu, hts⟩ := derivesEach_of_reads_members u hmembers
    obtain ⟨w', hw', hr⟩ := exists_eq_append_skip r
    rw [← hrest] at hr
    refine ⟨c :: (w ++ '(' :: t) ++ w', [')'], ?_, k fs, ?_⟩
    · rw [hu, hr]
      simp
    · simpa using hderives (hts.gap hw) hw'

/-- The member of a negation is completed, and the negation is closed. -/
theorem begins_of_member (hw : Gap w)
    (h : Begins IsEnclosed u fault.rest ∨ ∃ f, Reads (enclosed u) f fault.rest) :
    Begins IsEnclosed ('!' :: (w ++ '(' :: u)) fault.rest := by
  rcases h with h | ⟨f, hread⟩
  · have hpre : '!' :: (w ++ '(' :: u) = ('!' :: w ++ ['(']) ++ u := by simp
    rw [hpre]
    refine h.behind _ [')'] fun t ⟨f, ht⟩ => ⟨.not f, ?_⟩
    simpa using Derives.not hw ht
  · obtain ⟨t, hu, ht⟩ := derives_of_reads_enclosed u hread
    refine ⟨'!' :: (w ++ '(' :: t), [')'], ?_, .not f, ?_⟩
    · nth_rewrite 1 [hu]
      simp
    · simpa using Derives.not hw ht

mutual

/-- **What has been passed of a filter can be completed to a filter**, from the parenthesis that
opens it on. -/
theorem begins_of_enclosed_eq_error (s : List Char) {fault : Fault}
    (h : enclosed s = .error fault) : Begins IsEnclosed s fault.rest := by
  rcases connective_or_item s with
    ⟨t, u, hs, hu⟩ | ⟨t, u, hs, hu⟩ | ⟨t, u, hs, hu⟩ | hitem
  · have ⟨w, hw, ht⟩ := hu
    rw [hs, enclosed, opening?_of_opens hu] at h
    have hmembers := members_closing_eq_error .all (hu.rest_lt '&') h
    rw [hs, ht]
    exact begins_of_members hw .all (hmembers.imp_left (begins_of_members_eq_error u))
  · have ⟨w, hw, ht⟩ := hu
    rw [hs, enclosed, opening?_of_opens hu] at h
    have hmembers := members_closing_eq_error .any (hu.rest_lt '|') h
    rw [hs, ht]
    exact begins_of_members hw .any (hmembers.imp_left (begins_of_members_eq_error u))
  · have ⟨w, hw, ht⟩ := hu
    rw [hs, enclosed, opening?_of_opens hu] at h
    rw [hs, ht]
    refine begins_of_member hw ?_
    rcases bind_eq_error_iff.1 h with henclosed | ⟨⟨f, r, hr⟩, henclosed, h⟩
    · exact .inl (begins_of_enclosed_eq_error u henclosed)
    rcases bind_eq_error_iff.1 h with hclosing | ⟨_, _, hok⟩
    · obtain rfl := closing_eq_error hclosing
      exact .inr ⟨f, hr, henclosed⟩
    · cases hok
  · rw [enclosed_eq_item hitem] at h
    refine (begins_of_item_eq_error h).behind [] [')'] fun t ⟨e, ht⟩ => ?_
    exact ⟨e, .item ht⟩
termination_by 2 * s.length
decreasing_by
  all_goals
    have hlt := hu.length_lt
    simp only [hs, List.length_cons]
    omega

/-- What has been passed of several filters can be completed to several filters. -/
theorem begins_of_members_eq_error (s : List Char) {fault : Fault}
    (h : members s = .error fault) : Begins AreMembers s fault.rest := by
  rw [members] at h
  rcases bind_eq_error_iff.1 h with henclosed | ⟨⟨f, r, hr⟩, henclosed, h⟩
  · refine (begins_of_enclosed_eq_error s henclosed).behind [] []
      fun t ⟨e, ht⟩ => ⟨[e], ?_⟩
    simpa using DerivesEach.one gap_nil ht
  -- The fault is behind the first filter, so that another one opens there.
  · obtain ⟨v, hs, hv⟩ := derives_of_reads_enclosed s ⟨hr, henclosed⟩
    by_cases hopens : ∃ t, Opens r t
    · obtain ⟨t, hopens⟩ := hopens
      dsimp only at h
      rw [opening?_of_opens hopens] at h
      rcases bind_eq_error_iff.1 h with hmembers | ⟨_, _, hok⟩
      · have ⟨w, hw, hrt⟩ := hopens
        have hpre : s = (v ++ w ++ ['(']) ++ t := by rw [hs, hrt]; simp
        rw [hpre]
        refine (begins_of_members_eq_error t hmembers).behind _ []
          fun u ⟨fs, hts⟩ => ⟨f :: fs, ?_⟩
        simpa using DerivesEach.cons gap_nil hv (hts.gap hw)
      · cases hok
    · rw [not_exists] at hopens
      dsimp only at h
      rw [opening?_of_not_opens hopens] at h
      cases h
termination_by 2 * s.length + 1
decreasing_by
  · omega
  · have hlt := hopens.length_lt
    omega

end

/-! ## Whole texts -/

/-- **What has been passed of a text can be completed to a text that is read.** -/
theorem begins_of_read_eq_error (h : read s = .error fault) :
    Begins (fun t => ∃ e, read t = .ok e) s fault.rest := by
  unfold read at h
  by_cases hopens : ∃ u, Opens s u
  · obtain ⟨u, hu⟩ := hopens
    have ⟨w, hw, hs⟩ := hu
    rw [opening?_of_opens hu] at h
    rcases bind_eq_error_iff.1 h with henclosed | ⟨⟨f, r, hr⟩, henclosed, h⟩
    · have hpre : s = (w ++ ['(']) ++ u := by rw [hs]; simp
      rw [hpre]
      refine (begins_of_enclosed_eq_error u henclosed).behind _ []
        fun t ⟨e, ht⟩ => ⟨e, ?_⟩
      simpa using read_of_derives hw ht gap_nil
    · obtain ⟨t, hu, ht⟩ := derives_of_reads_enclosed u ⟨hr, henclosed⟩
      obtain ⟨w', hw', hr'⟩ := exists_eq_append_skip r
      dsimp only at h
      split at h
      · cases h
      · cases h
        refine ⟨w ++ '(' :: t ++ w', [], ?_, f, ?_⟩
        · calc s = w ++ '(' :: (t ++ r) := by rw [hs, hu]
            _ = w ++ '(' :: (t ++ (w' ++ skip r)) := by rw [← hr']
            _ = w ++ '(' :: t ++ w' ++ skip r := by simp
        · simpa using read_of_derives hw ht hw'
  · rw [not_exists] at hopens
    rw [opening?_of_not_opens hopens] at h
    cases h
    obtain ⟨w, hw, hs⟩ := exists_eq_append_skip s
    obtain ⟨t, e, ht⟩ := exists_item
    refine ⟨w, '(' :: t ++ [')'], hs, e, ?_⟩
    simpa using read_of_derives hw (.item ht) gap_nil

/-- **The text before the first place of a report is the beginning of a filter.** -/
theorem viable_of_parse_eq_error {text : String} {m : Malformed} (h : parse text = .error m) :
    m.text = text ∧ ∃ rest entry entries, m.fault.trail = (rest, entry) :: entries ∧
      ∃ before, text.toList = before ++ rest ∧
        ∃ after e, parse (String.ofList (before ++ after)) = .ok e := by
  obtain ⟨fault, hread, rfl⟩ := mapError_eq_error_iff.1 h
  have hplace := fault.head?_trail
  cases htrail : fault.trail with
  | nil =>
    rw [htrail] at hplace
    cases hplace
  | cons first entries =>
    obtain ⟨rest, entry⟩ := first
    rw [htrail] at hplace
    obtain rfl : rest = fault.rest := Option.some.inj hplace
    obtain ⟨before, after, htext, e, he⟩ := begins_of_read_eq_error hread
    refine ⟨rfl, _, entry, entries, rfl, before, htext, after, e, ?_⟩
    rw [parse_eq_ok_iff_read, String.toList_ofList]
    exact he

/-- In the negation stands a sign of a connective that no filter follows, as the name of an
attribute without a comparison. -/
def doubtful : String := "(&(name=a*)(!(& >5)))"

/-- The text is refused behind the name, where a comparison would have kept it possible. -/
theorem viable_of_parse_eq_error_doubtful :
    parse doubtful = .error ⟨doubtful, .noOperator ">5)))".toList "& >5)))".toList⟩ ∧
      ∃ after e, parse (String.ofList ("(&(name=a*)(!(& ".toList ++ after)) = .ok e := by
  have h : parse doubtful =
      .error ⟨doubtful, .noOperator ">5)))".toList "& >5)))".toList⟩ := by cbv
  obtain ⟨-, rest, entry, entries, htrail, before, htext, hviable⟩ := viable_of_parse_eq_error h
  obtain rfl : ">5)))".toList = rest := congrArg Prod.fst (List.cons.inj htrail).1
  have hsame : "(&(name=a*)(!(& ".toList ++ ">5)))".toList = before ++ ">5)))".toList := by
    rw [← htext]
    rfl
  have hbefore := List.append_cancel_right hsame
  rw [hbefore]
  exact ⟨h, hviable⟩

end StartOrder.Filter
