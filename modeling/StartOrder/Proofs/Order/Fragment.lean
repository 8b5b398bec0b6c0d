import StartOrder.Proofs.Order.Precedence

/-!
# Fragments keep their place behind providers and before requirers

A fragment is moved immediately before the first module of the order that is a host for it. When
the fragment already comes behind some host, it is moved forward, or stays, and comes before
everything that it came before. Other modules are not moved. So each step of the promotion may
only disturb what the fragment itself requires, and that does not count any more once the
fragment has been promoted.

## Main definitions

* `Fragment.Ahead R A promoted order`: providers in `A` come before what requires them by `R`,
  promoted fragments left aside
* `Fragment.Hosted g R A f`: a fragment in `A` requires a host in `A`
* `Fragment.Plain g id`: the module at a place is no fragment
* `Fragment.Undisturbed g order order'`: modules that are no fragments follow each other as before

## Main results

* `Fragment.of_fragments`: fragments are modules of the order with one requirement for a host
* `Fragment.firstHost_of_isHost`: the first host comes no later than any other
* `Fragment.Ahead.promote`, `Fragment.Ahead.foldlM_promote`: what promoting one fragment, and
  several, keeps
* `Fragment.undisturbed_promote`, `Fragment.undisturbed_foldlM_promote`,
  `Fragment.promoteAll_spec`: promotion only changes where fragments stand
-/

namespace StartOrder.Fragment

variable {g : Graph} {R : ModuleId → ModuleId → Prop} {A : ModuleId → Prop}
  {order order' promoted : List ModuleId} {f : ModuleId × Requirement}
  {fs : List (ModuleId × Requirement)}

/-! ## The fragments of an order -/

theorem asFragment_ok {id : ModuleId} (h : asFragment g id = .ok fs) :
    fs = [] ∨ ∃ m r, g.get? id = some m ∧ m.hostRequirements = [r] ∧ fs = [(id, r)] := by
  unfold asFragment at h
  split at h
  · exact .inl (Except.ok.inj h).symm
  · next m hm =>
    unfold hostRequirement at h
    split at h
    · exact .inl (Except.ok.inj h).symm
    · next r hrs =>
      obtain rfl := Except.ok.inj h
      exact .inr ⟨m, r, hm, hrs, rfl⟩
    · cases h

theorem fragments_cons {id : ModuleId} (h : fragments g (id :: order) = .ok fs) :
    ∃ new rest, asFragment g id = .ok new ∧ fragments g order = .ok rest ∧ fs = new ++ rest := by
  obtain ⟨all, hall, rfl⟩ := map_eq_ok_iff.1 h
  rw [List.mapM_cons] at hall
  obtain ⟨new, hnew, hall⟩ := bind_eq_ok_iff.1 hall
  obtain ⟨rest, hrest, hall⟩ := bind_eq_ok_iff.1 hall
  obtain rfl := Except.ok.inj hall
  exact ⟨new, rest.flatten, hnew, map_eq_ok_iff.2 ⟨rest, hrest, rfl⟩, rfl⟩

/-- Fragments come in the order in which they stand, each with its one requirement for a host. -/
theorem of_fragments (h : fragments g order = .ok fs) :
    (fs.map Prod.fst).Sublist order ∧
      ∀ f ∈ fs, ∃ m, g.get? f.1 = some m ∧ m.hostRequirements = [f.2] := by
  induction order generalizing fs with
  | nil =>
    obtain rfl := Except.ok.inj h
    exact ⟨List.Sublist.refl _, by simp⟩
  | cons id order ih =>
    obtain ⟨new, rest, hnew, hrest, rfl⟩ := fragments_cons h
    obtain ⟨hsub, hof⟩ := ih hrest
    rcases asFragment_ok hnew with rfl | ⟨m, r, hm, hrs, rfl⟩
    · exact ⟨hsub.cons id, hof⟩
    · refine ⟨hsub.cons_cons id, ?_⟩
      intro f hf
      rcases List.mem_cons.1 hf with rfl | hf
      · exact ⟨m, hm, hrs⟩
      · exact hof f hf

/-! ## The first host -/

/-- A module with a capability for hosts that the filter of a requirement accepts is a host. -/
theorem isHost_of_accepted {n : Module} {r : Requirement} {test : Attributes → Bool}
    {c : Capability} (hfilter : r.filter?.isSome = true) (htest : r.predicate = .ok test)
    (hc : c ∈ n.capabilities) (hns : c.ns = Vocabulary.host)
    (hattributes : test c.attributes = true) : isHost n r = .ok true := by
  have hmem : c ∈ n.capabilitiesIn Vocabulary.host := List.mem_filter.2 ⟨hc, by simp [hns]⟩
  have hany : (n.capabilitiesIn Vocabulary.host).any (test ·.attributes) = true :=
    List.any_eq_true.2 ⟨c, hmem, hattributes⟩
  have hne : (n.capabilitiesIn Vocabulary.host).isEmpty = false := by
    rw [List.isEmpty_eq_false_iff]
    exact List.ne_nil_of_mem hmem
  simp [isHost, hfilter, hne, htest, Except.map, hany]

/-- A host that is found is in the order and is not the fragment itself. -/
theorem of_firstHost {fragment host : ModuleId} {r : Requirement}
    (h : firstHost g fragment r order = .ok (some host)) : host ∈ order ∧ host ≠ fragment := by
  induction order with
  | nil => cases h
  | cons id order ih =>
    unfold firstHost at h
    split at h
    · exact (ih h).imp_left (List.mem_cons_of_mem _)
    · next hne =>
      split at h
      · exact (ih h).imp_left (List.mem_cons_of_mem _)
      · next m hm =>
        obtain ⟨b, -, h⟩ := bind_eq_ok_iff.1 h
        cases b with
        | true =>
          obtain rfl := Option.some.inj (Except.ok.inj h)
          exact ⟨List.mem_cons_self, hne⟩
        | false => exact (ih h).imp_left (List.mem_cons_of_mem _)

/-- When there is a host, one is found that does not come behind it. -/
theorem firstHost_of_isHost {fragment q : ModuleId} {r : Requirement} {n : Module}
    {found : Option ModuleId} (hq : q ∈ order) (hne : q ≠ fragment) (hn : g.get? q = some n)
    (hhost : isHost n r = .ok true) (h : firstHost g fragment r order = .ok found) :
    ∃ host, found = some host ∧ (host = q ∨ Precedes order host q) := by
  induction order with
  | nil => cases hq
  | cons id order ih =>
    have later (h : firstHost g fragment r order = .ok found) (hq : q ∈ order) :
        ∃ host, found = some host ∧ (host = q ∨ Precedes (id :: order) host q) := by
      obtain ⟨host, hfound, hle⟩ := ih hq h
      exact ⟨host, hfound, hle.imp_right fun hpre => precedes_cons.2 (.inr hpre)⟩
    unfold firstHost at h
    split at h
    · next hid =>
      exact later h ((List.mem_cons.1 hq).resolve_left fun hqid => hne (hqid.trans hid))
    · split at h
      · next hnone =>
        refine later h ((List.mem_cons.1 hq).resolve_left ?_)
        rintro rfl
        simp [hn] at hnone
      · next m hm =>
        obtain ⟨b, hb, h⟩ := bind_eq_ok_iff.1 h
        cases b with
        | true =>
          obtain rfl := Except.ok.inj h
          refine ⟨id, rfl, ?_⟩
          exact (List.mem_cons.1 hq).imp Eq.symm fun hq => precedes_cons.2 (.inl ⟨rfl, hq⟩)
        | false =>
          refine later h ((List.mem_cons.1 hq).resolve_left ?_)
          rintro rfl
          obtain rfl := Option.some.inj (hm.symm.trans hn)
          simp [hb] at hhost

/-! ## Promotion -/

/-- Every provider in `A` comes before what requires it by `R`, unless that is a fragment which
has been promoted. -/
structure Ahead (R : ModuleId → ModuleId → Prop) (A : ModuleId → Prop)
    (promoted order : List ModuleId) : Prop where
  nodup : order.Nodup
  first : ∀ x y, A x → R y x → y ∉ promoted → Precedes order x y

/-- A fragment that is among the providers requires a host that is among them too. -/
def Hosted (g : Graph) (R : ModuleId → ModuleId → Prop) (A : ModuleId → Prop)
    (f : ModuleId × Requirement) : Prop :=
  A f.1 → ∃ q n, A q ∧ R f.1 q ∧ g.get? q = some n ∧ isHost n f.2 = .ok true

theorem promote_ok (h : promote g order f = .ok order') :
    ∃ found, firstHost g f.1 f.2 order = .ok found ∧
      (found = none ∧ order' = order ∨
        ∃ host, found = some host ∧ order' = moveTo f.1 host order) := by
  unfold promote at h
  split at h
  · cases h
  · next hnone =>
    obtain rfl := Except.ok.inj h
    exact ⟨none, hnone, .inl ⟨rfl, rfl⟩⟩
  · next host hhost =>
    obtain rfl := Except.ok.inj h
    exact ⟨some host, hhost, .inr ⟨host, rfl, rfl⟩⟩

/-- **Promoting one fragment** keeps all providers ahead, and does not add or lose a module. -/
theorem Ahead.promote (h : Ahead R A promoted order) (hf : f.1 ∈ order) (hnew : f.1 ∉ promoted)
    (hhosted : Hosted g R A f) (hp : promote g order f = .ok order') :
    Ahead R A (f.1 :: promoted) order' ∧ ∀ z, z ∈ order' ↔ z ∈ order := by
  obtain ⟨found, hfound, ⟨rfl, rfl⟩ | ⟨host, rfl, rfl⟩⟩ := promote_ok hp
  · refine ⟨⟨h.nodup, fun x y hx hxy hy => ?_⟩, fun _ => Iff.rfl⟩
    exact h.first x y hx hxy fun hmem => hy (List.mem_cons_of_mem _ hmem)
  · obtain ⟨hmem, hne⟩ := of_firstHost hfound
    have hput := putBefore_moveTo hne.symm hf hmem
    refine ⟨⟨hput.nodup h.nodup, fun x y hx hxy hy => ?_⟩, fun z => ?_⟩
    · obtain ⟨hyf, hy⟩ := not_or.1 (mt List.mem_cons.2 hy)
      have hxy' := h.first x y hx hxy hy
      by_cases hxf : x = f.1
      · subst hxf
        obtain ⟨q, n, hq, hfq, hn, hhost⟩ := hhosted hx
        have hqf := h.first q f.1 hq hfq hnew
        obtain ⟨host', hsome, hle⟩ :=
          firstHost_of_isHost hqf.mem_left (hqf.ne h.nodup) hn hhost hfound
        obtain rfl := Option.some.inj hsome
        -- The host that is found comes no later than the one that is required.
        have hhostf : Precedes order host f.1 := by
          rcases hle with rfl | hle
          · exact hqf
          · exact hle.trans h.nodup hqf
        exact hput.precedes_forward h.nodup hhostf hxy'
      · exact (hput.precedes_iff hxf hyf).2 hxy'
    · rw [hput.mem_iff]
      exact or_iff_right_of_imp fun hz => hz ▸ hf

/-- **Promoting fragments** one after the other keeps all providers ahead. -/
theorem Ahead.foldlM_promote (h : Ahead R A promoted order) (hfs : ∀ f ∈ fs, f.1 ∈ order)
    (hnodup : (fs.map Prod.fst).Nodup) (hnew : ∀ f ∈ fs, f.1 ∉ promoted)
    (hhosted : ∀ f ∈ fs, Hosted g R A f)
    (hp : fs.foldlM (Fragment.promote g) order = .ok order') :
    Ahead R A ((fs.map Prod.fst).reverse ++ promoted) order' := by
  induction fs generalizing order promoted with
  | nil =>
    obtain rfl := Except.ok.inj hp
    exact h
  | cons f fs ih =>
    rw [List.foldlM_cons] at hp
    obtain ⟨order₁, hstep, hp⟩ := bind_eq_ok_iff.1 hp
    rw [List.map_cons, List.nodup_cons] at hnodup
    obtain ⟨hahead, hmem⟩ := h.promote (hfs f List.mem_cons_self) (hnew f List.mem_cons_self)
      (hhosted f List.mem_cons_self) hstep
    have hrest := ih hahead (fun f' hf' => (hmem _).2 (hfs f' (List.mem_cons_of_mem _ hf')))
      hnodup.2 ?_ (fun f' hf' => hhosted f' (List.mem_cons_of_mem _ hf')) hp
    · simpa using hrest
    · intro f' hf' hpromoted
      rcases List.mem_cons.1 hpromoted with heq | hpromoted
      · exact hnodup.1 (heq ▸ List.mem_map_of_mem hf')
      · exact hnew f' (List.mem_cons_of_mem _ hf') hpromoted

/-- What requires a provider and is no fragment comes behind it when all fragments have been
promoted. -/
theorem precedes_of_promoteAll (h : Ahead R A [] order)
    (hhosted : ∀ id n r, g.get? id = some n → n.hostRequirements = [r] → Hosted g R A (id, r))
    (hp : promoteAll g order = .ok order') {x y : ModuleId} {m : Module} (hm : g.get? y = some m)
    (hplain : m.hostRequirements = []) (hx : A x) (hxy : R y x) :
    order'.Nodup ∧ Precedes order' x y := by
  obtain ⟨fs, hfs, hp⟩ := bind_eq_ok_iff.1 hp
  obtain ⟨hsub, hof⟩ := of_fragments hfs
  have hahead := h.foldlM_promote (fun f hf => hsub.subset (List.mem_map_of_mem hf))
    (hsub.nodup h.nodup) (by simp) (fun f hf => ?_) hp
  · refine ⟨hahead.nodup, hahead.first x y hx hxy ?_⟩
    intro hmem
    obtain ⟨f, hf, rfl⟩ : ∃ f ∈ fs, f.1 = y := by simpa using hmem
    obtain ⟨n, hn, hrs⟩ := hof f hf
    obtain rfl := Option.some.inj (hm.symm.trans hn)
    simp [hplain] at hrs
  · obtain ⟨n, hn, hrs⟩ := hof f hf
    exact hhosted f.1 n f.2 hn hrs

/-! ## What promotion leaves alone -/

/-- The module at a place requires no host. -/
def Plain (g : Graph) (id : ModuleId) : Prop :=
  ∀ n, g.get? id = some n → n.hostRequirements = []

/-- What is promoted is not plain. -/
theorem not_plain_of_fragments (h : fragments g order = .ok fs) : ∀ f ∈ fs, ¬ Plain g f.1 := by
  intro f hf hplain
  obtain ⟨n, hn, hrs⟩ := (of_fragments h).2 f hf
  rw [hplain n hn] at hrs
  cases hrs

/-- No module is lost or put in twice, and modules that require no host follow each other as
before. -/
structure Undisturbed (g : Graph) (order order' : List ModuleId) : Prop where
  perm : order'.Perm order
  precedes_iff : ∀ x y, Plain g x → Plain g y → (Precedes order' x y ↔ Precedes order x y)

namespace Undisturbed

theorem refl : Undisturbed g order order :=
  ⟨List.Perm.refl _, fun _ _ _ _ => Iff.rfl⟩

theorem trans {order₁ : List ModuleId} (h : Undisturbed g order order₁)
    (h' : Undisturbed g order₁ order') : Undisturbed g order order' where
  perm := h'.perm.trans h.perm
  precedes_iff := fun x y hx hy => (h'.precedes_iff x y hx hy).trans (h.precedes_iff x y hx hy)

end Undisturbed

/-- Promoting a fragment leaves the order alone or moves the one fragment. -/
theorem putBefore_promote (hf : f.1 ∈ order) (h : promote g order f = .ok order') :
    order' = order ∨ ∃ host, PutBefore order f.1 host order' := by
  obtain ⟨found, hfound, ⟨-, rfl⟩ | ⟨host, rfl, rfl⟩⟩ := promote_ok h
  · exact .inl rfl
  · obtain ⟨hmem, hne⟩ := of_firstHost hfound
    exact .inr ⟨host, putBefore_moveTo hne.symm hf hmem⟩

/-- **Promoting one fragment** only changes where that fragment stands. -/
theorem undisturbed_promote (hf : f.1 ∈ order) (hfragment : ¬ Plain g f.1)
    (h : promote g order f = .ok order') : Undisturbed g order order' := by
  rcases putBefore_promote hf h with rfl | ⟨host, hput⟩
  · exact .refl
  · have hne {x : ModuleId} (hx : Plain g x) : x ≠ f.1 := fun heq => hfragment (heq ▸ hx)
    exact ⟨hput.perm hf, fun x y hx hy => hput.precedes_iff (hne hx) (hne hy)⟩

/-- **Promoting fragments** one after the other only changes where the fragments stand. -/
theorem undisturbed_foldlM_promote (hfs : ∀ f ∈ fs, f.1 ∈ order ∧ ¬ Plain g f.1)
    (h : fs.foldlM (Fragment.promote g) order = .ok order') : Undisturbed g order order' := by
  induction fs generalizing order with
  | nil =>
    obtain rfl := Except.ok.inj h
    exact .refl
  | cons f fs ih =>
    rw [List.foldlM_cons] at h
    obtain ⟨order₁, hstep, h⟩ := bind_eq_ok_iff.1 h
    obtain ⟨⟨hf, hfragment⟩, hfs⟩ := List.forall_mem_cons.1 hfs
    have hone := undisturbed_promote hf hfragment hstep
    exact hone.trans (ih (fun f' hf' => (hfs f' hf').imp_left hone.perm.mem_iff.2) h)

/-- **Promotion only changes where fragments stand.** No module is lost or put in twice, and
modules that require no host follow each other as before. -/
theorem promoteAll_spec (h : promoteAll g order = .ok order') : Undisturbed g order order' := by
  obtain ⟨fs, hfs, h⟩ := bind_eq_ok_iff.1 h
  obtain ⟨hsub, -⟩ := of_fragments hfs
  refine undisturbed_foldlM_promote (fun f hf => ⟨?_, not_plain_of_fragments hfs f hf⟩) h
  exact hsub.subset (List.mem_map_of_mem hf)

end StartOrder.Fragment
