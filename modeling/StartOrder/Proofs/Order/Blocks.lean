import StartOrder.Proofs.Order.Leaves

/-!
# Fragments stand in blocks before their hosts

Fragments are promoted one after the other, each in the order that promoting those before it has
left. A fragment is put immediately before the first module that is taken for its host, and a
fragment that is promoted later may be put between the two.

That one has the same host. Otherwise its own host, immediately before which it is put, would be
between the two as well, where there are only fragments. So it matters that no fragment is taken
for a host. Then hosts are not moved either, and the first host of a fragment stays the first.

## Main definitions

* `Fragment.Accepts g r id`: promotion takes a module for a host
* `Fragment.FirstAccepted g r order h`: of these modules `h` is the first
* `Fragment.Seeks g f r`: a fragment at a place requires its host by `r`
* `Fragment.HostsPlain g`: what is taken for the host of a fragment is no fragment itself
* `Fragment.Inert g`: fragments offer nothing for which they would be taken for hosts
* `Fragment.Docked g order f h`: from `f` to `h` there are only fragments with `h` as their host
* `Fragment.Blocks g promoted order`: promoted fragments are docked at their first hosts

## Main results

* `Fragment.FirstAccepted.of_undisturbed`: the first host of a fragment stays the first
* `Fragment.promote_cases`: what promoting a fragment comes to
* `Fragment.Docked.promote`: promoting another fragment keeps a fragment docked
* `Fragment.Blocks.promote`, `Fragment.Blocks.foldlM_promote`: what promoting one fragment, and
  several, comes to
* `Fragment.exists_docked_of_promoteAll`: where the fragments are when all have been promoted
* `Orderer.docked_of_order`: the blocks of a start order
-/

namespace StartOrder

/-- Fragments are the modules with requirements for hosts. -/
theorem Module.isFragment_iff {m : Module} : m.isFragment = true ↔ m.hostRequirements ≠ [] := by
  rw [isFragment, hostRequirements, requirementsIn, Ne, List.filter_eq_nil_iff]
  simp

theorem Module.hostRequirements_unowned (m : Module) :
    m.unowned.hostRequirements = m.hostRequirements.map Requirement.unowned := by
  simp [hostRequirements, requirementsIn, unowned, List.filter_map, Function.comp_def,
    Requirement.unowned]

theorem Module.isFragment_ownedBy (m : Module) (id : ModuleId) :
    (m.ownedBy id).isFragment = m.isFragment := by
  simp [isFragment, ownedBy, Function.comp_def, Requirement.ownedBy]

namespace Fragment

variable {g : Graph} {order order' : List ModuleId} {promoted fs : List (ModuleId × Requirement)}
  {f' : ModuleId × Requirement} {f h q id : ModuleId} {r : Requirement} {n : Module}

/-! ## Modules that promotion takes for hosts -/

/-- Promotion takes the module at a place for a host. -/
def Accepts (g : Graph) (r : Requirement) (id : ModuleId) : Prop :=
  ∃ n, g.get? id = some n ∧ isHost n r = .ok true

/-- No fragment offers a capability for which it could be taken for a host. -/
def Inert (g : Graph) : Prop :=
  ∀ id n, g.get? id = some n → n.isFragment = true → ∀ c ∈ n.capabilities,
    c.ns ≠ Vocabulary.host ∧ c.ns ≠ Vocabulary.bundle

/-- A module is taken for a host because of a capability for hosts, or of one that names it. -/
theorem exists_capability_of_isHost (h : isHost n r = .ok true) :
    ∃ c ∈ n.capabilities, c.ns = Vocabulary.host ∨ c.ns = Vocabulary.bundle := by
  have named (h : isNamed n r = true) : ∃ c ∈ n.capabilities, c.ns = Vocabulary.bundle := by
    unfold isNamed at h
    obtain ⟨_, hany⟩ := (Option.any_eq_true_iff_get _ _).1 h
    obtain ⟨c, hc, -⟩ := List.any_eq_true.1 hany
    obtain ⟨hmem, hns⟩ := List.mem_filter.1 hc
    exact ⟨c, hmem, eq_of_beq hns⟩
  unfold isHost at h
  dsimp only at h
  split at h
  · obtain ⟨test, -, h⟩ := map_eq_ok_iff.1 h
    rcases Bool.or_eq_true_iff.1 h with hany | hnamed
    · obtain ⟨c, hc, -⟩ := List.any_eq_true.1 hany
      obtain ⟨hmem, hns⟩ := List.mem_filter.1 hc
      exact ⟨c, hmem, .inl (eq_of_beq hns)⟩
    · obtain ⟨c, hc, hns⟩ := named hnamed
      exact ⟨c, hc, .inr hns⟩
  · obtain ⟨c, hc, hns⟩ := named (Except.ok.inj h)
    exact ⟨c, hc, .inr hns⟩

/-- What is taken for a host does not depend on the owner of the requirement. -/
theorem accepts_congr {r' : Requirement} (h : r'.unowned = r.unowned) :
    Accepts g r' = Accepts g r := by
  have hunowned (r : Requirement) : Accepts g r = Accepts g r.unowned := rfl
  rw [hunowned r', h, ← hunowned r]

/-- What promotion takes for a host is no fragment. -/
theorem Accepts.plain (hg : Inert g) (h : Accepts g r id) : Plain g id := by
  obtain ⟨n, hn, hhost⟩ := h
  obtain ⟨c, hc, hns⟩ := exists_capability_of_isHost hhost
  intro n' hn'
  obtain rfl := Option.some.inj (hn.symm.trans hn')
  by_contra hne
  obtain ⟨hnothost, hnotbundle⟩ := hg id n hn (Module.isFragment_iff.2 hne) c hc
  exact hns.elim hnothost hnotbundle

/-- A fragment at a place requires its host by `r`. -/
def Seeks (g : Graph) (f : ModuleId) (r : Requirement) : Prop :=
  ∃ n, g.get? f = some n ∧ n.hostRequirements = [r]

theorem Seeks.not_plain (h : Seeks g f r) : ¬ Plain g f := by
  obtain ⟨n, hn, hr⟩ := h
  intro hplain
  rw [hplain n hn] at hr
  cases hr

/-- What is taken for the host of a fragment is no fragment itself. -/
def HostsPlain (g : Graph) : Prop :=
  ∀ f r q, Seeks g f r → Accepts g r q → Plain g q

theorem Inert.hostsPlain (hg : Inert g) : HostsPlain g :=
  fun _ _ _ _ hacc => hacc.plain hg

/-- Each fragment of an order is promoted, with its one requirement for a host. -/
theorem mem_fragments (h : fragments g order = .ok fs) (hf : f ∈ order)
    (hn : g.get? f = some n) (hr : r ∈ n.hostRequirements) : (f, r) ∈ fs := by
  induction order generalizing fs with
  | nil => cases hf
  | cons id order ih =>
    obtain ⟨new, rest, hnew, hrest, rfl⟩ := fragments_cons h
    rcases List.mem_cons.1 hf with rfl | hf
    · refine List.mem_append_left _ ?_
      rcases asFragment_ok hnew with rfl | ⟨m, r', hm, hrs, rfl⟩
      · unfold asFragment hostRequirement at hnew
        rw [hn] at hnew
        cases hrs : n.hostRequirements with
        | nil => simp [hrs] at hr
        | cons r' rs => cases rs <;> simp [hrs, Except.map] at hnew
      · obtain rfl := Option.some.inj (hn.symm.trans hm)
        rw [hrs, List.mem_singleton] at hr
        rw [hr]
        exact List.mem_singleton_self _
    · exact List.mem_append_right _ (ih hrest hf)

/-! ## The first host -/

/-- Of all modules that promotion takes for a host, `h` is the first of the order. -/
structure FirstAccepted (g : Graph) (r : Requirement) (order : List ModuleId) (h : ModuleId) :
    Prop where
  mem : h ∈ order
  accepts : Accepts g r h
  first : ∀ x, Precedes order x h → ¬ Accepts g r x

namespace FirstAccepted

theorem eq_or_precedes (hh : FirstAccepted g r order h) (hq : q ∈ order) (hacc : Accepts g r q) :
    h = q ∨ Precedes order h q := by
  rcases precedes_total hh.mem hq with heq | hlt | hgt
  · exact .inl heq
  · exact .inr hlt
  · exact absurd hacc (hh.first q hgt)

/-- The first host stays the first while only fragments are moved, if no fragment is taken for
one. -/
theorem of_undisturbed (hh : FirstAccepted g r order h) (hu : Undisturbed g order order')
    (hplain : ∀ q, Accepts g r q → Plain g q) : FirstAccepted g r order' h where
  mem := hu.perm.mem_iff.2 hh.mem
  accepts := hh.accepts
  first := fun x hxh hacc =>
    hh.first x ((hu.precedes_iff x h (hplain x hacc) (hplain h hh.accepts)).1 hxh) hacc

end FirstAccepted

/-- The host that promotion finds is the first, if the fragment is none itself. -/
theorem firstAccepted_of_firstHost (ho : order.Nodup) (hf : ¬ Accepts g r f)
    (hfound : firstHost g f r order = .ok (some h)) : FirstAccepted g r order h := by
  induction order with
  | nil => cases hfound
  | cons id order ih =>
    obtain ⟨hid, ho⟩ := List.nodup_cons.1 ho
    have pass (hnone : ¬ Accepts g r id) (hfound : firstHost g f r order = .ok (some h)) :
        FirstAccepted g r (id :: order) h := by
      obtain ⟨hmem, hacc, hfirst⟩ := ih ho hfound
      refine ⟨List.mem_cons_of_mem _ hmem, hacc, fun x hx => ?_⟩
      rcases precedes_cons.1 hx with ⟨rfl, -⟩ | hx
      · exact hnone
      · exact hfirst x hx
    unfold firstHost at hfound
    split at hfound
    · next heq => exact pass (heq ▸ hf) hfound
    · split at hfound
      · next hnone =>
        refine pass ?_ hfound
        rintro ⟨n, hn, -⟩
        rw [hnone] at hn
        cases hn
      · next n hn =>
        obtain ⟨b, hb, hfound⟩ := bind_eq_ok_iff.1 hfound
        cases b with
        | true =>
          obtain rfl := Option.some.inj (Except.ok.inj hfound)
          refine ⟨List.mem_cons_self, ⟨n, hn, hb⟩, fun x hx => ?_⟩
          rcases precedes_cons.1 hx with ⟨-, hmem⟩ | hx
          · exact absurd hmem hid
          · exact absurd hx.mem_right hid
        | false =>
          refine pass ?_ hfound
          rintro ⟨n', hn', hhost⟩
          obtain rfl := Option.some.inj (hn.symm.trans hn')
          rw [hb] at hhost
          cases hhost

/-- **What promoting a fragment comes to.** It is put before the first module of the order that is
taken for its host, and nothing happens when there is none. -/
theorem promote_cases (ho : order.Nodup) (hf : f ∈ order) (hfnot : ¬ Accepts g r f)
    (hp : promote g order (f, r) = .ok order') :
    (order' = order ∧ ∀ q ∈ order, ¬ Accepts g r q) ∨
      ∃ h, FirstAccepted g r order h ∧ PutBefore order f h order' := by
  obtain ⟨found, hfound, ⟨rfl, rfl⟩ | ⟨host, rfl, rfl⟩⟩ := promote_ok hp
  · refine .inl ⟨rfl, ?_⟩
    rintro q hq ⟨n, hn, hhost⟩
    have hqf : q ≠ f := fun heq => hfnot (heq ▸ ⟨n, hn, hhost⟩)
    obtain ⟨host, hsome, -⟩ := firstHost_of_isHost hq hqf hn hhost hfound
    cases hsome
  · have hfirst : FirstAccepted g r order host := firstAccepted_of_firstHost ho hfnot hfound
    exact .inr ⟨host, hfirst, putBefore_moveTo (of_firstHost hfound).2.symm hf hfirst.mem⟩

/-! ## Fragments docked at a host -/

/-- The fragment `f` comes before `h`, and between the two there are only fragments of which `h` is
the first host. -/
structure Docked (g : Graph) (order : List ModuleId) (f h : ModuleId) : Prop where
  behind : Precedes order f h
  between : ∀ x, Precedes order f x → Precedes order x h →
    ∃ r, Seeks g x r ∧ FirstAccepted g r order h

namespace Docked

theorem of_putBefore (ho : order.Nodup) (hput : PutBefore order f h order') :
    Docked g order' f h where
  behind := hput.precedes_target
  between := fun _ hfx hxh => absurd hxh (hput.not_between ho hfx)

/-- What is put between a docked fragment and its host is put before this host. -/
theorem eq_of_putBefore {x : ModuleId} (hd : Docked g order f h) (ho : order.Nodup)
    (hput : PutBefore order x q order') (hx : ¬ Plain g x) (hf : f ≠ x) (hh : Plain g h)
    (hq : q ∈ order) (hplain : Plain g q) (hfx : Precedes order' f x)
    (hxh : Precedes order' x h) : q = h := by
  have hne {y : ModuleId} (hy : Plain g y) : y ≠ x := fun heq => hx (heq ▸ hy)
  rcases precedes_total (hput.mem_iff.2 (.inr hq)) hxh.mem_right with heq | hlt | hgt
  · exact heq
  · -- Otherwise it would be between the two, where only fragments are.
    have hfq := hfx.trans (hput.nodup ho) hput.precedes_target
    obtain ⟨_, hseeks, -⟩ := hd.between q ((hput.precedes_iff hf (hne hplain)).1 hfq)
      ((hput.precedes_iff (hne hplain) (hne hh)).1 hlt)
    exact absurd hplain hseeks.not_plain
  · exact absurd hgt (hput.not_between ho hxh)

/-- **Promoting another fragment** puts it between a docked fragment and its host only if it has
the same host. -/
theorem promote (hd : Docked g order f h) (hg : HostsPlain g) (ho : order.Nodup) (hh : Plain g h)
    (hf' : f'.1 ∈ order) (hne : f ≠ f'.1) (hseeks : Seeks g f'.1 f'.2)
    (hp : promote g order f' = .ok order') : Docked g order' f h := by
  have hfragment : ¬ Plain g f'.1 := hseeks.not_plain
  have hu := undisturbed_promote hf' hfragment hp
  rcases promote_cases ho hf' (fun hacc => hfragment (hg _ _ _ hseeks hacc)) hp with
    ⟨rfl, -⟩ | ⟨host, hfirst, hput⟩
  · exact hd
  have hhne : h ≠ f'.1 := fun heq => hfragment (heq ▸ hh)
  refine ⟨(hput.precedes_iff hne hhne).2 hd.behind, fun x hfx hxh => ?_⟩
  by_cases hx : x = f'.1
  · subst hx
    have hhost : Plain g host := hg _ _ _ hseeks hfirst.accepts
    obtain rfl : host = h := hd.eq_of_putBefore ho hput hfragment hne hh hfirst.mem hhost hfx hxh
    exact ⟨f'.2, hseeks, hfirst.of_undisturbed hu fun q => hg _ _ q hseeks⟩
  · obtain ⟨r, hr, hfirst'⟩ := hd.between x ((hput.precedes_iff hne hx).1 hfx)
      ((hput.precedes_iff hx hhne).1 hxh)
    exact ⟨r, hr, hfirst'.of_undisturbed hu fun q => hg _ _ q hr⟩

end Docked

/-! ## Blocks -/

/-- Fragments that have been promoted are docked at the first modules that are taken for their
hosts, when there are any. -/
structure Blocks (g : Graph) (promoted : List (ModuleId × Requirement)) (order : List ModuleId) :
    Prop where
  nodup : order.Nodup
  seeks : ∀ f ∈ promoted, Seeks g f.1 f.2
  docked : ∀ f ∈ promoted, ∀ q ∈ order, Accepts g f.2 q →
    ∃ h, FirstAccepted g f.2 order h ∧ Docked g order f.1 h

namespace Blocks

theorem nil (ho : order.Nodup) : Blocks g [] order :=
  ⟨ho, List.forall_mem_nil _, List.forall_mem_nil _⟩

/-- **Promoting one fragment** keeps all blocks and adds the fragment to one, or begins one. -/
theorem promote (hb : Blocks g promoted order) (hg : HostsPlain g) (hf' : f'.1 ∈ order)
    (hseeks : Seeks g f'.1 f'.2) (hnew : f'.1 ∉ promoted.map Prod.fst)
    (hp : promote g order f' = .ok order') : Blocks g (f' :: promoted) order' := by
  have hu := undisturbed_promote hf' hseeks.not_plain hp
  refine ⟨hu.perm.nodup_iff.2 hb.nodup, List.forall_mem_cons.2 ⟨hseeks, hb.seeks⟩, ?_⟩
  intro f hf q hq hacc
  have hq := hu.perm.mem_iff.1 hq
  rcases List.mem_cons.1 hf with rfl | hf
  · have hfnot : ¬ Accepts g f.2 f.1 := fun h => hseeks.not_plain (hg _ _ _ hseeks h)
    rcases promote_cases hb.nodup hf' hfnot hp with ⟨-, hnone⟩ | ⟨h, hfirst, hput⟩
    · exact absurd hacc (hnone q hq)
    · exact ⟨h, hfirst.of_undisturbed hu fun q => hg _ _ q hseeks, .of_putBefore hb.nodup hput⟩
  · have hfseeks := hb.seeks f hf
    have hne : f.1 ≠ f'.1 := fun heq => hnew (heq ▸ List.mem_map_of_mem hf)
    obtain ⟨h, hfirst, hdocked⟩ := hb.docked f hf q hq hacc
    exact ⟨h, hfirst.of_undisturbed hu fun q => hg _ _ q hfseeks,
      hdocked.promote hg hb.nodup (hg _ _ _ hfseeks hfirst.accepts) hf' hne hseeks hp⟩

/-- **Promoting fragments** one after the other puts each of them into the block of its host. -/
theorem foldlM_promote (hb : Blocks g promoted order) (hg : HostsPlain g)
    (hfs : ∀ f ∈ fs, f.1 ∈ order ∧ Seeks g f.1 f.2) (hnodup : (fs.map Prod.fst).Nodup)
    (hnew : ∀ f ∈ fs, f.1 ∉ promoted.map Prod.fst)
    (hp : fs.foldlM (Fragment.promote g) order = .ok order') :
    Blocks g (fs.reverse ++ promoted) order' := by
  induction fs generalizing order promoted with
  | nil =>
    obtain rfl := Except.ok.inj hp
    exact hb
  | cons f fs ih =>
    rw [List.foldlM_cons] at hp
    obtain ⟨order₁, hstep, hp⟩ := bind_eq_ok_iff.1 hp
    rw [List.map_cons, List.nodup_cons] at hnodup
    obtain ⟨⟨hf, hseeks⟩, hfs⟩ := List.forall_mem_cons.1 hfs
    obtain ⟨hfnew, hnew⟩ := List.forall_mem_cons.1 hnew
    have hperm := (undisturbed_promote hf hseeks.not_plain hstep).perm
    have hrest := ih (hb.promote hg hf hseeks hfnew hstep)
      (fun f' hf' => (hfs f' hf').imp_left hperm.mem_iff.2) hnodup.2 ?_ hp
    · simpa using hrest
    · intro f' hf' hmem
      rw [List.map_cons, List.mem_cons] at hmem
      rcases hmem with heq | hmem
      · exact hnodup.1 (heq ▸ List.mem_map_of_mem hf')
      · exact hnew f' hf' hmem

end Blocks

/-- **Where the fragments are when all have been promoted.** -/
theorem exists_docked_of_promoteAll (hg : HostsPlain g) (ho : order.Nodup)
    (hp : promoteAll g order = .ok order') (hf : f ∈ order) (hn : g.get? f = some n)
    (hr : r ∈ n.hostRequirements) (hq : q ∈ order) (hacc : Accepts g r q) :
    ∃ h, FirstAccepted g r order' h ∧ Docked g order' f h := by
  have hu := promoteAll_spec hp
  obtain ⟨fs, hfs, hp⟩ := bind_eq_ok_iff.1 hp
  obtain ⟨hsub, hof⟩ := of_fragments hfs
  have hblocks : Blocks g (fs.reverse ++ []) order' :=
    (Blocks.nil ho).foldlM_promote hg
      (fun f hf => ⟨hsub.subset (List.mem_map_of_mem hf), hof f hf⟩) (hsub.nodup ho) (by simp) hp
  have hmem : (f, r) ∈ fs.reverse ++ [] := by simpa using mem_fragments hfs hf hn hr
  exact hblocks.docked _ hmem q (hu.perm.mem_iff.2 hq) hacc

end Fragment

namespace Orderer

variable {α : Type} {o : Orderer} {entries : List (Module × α)}

/-! ## Start orders -/

/-- The graph of an ordering is inert when no fragment of it offers itself as a host. -/
theorem inert_entryPool (h : ∀ m ∈ o.framework :: o.launchApi :: entries.map Prod.fst,
    m.isFragment = true → ∀ c ∈ m.capabilities,
      c.ns ≠ Vocabulary.host ∧ c.ns ≠ Vocabulary.bundle) :
    Fragment.Inert (o.entryPool entries).graph := by
  intro id n hn hfragment c hc
  obtain ⟨m, hm, rfl⟩ := holdsOf_pool o o.launchApi entries id n hn
  rw [Module.isFragment_ownedBy] at hfragment
  obtain ⟨d, hd, rfl⟩ := List.mem_map.1 hc
  exact h m hm hfragment d hd

/-- **The blocks of a start order.** Promotion moves fragments only. When no fragment is taken for a
host, each fragment with a host comes before the first of its hosts, and all modules between the
two are fragments with this first host. -/
theorem docked_of_order [BEq α] {hs : List α} (h : o.order entries = .ok hs) :
    entries = [] ∧ hs = [] ∨ ∃ P ids, placement (o.entryPool entries) = .ok P ∧
      Fragment.promoteAll (o.entryPool entries).graph P.order = .ok ids ∧
      report (entryGraph entries).2 ids = hs ∧ ids.Perm (o.entryPool entries).graph.ids ∧
      (∀ x y, Fragment.Plain (o.entryPool entries).graph x →
        Fragment.Plain (o.entryPool entries).graph y →
          (Precedes ids x y ↔ Precedes P.order x y)) ∧
      (Fragment.HostsPlain (o.entryPool entries).graph →
        ∀ f n, (o.entryPool entries).graph.get? f = some n → ∀ r ∈ n.hostRequirements,
          ∀ q, Fragment.Accepts (o.entryPool entries).graph r q →
            ∃ host, Fragment.FirstAccepted (o.entryPool entries).graph r ids host ∧
              Fragment.Docked (o.entryPool entries).graph ids f host) := by
  rcases exists_report_of_order h with hnil | ⟨ids, hids, hperm, rfl⟩
  · exact .inl hnil
  obtain ⟨P, hP, hpromote⟩ := bind_eq_ok_iff.1 hids
  have hpermP : P.order.Perm (o.entryPool entries).graph.ids := perm_placement hP
  refine .inr ⟨P, ids, hP, hpromote, rfl, hperm,
    (Fragment.promoteAll_spec hpromote).precedes_iff, fun hplain f n hn r hr q hacc => ?_⟩
  have hq : q ∈ (o.entryPool entries).graph.ids := by
    obtain ⟨_, hq, -⟩ := hacc
    exact Wiring.mem_ids_of_get? hq
  exact Fragment.exists_docked_of_promoteAll hplain (hpermP.nodup_iff.2 Graph.nodup_ids) hpromote
    (hpermP.mem_iff.2 (Wiring.mem_ids_of_get? hn)) hn hr (hpermP.mem_iff.2 hq) hacc

/-- A module that is a host by its name. -/
def dock (name : String) : Module where
  identity := { symbolicName := name, version := .zero }
  capabilities := [{ ns := Vocabulary.host, attributes := .ofList [("name", .text name)] }]

/-- A fragment of the module with a name. -/
def addon (name host : String) : Module where
  identity := { symbolicName := name, version := .zero }
  requirements :=
    [{ ns := Vocabulary.host
       directives := .ofList [(Vocabulary.filter, "(name=" ++ host ++ ")")] }]

/-- Two addons of a shell, one of a store, and the two hosts. -/
def docks : List (Module × String) :=
  [(addon "menu" "shell", "menu"), (dock "store", "store"), (dock "shell", "shell"),
    (addon "index" "store", "index"), (addon "theme" "shell", "theme")]

/-- The menu and the theme stand in one block before the shell, although the store came between
them before. -/
theorem docked_of_order_docks :
    contractless.order docks = .ok ["menu", "theme", "shell", "index", "store"] ∧
      Fragment.HostsPlain (contractless.entryPool docks).graph ∧
      ∃ P ids, placement (contractless.entryPool docks) = .ok P ∧ P.order = [2, 0, 1, 3, 4, 5, 6] ∧
        Fragment.promoteAll (contractless.entryPool docks).graph P.order = .ok ids ∧
        ids = [0, 4, 2, 3, 1, 5, 6] ∧
        Fragment.Docked (contractless.entryPool docks).graph ids 0 2 := by
  have horder : contractless.order docks = .ok ["menu", "theme", "shell", "index", "store"] := by
    decide +kernel
  have hplain : Fragment.HostsPlain (contractless.entryPool docks).graph :=
    (inert_entryPool (by decide +kernel)).hostsPlain
  have hmenu : (contractless.entryPool docks).graph.get? 0 =
      some ((addon "menu" "shell").ownedBy 0) := by decide +kernel
  have htheme : (contractless.entryPool docks).graph.get? 4 =
      some ((addon "theme" "shell").ownedBy 4) := by decide +kernel
  have hshell : (contractless.entryPool docks).graph.get? 2 = some ((dock "shell").ownedBy 2) := by
    decide +kernel
  have hbefore : (placement (contractless.entryPool docks)).map (·.order) =
      .ok [2, 0, 1, 3, 4, 5, 6] := by decide +kernel
  have hids : moduleOrder (contractless.entryPool docks) = .ok [0, 4, 2, 3, 1, 5, 6] := by
    decide +kernel
  rcases docked_of_order horder with ⟨hnil, -⟩ | ⟨P, ids, hP, hpromote, -, -, -, hdocked⟩
  · exact absurd hnil (List.cons_ne_nil _ _)
  have hP' : P.order = [2, 0, 1, 3, 4, 5, 6] := by
    rw [hP] at hbefore
    exact Except.ok.inj hbefore
  have hsame : ids = [0, 4, 2, 3, 1, 5, 6] := by
    rw [moduleOrder, hP] at hids
    exact Except.ok.inj (hpromote.symm.trans hids)
  obtain ⟨host, hfirst, hdock⟩ := hdocked hplain 0 _ hmenu _ List.mem_cons_self 2
    ⟨_, hshell, by decide +kernel⟩
  refine ⟨horder, hplain, P, ids, hP, hP', hpromote, hsame, ?_⟩
  have hhost := hplain 0 _ host ⟨_, hmenu, rfl⟩ hfirst.accepts
  rcases hfirst.eq_or_precedes (q := 2) (by simp [hsame]) ⟨_, hshell, by decide +kernel⟩ with
    rfl | hlt
  · exact hdock
  · obtain rfl | rfl : host = 0 ∨ host = 4 := by simpa [hsame, precedes_cons] using hlt
    · exact absurd hhost (Fragment.Seeks.not_plain ⟨_, hmenu, rfl⟩)
    · exact absurd hhost (Fragment.Seeks.not_plain ⟨_, htheme, rfl⟩)

end Orderer

end StartOrder
