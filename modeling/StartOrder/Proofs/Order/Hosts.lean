import StartOrder.Proofs.Order.Blocks

/-!
# Hosts by wiring and by place

A fragment gets a host twice. When it is resolved its requirement is wired to the first candidate
by place that can be resolved. When it is promoted it is put before the first module of the order
that promotion takes for a host. Both look at the same capabilities, but the candidates stand in
the order in which the modules were put in, and the order has providers before their requirers.

So of two hosts that suit a fragment the one may be wired and the other be promoted to. What holds
in every start order is that the module behind the fragment, other fragments left aside, is the
first of all modules that promotion takes for its host, and the wired host is one of these. The
two are the same when there is no other before the wired one.

Promotion puts a fragment into a block of fragments before the first of its hosts, so the end of
the block is the module behind it.

## Main definitions

* `Fragment.NextPlain g order f h`: the first module behind `f` that is no fragment is `h`

## Main results

* `Fragment.exists_nextPlain_of_promoteAll`: what stands behind a fragment that was promoted
* `Orderer.hostedBy_unique`: a fragment is wired to one host
* `Orderer.nextPlain_of_order`: what stands behind a fragment in a start order
* `Orderer.not_nextPlain_rivals`: a fragment that is put before another host than the wired one
-/

namespace StartOrder

namespace Fragment

variable {g : Graph} {order order' : List ModuleId} {f h q : ModuleId} {r : Requirement}
  {n : Module}

/-! ## What stands behind a fragment -/

/-- The module `h` is the first one behind `f` that is no fragment. -/
structure NextPlain (g : Graph) (order : List ModuleId) (f h : ModuleId) : Prop where
  behind : Precedes order f h
  plain : Plain g h
  between : ∀ x, Precedes order f x → Precedes order x h → ¬ Plain g x

/-- Only fragments stand between a docked fragment and its host. -/
theorem Docked.nextPlain (hd : Docked g order f h) (hh : Plain g h) : NextPlain g order f h where
  behind := hd.behind
  plain := hh
  between := by
    intro x hfx hxh
    obtain ⟨_, hseeks, -⟩ := hd.between x hfx hxh
    exact hseeks.not_plain

/-- **What stands behind a fragment when all have been promoted.** The first module behind it that
is no fragment is the first one of the order that promotion takes for its host. -/
theorem exists_nextPlain_of_promoteAll (hg : Inert g) (ho : order.Nodup)
    (hp : promoteAll g order = .ok order') (hf : f ∈ order) (hn : g.get? f = some n)
    (hr : r ∈ n.hostRequirements) (hq : q ∈ order) (hacc : Accepts g r q) :
    ∃ h, NextPlain g order' f h ∧ FirstAccepted g r order' h := by
  obtain ⟨h, hfirst, hdocked⟩ := exists_docked_of_promoteAll hg.hostsPlain ho hp hf hn hr hq hacc
  exact ⟨h, hdocked.nextPlain (hfirst.accepts.plain hg), hfirst⟩

end Fragment

namespace Orderer

open Relation (TransGen)
open Wiring (Pool Wire)

variable {α : Type} {o : Orderer} {entries : List (Module × α)} {pool : Pool}
  {ids : List ModuleId} {f q q' : ModuleId} {n : Module} {r : Requirement}

/-! ## The wired host -/

/-- Among wires that satisfy requirements of which one is for a host, one is for a host. -/
theorem eq_of_follows {rs : List Requirement} {ws : List Wire} {w w' : Wire}
    (h : Wiring.Follows rs ws) (hr : rs.filter (·.ns == Vocabulary.host) = [r]) (hw : w ∈ ws)
    (hw' : w' ∈ ws) (hns : w.requirement.ns = Vocabulary.host)
    (hns' : w'.requirement.ns = Vocabulary.host) : w = w' := by
  -- There are no more wires for hosts than requirements for them.
  have hhosts := (h.1.trans List.filter_sublist).filter (·.ns == Vocabulary.host)
  rw [List.filter_map, hr] at hhosts
  have hone := hhosts.length_le
  rw [List.length_map, List.length_singleton] at hone
  have hmem {v : Wire} (hv : v ∈ ws) (hvns : v.requirement.ns = Vocabulary.host) :
      v ∈ ws.filter ((·.ns == Vocabulary.host) ∘ Wire.requirement) :=
    List.mem_filter.2 ⟨hv, beq_iff_eq.2 hvns⟩
  have hfirst := hmem hw hns
  have hsecond := hmem hw' hns'
  generalize ws.filter ((·.ns == Vocabulary.host) ∘ Wire.requirement) = hosts
    at hone hfirst hsecond
  match hosts, hone with
  | [v], _ => rw [List.mem_singleton.1 hfirst, List.mem_singleton.1 hsecond]

/-- A fragment with one requirement for a host is wired to one host, in all resolutions. -/
theorem hostedBy_unique (hn : pool.graph.get? f = some n) (hr : n.hostRequirements = [r])
    (h : HostedBy pool f q) (h' : HostedBy pool f q') : q = q' := by
  obtain ⟨w, hw, hrequirer, rfl, hns⟩ := h
  obtain ⟨w', hw', hrequirer', rfl, hns'⟩ := h'
  cases hrs : resolutions pool with
  | error e => simp [wires, hrs, Except.toOption] at hw
  | ok rs =>
    obtain ⟨res, hres, e, he, hwe⟩ := (mem_wires hrs).1 hw
    obtain ⟨res', hres', e', he', hwe'⟩ := (mem_wires hrs).1 hw'
    have hef : e.1 = f := (requirer_eq hrs hres he hwe).symm.trans hrequirer
    have hef' : e'.1 = f := (requirer_eq hrs hres' he' hwe').symm.trans hrequirer'
    have hsame : e.2 = e'.2 := wires_unique hrs (List.mem_flatten.2 ⟨res, hres, he⟩)
      (List.mem_flatten.2 ⟨res', hres', he'⟩) (hef.trans hef'.symm)
    rw [← hsame] at hwe'
    obtain ⟨id, hid⟩ := resolve_of_mem hrs hres
    obtain ⟨n', hn', hwired⟩ := Wiring.wired_core hid he
    rw [hef, hn, Option.some_inj] at hn'
    subst hn'
    rw [eq_of_follows (hwired.follows rfl) hr hwe hwe' hns hns']

/-! ## Start orders -/

/-- A fragment of the order of all modules is wired to a host which promotion would take as well,
and of all these hosts the first stands behind it. -/
theorem nextPlain_of_moduleOrder
    (howner : ∀ id n, pool.graph.get? id = some n → ∀ c ∈ n.capabilities, c.owner = some id)
    (hhosted : ∀ c ∈ pool.hosted, c.ns ≠ Vocabulary.host) (hinert : Fragment.Inert pool.graph)
    (h : moduleOrder pool = .ok ids) (hn : pool.graph.get? f = some n)
    (hr : n.hostRequirements = [r]) (heff : r.isEffective = true) (hopt : r.isOptional = false)
    (hfilter : r.filter?.isSome = true) :
    ids.Perm pool.graph.ids ∧ ∃ q, (∀ q', HostedBy pool f q' ↔ q' = q) ∧
      q ∈ ids ∧ Fragment.Accepts pool.graph r q ∧ ∃ h,
        Fragment.NextPlain pool.graph ids f h ∧ Fragment.FirstAccepted pool.graph r ids h := by
  obtain ⟨P, hP, hpromote⟩ := bind_eq_ok_iff.1 h
  have hperm : ids.Perm pool.graph.ids := perm_moduleOrder hP hpromote
  have hpermP : P.order.Perm pool.graph.ids := perm_placement hP
  have hf : f ∈ P.order := hpermP.mem_iff.2 (Wiring.mem_ids_of_get? hn)
  have hmem : r ∈ n.hostRequirements := by simp [hr]
  obtain ⟨w, hw, hrequirer, rfl, n', hn', hhost⟩ := exists_isHost howner hhosted
    (resolved_of_mem_placement hP hf) hn hmem heff hopt hfilter
  have hwired : HostedBy pool f w.provider :=
    ⟨w, hw, hrequirer, rfl, eq_of_beq (List.mem_filter.1 hmem).2⟩
  have hq : w.provider ∈ pool.graph.ids := Wiring.mem_ids_of_get? hn'
  refine ⟨hperm, w.provider, fun q' => ⟨fun hq' => ?_, fun heq => ?_⟩, hperm.mem_iff.2 hq,
    ⟨n', hn', hhost⟩, ?_⟩
  · exact hostedBy_unique hn hr hq' hwired
  · rwa [heq]
  · exact Fragment.exists_nextPlain_of_promoteAll hinert (hpermP.nodup_iff.2 Graph.nodup_ids)
      hpromote hf hn hmem (hpermP.mem_iff.2 hq) ⟨n', hn', hhost⟩

/-- The module at the place of an entry has the requirement for a host that the entry has. -/
theorem exists_hostRequirement {m : Module} (h : n.unowned = m.unowned)
    (hr : m.hostRequirements = [r]) :
    ∃ r', n.hostRequirements = [r'] ∧ r'.unowned = r.unowned := by
  have hsame := congrArg Module.hostRequirements h
  rw [Module.hostRequirements_unowned, Module.hostRequirements_unowned, hr] at hsame
  obtain ⟨r', hr', heq⟩ := List.map_eq_singleton_iff.1 hsame
  exact ⟨r', hr', heq⟩

/-- **The module behind a fragment.** The requirement of a fragment for a host is wired to one
module `q`, which promotion would take as well. The first module behind the fragment that is none
itself is the first one of the order that promotion takes for its host: it is `q`, or it comes
before `q`. -/
theorem nextPlain_of_order [BEq α] {hs : List α} (hhosted : ∀ c ∈ o.hosted, c.ns ≠ Vocabulary.host)
    (hinert : ∀ m ∈ o.framework :: o.launchApi :: entries.map Prod.fst, m.isFragment = true →
      ∀ c ∈ m.capabilities, c.ns ≠ Vocabulary.host ∧ c.ns ≠ Vocabulary.bundle)
    (h : o.order entries = .ok hs) {a : Module × α} (ha : a ∈ entries)
    (hf : (entryGraph entries).1.find? a.1 = some f) (hr : a.1.hostRequirements = [r])
    (heff : r.isEffective = true) (hopt : r.isOptional = false)
    (hfilter : r.filter?.isSome = true) :
    ∃ ids q next, moduleOrder (o.entryPool entries) = .ok ids ∧
      report (entryGraph entries).2 ids = hs ∧ ids.Perm (o.entryPool entries).graph.ids ∧
      (∀ q', HostedBy (o.entryPool entries) f q' ↔ q' = q) ∧
      Fragment.Accepts (o.entryPool entries).graph r q ∧
      Fragment.NextPlain (o.entryPool entries).graph ids f next ∧
      Fragment.FirstAccepted (o.entryPool entries).graph r ids next ∧
      (next = q ∨ Precedes ids next q) := by
  have hne : (entryGraph entries).2.isEmpty = false := by
    cases hempty : (entryGraph entries).2.isEmpty with
    | false => rfl
    | true =>
      rw [eq_nil_of_isEmpty_handles hempty] at ha
      cases ha
  obtain ⟨ids, hids, hreport⟩ := order_ok h hne
  obtain ⟨n, hn, hsame⟩ := Graph.get?_of_find? hf
  have hlt : f < (entryGraph entries).1.size := (List.getElem?_eq_some_iff.1 hn).1
  have hget : (o.entryPool entries).graph.get? f = some n :=
    (get?_pool o o.launchApi hlt).trans hn
  obtain ⟨r', hr', hsame'⟩ := exists_hostRequirement hsame hr
  have hhosted' : ∀ c ∈ (o.entryPool entries).hosted, c.ns ≠ Vocabulary.host := by
    intro c hc
    obtain ⟨d, hd, rfl⟩ := List.mem_map.1 hc
    exact hhosted d hd
  obtain ⟨hperm, q, hq, hmem, hacc, next, hnext, hfirst⟩ := nextPlain_of_moduleOrder
    (fun id n hn c hc => (holdsOf_pool o o.launchApi entries).owner hn hc) hhosted'
    (inert_entryPool hinert) hids hget hr'
    ((congrArg Requirement.isEffective hsame').trans heff)
    ((congrArg Requirement.isOptional hsame').trans hopt)
    ((congrArg (·.filter?.isSome) hsame').trans hfilter)
  have hle := hfirst.eq_or_precedes hmem hacc
  obtain ⟨hin, haccepts, hbefore⟩ := hfirst
  rw [Fragment.accepts_congr hsame'] at hacc haccepts hbefore
  exact ⟨ids, q, next, hids, hreport, hperm, hq, hacc, hnext, ⟨hin, haccepts, hbefore⟩, hle⟩

/-- The plugin is put before the one server that there is, to which it is wired. -/
theorem nextPlain_of_order_plugged :
    contractless.order (plugged []) = .ok ["plugin", "server", "client"] ∧
      ∃ ids, moduleOrder (contractless.entryPool (plugged [])) = .ok ids ∧
        HostedBy (contractless.entryPool (plugged [])) 1 2 ∧
        Fragment.NextPlain (contractless.entryPool (plugged [])).graph ids 1 2 := by
  have horder : contractless.order (plugged []) = .ok ["plugin", "server", "client"] := by
    decide +kernel
  have hids : moduleOrder (contractless.entryPool (plugged [])) = .ok [1, 2, 0, 3, 4] := by
    decide +kernel
  have hhost : HostedBy (contractless.entryPool (plugged [])) 1 2 := by
    unfold HostedBy
    decide +kernel
  obtain ⟨ids, q, next, hids', -, -, hq, -, hnext, hfirst, hle⟩ :=
    nextPlain_of_order (a := (plugin [], "plugin")) (f := 1) (by simp [contractless])
      (by decide +kernel) horder (by simp [plugged]) (by decide +kernel) rfl (by decide +kernel)
      (by decide +kernel) (by decide +kernel)
  obtain rfl := Except.ok.inj (hids.symm.trans hids')
  obtain rfl := (hq 2).1 hhost
  refine ⟨horder, _, hids, hhost, ?_⟩
  rcases hle with rfl | hbefore
  · exact hnext
  · obtain rfl : next = 1 := by simpa [precedes_cons] using hbefore
    exact absurd rfl (hnext.behind.ne (by decide))

/-- Two versions of a server that a plugin may be a fragment of. The old one makes use of the new
one. -/
def rivals : List (Module × String) :=
  [(plugin [], "plugin"),
    ({ server with requirements := [{ ns := "library" }] }, "old"),
    ({ identity := { symbolicName := "server", version := { major := 2 } }
       capabilities := [serverHost, { ns := "library" }] }, "new")]

/-- The plugin is wired to the old server, which was put in first, and is put before the new one,
which starts first. -/
theorem not_nextPlain_rivals :
    (∀ c ∈ contractless.hosted, c.ns ≠ Vocabulary.host) ∧
      (∀ m ∈ contractless.framework :: contractless.launchApi :: rivals.map Prod.fst,
        m.isFragment = true →
          ∀ c ∈ m.capabilities, c.ns ≠ Vocabulary.host ∧ c.ns ≠ Vocabulary.bundle) ∧
      (∀ m, ¬ TransGen (Needs (contractless.entryPool rivals)) m m) ∧
      contractless.order rivals = .ok ["plugin", "new", "old"] ∧
      (entryGraph rivals).1.find? (plugin []) = some 0 ∧
      (∃ r, (plugin []).hostRequirements = [r] ∧ r.isEffective = true ∧ r.isOptional = false ∧
        r.filter?.isSome = true) ∧
      HostedBy (contractless.entryPool rivals) 0 1 ∧
      moduleOrder (contractless.entryPool rivals) = .ok [0, 2, 1, 3, 4] ∧
      Fragment.NextPlain (contractless.entryPool rivals).graph [0, 2, 1, 3, 4] 0 2 ∧
      ¬ Fragment.NextPlain (contractless.entryPool rivals).graph [0, 2, 1, 3, 4] 0 1 := by
  have hplain : Fragment.Plain (contractless.entryPool rivals).graph 2 := by
    intro n hn
    have hnone : ((contractless.entryPool rivals).graph.get? 2).map (·.hostRequirements) =
        some [] := by decide +kernel
    rw [hn] at hnone
    exact Option.some.inj hnone
  have hnext : Fragment.NextPlain (contractless.entryPool rivals).graph [0, 2, 1, 3, 4] 0 2 := by
    refine ⟨by simp [precedes_cons], hplain, fun x hx hbefore => ?_⟩
    obtain rfl : x = 0 := by simpa [precedes_cons] using hbefore
    exact absurd rfl (hx.ne (by decide))
  refine ⟨by simp [contractless], by decide +kernel, acyclic_of_forall_le (by decide +kernel),
    by decide +kernel, by decide +kernel, ⟨_, rfl, by decide +kernel⟩, ?_, by decide +kernel,
    hnext, fun h => ?_⟩
  · unfold HostedBy
    decide +kernel
  · exact h.between 2 (by simp [precedes_cons]) (by simp [precedes_cons]) hplain

end Orderer

end StartOrder
