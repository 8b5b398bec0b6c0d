import StartOrder.Proofs.Graph
import StartOrder.Proofs.Region.Records
import StartOrder.Proofs.Wiring.Provision

/-!
# Region filters in another graph

A region filter looks at the identities and the kinds of two modules, never at the places at which
they lie. So it keeps a provider wherever the two modules are found again, and also when the module
that requires it was not known before, because an unknown module has no features. A policy that is
no stricter only keeps more.

## Main definitions

* `RegionFilter.Relaxes`: the same membership with a policy that is no stricter

## Main results

* `RegionFilter.Visible.transfer`: what is visible stays visible in another graph
* `RegionFilter.follows_of_sees`: region filters are compared by what they see
-/

namespace StartOrder

open StartOrder.Membership (Fact)

namespace RegionFilter

variable {f f' : RegionFilter} {g g' : Graph} {r r' : Requirement} {c c' : Capability}
  {P P' : Module} {F : Set Fact} {policy policy' : Policy}

/-- **What is visible stays visible in another graph** in which the provider has the same identity
and kind, and the requiring module the same identity. -/
theorem Visible.transfer (hpolicy : policy = .failOpen → policy' = .failOpen)
    (hP : c.owner.bind g.get? = some P) (hP' : c'.owner.bind g'.get? = some P')
    (hidentity : P'.identity = P.identity) (hkind : P'.kind = P.kind)
    (hR : ∀ R, r.owner.bind g.get? = some R →
      ∃ R', r'.owner.bind g'.get? = some R' ∧ R'.identity = R.identity)
    (hc : c'.attributes = c.attributes) (h : Visible F policy g r c) :
    Visible F policy' g' r' c' := by
  have htext (name : String) : c'.text? name = c.text? name := by
    rw [Capability.text?, hc, ← Capability.text?]
  have hprovider {Q} (hQ : c.owner.bind g.get? = some Q) : Q = P :=
    Option.some.inj (hQ.symm.trans hP)
  cases h with
  | platform hQ h =>
    obtain rfl := hprovider hQ
    exact .platform hP' (hkind.trans h)
  | own hQ hRequirer h =>
    obtain rfl := hprovider hQ
    obtain ⟨R', hR', hsame⟩ := hR _ hRequirer
    refine .own hP' hR' (.inr ?_)
    rcases h with howner | h
    · rw [howner, hRequirer] at hP
      rw [hidentity, hsame, Option.some.inj hP]
    · rw [hidentity, hsame, h]
  | shared hQ hRequirer hPx hRx =>
    obtain rfl := hprovider hQ
    obtain ⟨R', hR', hsame⟩ := hR _ hRequirer
    exact .shared hP' hR' (hidentity ▸ hPx) (hsame ▸ hRx)
  | everywhere hpackage h => exact .everywhere ((htext _).trans hpackage) h
  | nearby hpackage hRequirer hRx hx h =>
    obtain ⟨R', hR', hsame⟩ := hR _ hRequirer
    exact .nearby ((htext _).trans hpackage) hR' (hsame ▸ hRx) hx h
  | unknown _ hQ =>
    rw [hP] at hQ
    cases hQ
  | unassigned hopen hQ h =>
    obtain rfl := hprovider hQ
    exact .unassigned (hpolicy hopen) hP' (hidentity ▸ h)
  | unplaced hopen hQ hPx hx =>
    obtain rfl := hprovider hQ
    exact .unplaced (hpolicy hopen) hP' (hidentity ▸ hPx) hx

/-! ## Region filters as hooks -/

/-- Region filters are compared by what they see, where they are asked at all. -/
theorem follows_of_sees (hns : r'.ns = r.ns)
    (h : f.sees g r c = true → f'.sees g' r' c' = true) :
    Hook.Follows g g' r r' c c' f'.hook f.hook := by
  intro cs cs' hc hc'
  change c ∈ f.keep g r cs at hc
  change c' ∈ f'.keep g' r' cs'
  by_cases hpackage : r.ns = Vocabulary.package
  · rw [keep, if_pos hpackage] at hc
    rw [keep, if_pos (hns.trans hpackage)]
    exact List.mem_filter.2 ⟨hc', h (List.mem_filter.1 hc).2⟩
  · rw [keep, if_neg (hns ▸ hpackage)]
    exact hc'

/-- The same membership, with the same policy or with one that opens what is not classified. -/
def Relaxes (f' f : RegionFilter) : Prop :=
  f' = f ∨ f' = { f with policy := .failOpen }

theorem Relaxes.membership (h : Relaxes f' f) : f'.membership = f.membership := by
  rcases h with rfl | rfl <;> rfl

theorem Relaxes.failOpen (h : Relaxes f' f) (hopen : f.policy = .failOpen) :
    f'.policy = .failOpen := by
  rcases h with rfl | rfl
  · exact hopen
  · rfl

end RegionFilter

end StartOrder
