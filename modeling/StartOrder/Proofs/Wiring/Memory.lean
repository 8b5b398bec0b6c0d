import StartOrder.Proofs.Wiring.Resolution

/-!
# Remembered failures

A search remembers modules of which it has found that they fail whatever is in progress, and does
not try them again. Whether the search for a module fails depends on what is in progress
otherwise: a module that leads back to one in progress may be completed, and is given up later.
So it has to be shown that a module which is remembered would indeed fail wherever it is passed
over.

A module is remembered when a requirement that has to be met has no provider but modules that were
remembered before. Let `F` be such a list of modules, none of which is in progress or completed. A
search that remembers nothing does not complete any module of `F`. For if it enters one, those
that were remembered before this one are still neither in progress nor completed, and they are the
only providers of one of its requirements. The two searches therefore go through the same states,
failures apart, as long as the search that remembers does not enter a module that it has
remembered. It does so only at the top, for a module that was asked for, and that module fails in
both searches, although perhaps with different requirements left open.

## Main definitions

* `searchAfresh`, `resolveAfresh`: the search that remembers nothing
* `Unmet pool F r`, `Hopeless pool F id`, `Doomed pool F`: why modules are remembered
* `Blames pool id f`: the failure is one of the search for a module
* `Attempt.Shuns`: a search that remembers nothing does not complete doomed modules
* `Attempt.Mirrors`: two searches go through the same states, failures apart

## Main results

* `searchAfresh_shuns`, `resolveModule_mirrors`: the searches are of this kind
* `resolve_eq_resolveAfresh`: what is remembered makes no difference to the result
-/

namespace StartOrder.Wiring

variable {pool : Pool} {A F F' ids : List ModuleId} {s t : Session} {new : Resolution}
  {id : ModuleId} {attempt attempt' : Attempt} {o : Option Failure} {f f' : Failure} {m : Module}
  {p : Progress}

/-! ## Searches that remember nothing -/

/-- Resolve a module, unless it is completed or in progress, without remembering failures. Nothing
is ever put into `failed`, so that a provider which has failed before is tried again. -/
def searchAfresh (pool : Pool) (inProgress : List ModuleId) : Attempt := fun s id =>
  if _settled : id ∈ s.done ∨ id ∈ inProgress then .ok (none, s)
  else
    match _found : pool.graph.get? id with
    | none => .ok (some (.unknown id), s)
    | some m => do
      let (p, s) ← wireAll pool (searchAfresh pool (id :: inProgress)) (id :: inProgress) id s
        m.requirements
      if p.unsatisfied.isEmpty then
        return (none, { s with resolved := s.resolved ++ [(id, p.wires)], done := id :: s.done })
      else return (some (.unsatisfied m.identity p.unsatisfied), s)
termination_by (unentered pool.graph inProgress).length
decreasing_by
  refine unentered_cons_lt ?_ fun h => _settled (.inr h)
  exact Classical.byContradiction fun h => by simp [Graph.get?_eq_none_iff.2 h] at _found

/-- Resolve modules one after the other, from a state, without remembering failures. -/
def resolveAfreshFrom (pool : Pool) : Session → List ModuleId → Except Error Session
  | s, [] => .ok s
  | s, id :: ids =>
    match searchAfresh pool [] s id with
    | .error m => .error (.filter m)
    | .ok (some f, _) => .error (.unresolvable f)
    | .ok (none, s) => resolveAfreshFrom pool s ids

/-- Resolve modules that all have to be resolved, without remembering failures. -/
def resolveAfresh (pool : Pool) (mandatory : List ModuleId) : Except Error Resolution :=
  (resolveAfreshFrom pool {} mandatory).map Session.resolved

theorem searchAfresh_of_settled (hid : id ∈ s.settled A) :
    searchAfresh pool A s id = .ok (none, s) := by
  unfold searchAfresh
  exact dif_pos hid

theorem searchAfresh_of_unknown (hid : id ∉ s.settled A) (hm : pool.graph.get? id = none) :
    searchAfresh pool A s id = .ok (some (.unknown id), s) := by
  have hnew : ¬ (id ∈ s.done ∨ id ∈ A) := hid
  rw [searchAfresh, dif_neg hnew]
  split
  · rfl
  · next n hn =>
    rw [hm] at hn
    cases hn

theorem searchAfresh_of_wireAll (hid : id ∉ s.settled A) (hm : pool.graph.get? id = some m)
    (hw : wireAll pool (searchAfresh pool (id :: A)) (id :: A) id s m.requirements =
      .ok (p, t)) :
    searchAfresh pool A s id = .ok (if p.unsatisfied.isEmpty then
      (none, { t with resolved := t.resolved ++ [(id, p.wires)], done := id :: t.done })
      else (some (.unsatisfied m.identity p.unsatisfied), t)) := by
  have hnew : ¬ (id ∈ s.done ∨ id ∈ A) := hid
  rw [searchAfresh, dif_neg hnew]
  split
  · next hn =>
    rw [hm] at hn
    cases hn
  · next n hn =>
    obtain rfl := Option.some.inj (hm.symm.trans hn)
    rw [hw]
    simp only [bind, Except.bind]
    split <;> rfl

/-! ## Doomed modules -/

/-- No capability belongs to a module that is not in `F`. -/
def Within (F : List ModuleId) (cs : List Capability) : Prop :=
  ∀ c ∈ cs, ∀ p, c.owner = some p → p ∈ F

namespace Within

variable {c : Capability} {cs : List Capability}

theorem mono (h : Within F cs) (hF : F ⊆ F') : Within F' cs :=
  fun c hc p hp => hF (h c hc p hp)

theorem of_cons (h : Within F (c :: cs)) : Within F cs :=
  fun d hd => h d (List.mem_cons_of_mem _ hd)

theorem head (h : Within F (c :: cs)) {p : ModuleId} (hp : c.owner = some p) : p ∈ F :=
  h c List.mem_cons_self p hp

theorem cons_unowned (hc : c.owner = none) (h : Within F cs) : Within F (c :: cs) := by
  intro d hd p hp
  rcases List.mem_cons.1 hd with rfl | hd
  · rw [hc] at hp
    cases hp
  · exact h d hd p hp

theorem cons_owned {p : ModuleId} (hc : c.owner = some p) (hp : p ∈ F) (h : Within F cs) :
    Within F (c :: cs) := by
  intro d hd q hq
  rcases List.mem_cons.1 hd with rfl | hd
  · rwa [← Option.some.inj (hc.symm.trans hq)]
  · exact h d hd q hq

end Within

/-- A requirement has to be met and has no providers but those in `F`. -/
def Unmet (pool : Pool) (F : List ModuleId) (r : Requirement) : Prop :=
  r.isEffective = true ∧ r.isOptional = false ∧ ∃ cs, pool.providers r = .ok cs ∧ Within F cs

/-- A module has a requirement that has to be met and has no providers but those in `F`. -/
def Hopeless (pool : Pool) (F : List ModuleId) (id : ModuleId) : Prop :=
  ∃ m, pool.graph.get? id = some m ∧ ∃ r ∈ m.requirements, Unmet pool F r

/-- Each module of a list is hopeless because of those behind it, which were there before. -/
inductive Doomed (pool : Pool) : List ModuleId → Prop
  | nil : Doomed pool []
  | cons {id : ModuleId} {F : List ModuleId} (h : Hopeless pool F id) (hF : Doomed pool F) :
      Doomed pool (id :: F)

/-- A doomed module is hopeless because of others, which are doomed without it. -/
theorem Doomed.exists_before (h : Doomed pool F) (hid : id ∈ F) :
    ∃ F', Doomed pool F' ∧ F' ⊆ F ∧ id ∉ F' ∧ Hopeless pool F' id := by
  induction h with
  | nil => cases hid
  | @cons q F hq hF ih =>
    by_cases hmem : id ∈ F
    · obtain ⟨F', hF', hsub, hnew, hid⟩ := ih hmem
      exact ⟨F', hF', List.subset_cons_of_subset q hsub, hnew, hid⟩
    · obtain rfl : id = q := (List.mem_cons.1 hid).resolve_right hmem
      exact ⟨F, hF, List.subset_cons_self _ _, hmem, hq⟩

/-- Doomed modules cannot be resolved. -/
theorem Doomed.not_mem_core (h : Doomed pool F) : ∀ p ∈ F, p ∉ pool.core := by
  induction h with
  | nil => simp
  | @cons id F hid hF ih =>
    rw [List.forall_mem_cons]
    refine ⟨fun hcore => ?_, ih⟩
    obtain ⟨m, hm, r, hr, heff, hopt, cs, hcs, hall⟩ := hid
    obtain ⟨m', hm', hmet⟩ := Pool.supports_core hcore
    obtain rfl := Option.some.inj (hm.symm.trans hm')
    obtain ⟨cs', hcs', c, hc, p, hp, howner⟩ := hmet r hr heff hopt
    obtain rfl := Except.ok.inj (hcs.symm.trans hcs')
    exact ih p (hall c hc p howner) hp

/-- The failure is one of the search for the module at a place. -/
def Blames (pool : Pool) (id : ModuleId) (f : Failure) : Prop :=
  pool.graph.get? id = none ∧ f = .unknown id ∨
    ∃ m us, pool.graph.get? id = some m ∧ f = .unsatisfied m.identity us

/-- Failures of searches for the same module name the same module. -/
theorem Blames.subject_eq (h : Blames pool id f) (h' : Blames pool id f') :
    f.subject = f'.subject := by
  rcases h with ⟨hm, rfl⟩ | ⟨m, us, hm, rfl⟩
  · rcases h' with ⟨-, rfl⟩ | ⟨m', us', hm', rfl⟩
    · rfl
    · rw [hm] at hm'
      cases hm'
  · rcases h' with ⟨hm', -⟩ | ⟨m', us', hm', rfl⟩
    · rw [hm] at hm'
      cases hm'
    · obtain rfl := Option.some.inj (hm.symm.trans hm')
      rfl

/-! ## Doomed modules are not completed -/

/-- Nothing is remembered, and no module of `F` has been completed. -/
structure Session.Clear (F : List ModuleId) (s : Session) : Prop where
  failed : s.failed = []
  apart : ∀ p ∈ F, p ∉ s.done

theorem Session.Clear.anti (h : s.Clear F) (hF : F' ⊆ F) : s.Clear F' :=
  ⟨h.failed, fun p hp => h.apart p (hF hp)⟩

/-- From a state in which nothing is remembered a search has a result and remembers nothing. It
completes no doomed module unless one of them was there or in progress. -/
def Attempt.Shuns (pool : Pool) (A : List ModuleId) (attempt : Attempt) : Prop :=
  ∀ ⦃F s id⦄, Doomed pool F → (∀ p ∈ F, p ∉ A) → s.Clear F →
    ∃ o t new, attempt s id = .ok (o, t) ∧ s.Extends t new ∧ t.failed = [] ∧
      (∀ f, o = some f → Blames pool id f) ∧ (o = none → id ∉ F ∧ t.Clear F)

namespace Attempt.Shuns

/-- No provider is chosen if all of them are doomed. -/
theorem exists_chooses (h : Attempt.Shuns pool A attempt) (hF : Doomed pool F)
    (hA : ∀ p ∈ F, p ∉ A) (hid : id ∈ A) (permanent : Bool) (cs : List Capability)
    (hs : s.Clear F) :
    ∃ o t new, Chooses attempt A id permanent s cs o t ∧ s.Extends t new ∧ t.Clear F ∧
      (Within F cs → ∃ b, o = .unavailable b) := by
  induction cs generalizing permanent with
  | nil => exact ⟨_, s, [], .exhausted, .refl s, hs, fun _ => ⟨permanent, rfl⟩⟩
  | cons c cs ih =>
    cases howner : c.owner with
    | none =>
      obtain ⟨o, t, new, hrest, hext, ht, hall⟩ := ih permanent
      exact ⟨o, t, new, .unowned howner hrest, hext, ht, fun hcs => hall hcs.of_cons⟩
    | some p =>
      by_cases hsettled : p = id ∨ p ∈ s.settled A
      · refine ⟨_, s, [], .settled howner hsettled, .refl s, hs, fun hcs => ?_⟩
        have hpF : p ∈ F := hcs.head howner
        rcases hsettled with rfl | hdone | hprogress
        · exact absurd hid (hA p hpF)
        · exact absurd hdone (hs.apart p hpF)
        · exact absurd hprogress (hA p hpF)
      · have hmem : p ∉ s.failed := by
          rw [hs.failed]
          exact List.not_mem_nil
        obtain ⟨o, t, new, hp, hext, ht, -, hnone⟩ := @h F s p hF hA hs
        cases o with
        | none =>
          obtain ⟨hpF, htF⟩ := hnone rfl
          exact ⟨_, t, new, .completed howner hsettled hmem hp, hext, htF,
            fun hcs => absurd (hcs.head howner) hpF⟩
        | some f =>
          have hback : ({ s with failed := t.failed } : Session) = s := by
            rw [ht, ← hs.failed]
          obtain ⟨o, t', new', hrest, hext', ht', hall⟩ := ih (permanent && decide (p ∈ t.failed))
          refine ⟨o, t', new', .failed howner hsettled hmem hp hext ?_, hext', ht',
            fun hcs => hall hcs.of_cons⟩
          rwa [hback]

/-- A requirement that has to be met stays open if all of its providers are doomed. -/
theorem wireAll_shuns (h : Attempt.Shuns pool A attempt) (hF : Doomed pool F)
    (hA : ∀ p ∈ F, p ∉ A) (hid : id ∈ A) {rs : List Requirement}
    (hrs : ∀ r ∈ rs, ∃ cs, pool.providers r = .ok cs) (hs : s.Clear F) :
    ∃ p t new, wireAll pool attempt A id s rs = .ok (p, t) ∧ s.Extends t new ∧ t.Clear F ∧
      ∀ r ∈ rs, Unmet pool F r → p.unsatisfied ≠ [] := by
  induction rs generalizing s with
  | nil => exact ⟨_, s, [], rfl, .refl s, hs, by simp⟩
  | cons r rs ih =>
    rw [List.forall_mem_cons] at hrs
    cases heff : r.isEffective with
    | false =>
      obtain ⟨p, t, new, hrest, hext, ht, hopen⟩ := ih hrs.2 hs
      refine ⟨p, t, new, ?_, hext, ht, ?_⟩
      · rw [wireAll, heff, if_neg Bool.false_ne_true, hrest]
      · rw [List.forall_mem_cons]
        refine ⟨fun hunmet => ?_, hopen⟩
        rw [Unmet, heff] at hunmet
        cases hunmet.1
    | true =>
      obtain ⟨cs, hcs⟩ := hrs.1
      obtain ⟨o, u, first, hchoose, hfirst, hu, hall⟩ := h.exists_chooses hF hA hid true cs hs
      obtain ⟨q, t, rest, hrest, hlater, ht, hopen⟩ := ih hrs.2 hu
      refine ⟨q.add id r o, t, first ++ rest, ?_, hfirst.trans hlater, ht, ?_⟩
      · simp only [wireAll, heff, ↓reduceIte, hcs, hchoose.choose_eq, hrest, bind, Except.bind]
        rfl
      · rw [List.forall_mem_cons]
        constructor
        · rintro ⟨-, hopt, cs', hcs', hdoomed⟩
          obtain rfl := Except.ok.inj (hcs.symm.trans hcs')
          obtain ⟨b, rfl⟩ := hall hdoomed
          simp [Progress.add, hopt]
        · intro r' hr' hunmet
          have hq := hopen r' hr' hunmet
          cases o with
          | wired c => exact hq
          | unavailable b =>
            simp only [Progress.add]
            split
            · exact hq
            · exact List.cons_ne_nil _ _

end Attempt.Shuns

/-- **A search that remembers nothing completes no doomed module**, as long as none of them is in
progress or completed. -/
theorem searchAfresh_shuns (hp : pool.graph.FiltersParse) (A : List ModuleId) :
    Attempt.Shuns pool A (searchAfresh pool A) := by
  induction A using entering_induction pool.graph with
  | step A ih =>
    intro F s id hF hA hs
    by_cases hid : id ∈ s.settled A
    · refine ⟨none, s, [], searchAfresh_of_settled hid, .refl s, hs.failed, by simp, fun _ => ?_⟩
      refine ⟨fun hmem => ?_, hs⟩
      rcases hid with hdone | hprogress
      · exact hs.apart id hmem hdone
      · exact hA id hmem hprogress
    · cases hm : pool.graph.get? id with
      | none =>
        refine ⟨_, s, [], searchAfresh_of_unknown hid hm, .refl s, hs.failed, ?_, by simp⟩
        intro f hf
        exact .inl ⟨hm, (Option.some.inj hf).symm⟩
      | some m =>
        have hshuns := ih id (mem_ids_of_get? hm) fun h => hid (.inr h)
        have hrs : ∀ r ∈ m.requirements, ∃ cs, pool.providers r = .ok cs :=
          fun r hr => Pool.exists_providers hp hm hr
        by_cases hmem : id ∈ F
        · -- Of the doomed modules those that were there before are not in progress below.
          obtain ⟨F', hF', hsub, hnew, m', hm', r, hr, hunmet⟩ := hF.exists_before hmem
          obtain rfl := Option.some.inj (hm.symm.trans hm')
          have hA' : ∀ q ∈ F', q ∉ id :: A := by
            intro q hq hqA
            rcases List.mem_cons.1 hqA with rfl | hqA
            · exact hnew hq
            · exact hA q (hsub hq) hqA
          obtain ⟨p, t, new, hw, hext, ht, hopen⟩ := hshuns.wireAll_shuns hF' hA'
            List.mem_cons_self hrs (hs.anti hsub)
          have hne : p.unsatisfied.isEmpty = false :=
            List.isEmpty_eq_false_iff.2 (hopen r hr hunmet)
          have hsearch := searchAfresh_of_wireAll hid hm hw
          rw [hne, if_neg Bool.false_ne_true] at hsearch
          refine ⟨_, t, new, hsearch, hext, ht.failed, ?_, by simp⟩
          intro f hf
          exact .inr ⟨m, _, hm, (Option.some.inj hf).symm⟩
        · have hA' : ∀ q ∈ F, q ∉ id :: A := by
            intro q hq hqA
            rcases List.mem_cons.1 hqA with rfl | hqA
            · exact hmem hq
            · exact hA q hq hqA
          obtain ⟨p, t, new, hw, hext, ht, -⟩ := hshuns.wireAll_shuns hF hA'
            List.mem_cons_self hrs hs
          have hsearch := searchAfresh_of_wireAll hid hm hw
          split at hsearch
          · refine ⟨none, _, _, hsearch, hext.complete id p.wires, ht.failed, by simp, fun _ => ?_⟩
            refine ⟨hmem, ht.failed, fun q hq hdone => ?_⟩
            rcases List.mem_cons.1 hdone with rfl | hdone
            · exact hmem hq
            · exact ht.apart q hq hdone
          · refine ⟨_, t, new, hsearch, hext, ht.failed, ?_, by simp⟩
            intro f hf
            exact .inr ⟨m, _, hm, (Option.some.inj hf).symm⟩

/-! ## The two searches side by side -/

/-- The state without the modules that are remembered. -/
def Session.forget (s : Session) : Session :=
  { s with failed := [] }

theorem Session.Extends.forget (h : s.Extends t new) : s.forget.Extends t.forget new where
  resolved := h.resolved
  done := h.done
  failed := List.Subset.refl _

/-- What is remembered is doomed, and none of it is completed or in progress. -/
structure Session.Sound (pool : Pool) (A : List ModuleId) (s : Session) : Prop where
  doomed : Doomed pool s.failed
  apart : ∀ p ∈ s.failed, p ∉ s.settled A

namespace Session.Sound

theorem not_mem (h : s.Sound pool A) : ∀ p ∈ s.failed, p ∉ A :=
  fun p hp hA => h.apart p hp (.inr hA)

theorem clear (h : s.Sound pool A) : s.forget.Clear s.failed :=
  ⟨rfl, fun p hp hdone => h.apart p hp (.inl hdone)⟩

/-- A module may be entered if it is not remembered. -/
theorem enter (h : s.Sound pool A) (hid : id ∉ s.failed) : s.Sound pool (id :: A) := by
  refine ⟨h.doomed, fun p hp hsettled => ?_⟩
  rcases hsettled with hdone | hprogress
  · exact h.apart p hp (.inl hdone)
  · rcases List.mem_cons.1 hprogress with rfl | hA
    · exact hid hp
    · exact h.apart p hp (.inr hA)

theorem leave (h : s.Sound pool (id :: A)) : s.Sound pool A :=
  ⟨h.doomed, fun p hp hsettled => h.apart p hp (hsettled.imp_right (List.mem_cons_of_mem _))⟩

/-- The module that is completed was in progress until then. -/
theorem complete (h : s.Sound pool (id :: A)) (ws : List Wire) :
    ({ s with resolved := s.resolved ++ [(id, ws)], done := id :: s.done } : Session).Sound
      pool A := by
  refine ⟨h.doomed, fun p hp hsettled => ?_⟩
  rcases hsettled with hdone | hA
  · rcases List.mem_cons.1 hdone with rfl | hdone
    · exact h.apart p hp (.inr List.mem_cons_self)
    · exact h.apart p hp (.inl hdone)
  · exact h.apart p hp (.inr (List.mem_cons_of_mem _ hA))

theorem remember (h : s.Sound pool A) (hid : id ∉ s.settled A)
    (hopeless : Hopeless pool s.failed id) :
    ({ s with failed := id :: s.failed } : Session).Sound pool A := by
  refine ⟨.cons hopeless h.doomed, fun p hp => ?_⟩
  rcases List.mem_cons.1 hp with rfl | hp
  · exact hid
  · exact h.apart p hp

/-- What has been remembered meanwhile stays so when an attempt is given up. -/
theorem rollback (ht : t.Sound pool A) (h : s.Extends t new) :
    ({ s with failed := t.failed } : Session).Sound pool A :=
  ⟨ht.doomed, fun p hp hsettled => ht.apart p hp (h.settled_subset hsettled)⟩

end Session.Sound

/-- The capability that was chosen. -/
def Choice.capability? : Choice → Option Capability
  | wired c => some c
  | unavailable _ => none

/-- The wires depend on a choice only by the capability. -/
theorem Progress.wires_add (p : Progress) (id : ModuleId) (r : Requirement) (o : Choice) :
    (p.add id r o).wires =
      (o.capability?.map fun c => ⟨id, r, c.owner.getD id, c⟩).toList ++ p.wires := by
  cases o with
  | wired c => rfl
  | unavailable permanent =>
    simp only [Progress.add]
    split <;> rfl

/-- The open requirements depend on a choice only by whether there is a capability. -/
theorem Progress.unsatisfied_add (p : Progress) (id : ModuleId) (r : Requirement) (o : Choice) :
    (p.add id r o).unsatisfied =
      if o.capability?.isSome || r.isOptional then p.unsatisfied else r :: p.unsatisfied := by
  cases o with
  | wired c => rfl
  | unavailable permanent =>
    simp only [Progress.add, Choice.capability?, Option.isSome_none, Bool.false_or]
    split <;> rfl

/-- Two searches have the same outcome and the same state after it, failures apart, if the module
is not one of those that the first of them remembers. -/
def Attempt.Mirrors (pool : Pool) (A : List ModuleId) (attempt attempt' : Attempt) : Prop :=
  ∀ ⦃s id o t⦄, attempt s id = .ok (o, t) → s.Sound pool A → id ∉ s.failed →
    attempt' s.forget id = .ok (o, t.forget) ∧ t.Sound pool A

namespace Attempt.Mirrors

/-- The same provider is chosen. If there is none and the choice is permanent, then all providers
are remembered in the end. -/
theorem exists_chooses (hc : Attempt.Correct pool ∅ A attempt)
    (h : Attempt.Mirrors pool A attempt attempt') (hshuns : Attempt.Shuns pool A attempt')
    {permanent : Bool} (permanent' : Bool) {cs : List Capability} {o : Choice}
    (hchoose : Chooses attempt A id permanent s cs o t) (hs : s.Sound pool A) :
    ∃ o', Chooses attempt' A id permanent' s.forget cs o' t.forget ∧
      o'.capability? = o.capability? ∧ t.Sound pool A ∧ s.failed ⊆ t.failed ∧
      (o = .unavailable true → permanent = true ∧ Within t.failed cs) := by
  induction hchoose generalizing permanent' with
  | exhausted =>
    refine ⟨_, .exhausted, rfl, hs, List.Subset.refl _, fun ho => ⟨?_, fun c hc => by cases hc⟩⟩
    injection ho
  | unowned howner _ ih =>
    obtain ⟨o', hfresh, ho, ht, hfailed, hall⟩ := ih permanent' hs
    refine ⟨o', .unowned howner hfresh, ho, ht, hfailed, fun hperm => ?_⟩
    exact (hall hperm).imp_right (Within.cons_unowned howner)
  | settled howner hp =>
    exact ⟨_, .settled howner hp, rfl, hs, List.Subset.refl _, fun ho => by cases ho⟩
  | @remembered _ s _ _ _ _ p howner hnew hmem _ ih =>
    obtain ⟨o', u, new, hp, hext, hu, -, hnone⟩ :=
      @hshuns s.failed s.forget p hs.doomed hs.not_mem hs.clear
    cases o' with
    | none => exact absurd hmem (hnone rfl).1
    | some f =>
      have hback : ({ s.forget with failed := u.failed } : Session) = s.forget := by
        rw [hu]
        rfl
      obtain ⟨o', hfresh, ho, ht, hfailed, hall⟩ := ih (permanent' && decide (p ∈ u.failed)) hs
      refine ⟨o', .failed howner hnew List.not_mem_nil hp hext ?_, ho, ht, hfailed,
        fun hperm => ?_⟩
      · rwa [hback]
      · exact (hall hperm).imp_right (Within.cons_owned howner (hfailed hmem))
  | @completed _ s _ _ _ _ howner hnew hmem hp =>
    obtain ⟨hfresh, ht⟩ := h hp hs hmem
    refine ⟨_, .completed howner hnew List.not_mem_nil hfresh, rfl, ht, ?_, fun ho => by cases ho⟩
    cases hc hp s.avoids_empty with
    | completed _ hext => exact hext.failed
  | @failed _ s _ _ _ _ p _ u _ howner hnew hmem hp hext _ ih =>
    obtain ⟨hfresh, hu⟩ := h hp hs hmem
    obtain ⟨o', hrest, ho, ht, hfailed, hall⟩ := ih (permanent' && decide (p ∈ u.forget.failed))
      (hu.rollback hext)
    refine ⟨o', .failed howner hnew List.not_mem_nil hfresh hext.forget hrest, ho, ht,
      List.Subset.trans hext.failed hfailed, fun hperm => ?_⟩
    obtain ⟨hflag, hall⟩ := hall hperm
    obtain ⟨hflag, hp⟩ := Bool.and_eq_true_iff.1 hflag
    exact ⟨hflag, hall.cons_owned howner (hfailed (of_decide_eq_true hp))⟩

/-- The same wires are made and the same requirements stay open. If one of them stays open
permanently, then all of its providers are remembered in the end. -/
theorem wireAll_mirrors (hc : Attempt.Correct pool ∅ A attempt)
    (h : Attempt.Mirrors pool A attempt attempt') (hshuns : Attempt.Shuns pool A attempt')
    {rs : List Requirement} (hwire : wireAll pool attempt A id s rs = .ok (p, t))
    (hs : s.Sound pool A) :
    ∃ p', wireAll pool attempt' A id s.forget rs = .ok (p', t.forget) ∧ p'.wires = p.wires ∧
      p'.unsatisfied = p.unsatisfied ∧ t.Sound pool A ∧ s.failed ⊆ t.failed ∧
      (p.permanent = true → ∃ r ∈ rs, Unmet pool t.failed r) := by
  induction rs generalizing s p with
  | nil =>
    obtain ⟨rfl, rfl⟩ := Prod.mk.inj (Except.ok.inj hwire)
    exact ⟨_, rfl, rfl, rfl, hs, List.Subset.refl _, fun hperm => by cases hperm⟩
  | cons r rs ih =>
    cases heff : r.isEffective with
    | false =>
      simp only [wireAll, heff, Bool.false_eq_true, ↓reduceIte] at hwire ⊢
      obtain ⟨p', hfresh, hw, hu, ht, hfailed, hperm⟩ := ih hwire hs
      refine ⟨p', hfresh, hw, hu, ht, hfailed, fun hp => ?_⟩
      obtain ⟨r', hr', hunmet⟩ := hperm hp
      exact ⟨r', List.mem_cons_of_mem _ hr', hunmet⟩
    | true =>
      obtain ⟨cs, o, u, q, hcs, hchoose, hrest, rfl⟩ := wireAll_cons_ok heff hwire
      obtain ⟨o', hfresh, ho, hu, hfirst, hall⟩ :=
        h.exists_chooses hc hshuns true (hc.chooses hchoose) hs
      obtain ⟨q', hfresh', hw, hopen, ht, hlater, hperm⟩ := ih hrest hu
      have hbehind (hp : q.permanent = true) : ∃ r' ∈ r :: rs, Unmet pool t.failed r' := by
        obtain ⟨r', hr', hunmet⟩ := hperm hp
        exact ⟨r', List.mem_cons_of_mem _ hr', hunmet⟩
      refine ⟨q'.add id r o', ?_, ?_, ?_, ht, List.Subset.trans hfirst hlater, fun hp => ?_⟩
      · simp only [wireAll, heff, ↓reduceIte, hcs, hfresh.choose_eq, hfresh', bind, Except.bind]
        rfl
      · rw [Progress.wires_add, Progress.wires_add, ho, hw]
      · rw [Progress.unsatisfied_add, Progress.unsatisfied_add, ho, hopen]
      · cases o with
        | wired c => exact hbehind hp
        | unavailable permanent =>
          simp only [Progress.add] at hp
          split at hp
          · exact hbehind hp
          · next hopt =>
            rcases Bool.or_eq_true_iff.1 hp with rfl | hp
            · refine ⟨r, List.mem_cons_self, heff, Bool.eq_false_iff.2 hopt, cs, hcs, ?_⟩
              exact (hall rfl).2.mono hlater
            · exact hbehind hp

end Attempt.Mirrors

/-- **The search that remembers goes through the same states**, failures apart, as the one that
does not, as long as it is not asked for a module that it remembers. -/
theorem resolveModule_mirrors (hp : pool.graph.FiltersParse) (A : List ModuleId) :
    Attempt.Mirrors pool A (resolveModule pool A) (searchAfresh pool A) := by
  have hcorrect (A : List ModuleId) : Attempt.Correct pool ∅ A (resolveModule pool A) :=
    resolveModule_correct A fun _ h => h.elim
  induction A using entering_induction pool.graph with
  | step A ih =>
    intro s id o t h hs hnew
    -- The module is not remembered, so that it may be in progress below.
    have inner {m p u} (hid : id ∉ s.settled A) (hm : pool.graph.get? id = some m)
        (hw : wireAll pool (resolveModule pool (id :: A)) (id :: A) id s m.requirements =
          .ok (p, u)) :=
      (ih id (mem_ids_of_get? hm) fun h => hid (.inr h)).wireAll_mirrors (hcorrect (id :: A))
        (searchAfresh_shuns hp (id :: A)) hw (hs.enter hnew)
    cases ends_of_resolveModule h with
    | settled hid => exact ⟨searchAfresh_of_settled hid, hs⟩
    | unknown hid hm => exact ⟨searchAfresh_of_unknown hid hm, hs⟩
    | @complete m p u hid hm hw hopen =>
      obtain ⟨p', hfresh, hwires, hopen', hu, -, -⟩ := inner hid hm hw
      have hsearch := searchAfresh_of_wireAll (s := s.forget) hid hm hfresh
      rw [hopen', hopen, hwires] at hsearch
      exact ⟨hsearch, hu.complete p.wires⟩
    | @fail m p u hid hm hw hopen =>
      obtain ⟨p', hfresh, -, hopen', hu, -, hperm⟩ := inner hid hm hw
      have hsearch := searchAfresh_of_wireAll (s := s.forget) hid hm hfresh
      rw [hopen', List.isEmpty_eq_false_iff.2 hopen, if_neg Bool.false_ne_true] at hsearch
      split
      · next hflag =>
        refine ⟨hsearch, hu.leave.remember ?_ ?_⟩
        · obtain ⟨-, new, hext, hbatch, -, -⟩ :=
            (hcorrect (id :: A)).wireAll_correct List.mem_cons_self hw s.avoids_empty
          rw [hext.settled_eq]
          rintro (hsettled | hmem)
          · exact hid hsettled
          · exact hbatch.fresh id hmem (.inr List.mem_cons_self)
        · exact ⟨m, hm, hperm hflag⟩
      · exact ⟨hsearch, hu.leave⟩

/-! ## Searches for several modules -/

theorem Ends.blames (h : Ends pool A s id o t) (ho : o = some f) : Blames pool id f := by
  cases h with
  | settled | complete => cases ho
  | unknown _ hm => exact .inl ⟨hm, (Option.some.inj ho).symm⟩
  | fail _ hm _ _ => exact .inr ⟨_, _, hm, (Option.some.inj ho).symm⟩

/-- Entries that hang together above the core belong to the core. -/
theorem Batch.subset_core {S K : Set ModuleId} (h : Batch pool S K new) (hK : K ⊆ pool.core) :
    Members new ⊆ pool.core := by
  refine Set.subset_union_right.trans (Pool.subset_core (S := pool.core ∪ Members new) ?_)
  rintro id (hid | hid)
  · exact (Pool.supports_core hid).mono Set.subset_union_left
  · obtain ⟨ws, hws⟩ := mem_members.1 hid
    obtain ⟨m, hm, hwired⟩ := h.wired _ hws
    exact (hwired.supports hm).mono (Set.union_subset_union_left _ hK)

/-- From a state of which all completed modules can be resolved both searches go on to the same
state, failures apart, or they fail at the same module. -/
theorem resolveFrom_mirrors (hp : pool.graph.FiltersParse) (ids : List ModuleId)
    (hs : s.Sound pool []) (hcore : s.settled [] ⊆ pool.core) :
    (∃ t, resolveFrom pool s ids = .ok t ∧ resolveAfreshFrom pool s.forget ids = .ok t.forget) ∨
      ∃ f f', resolveFrom pool s ids = .error (.unresolvable f) ∧
        resolveAfreshFrom pool s.forget ids = .error (.unresolvable f') ∧
        f.subject = f'.subject ∧ (s.failed = [] → ids.length ≤ 1 → f = f') := by
  induction ids generalizing s with
  | nil => exact .inl ⟨s, rfl, rfl⟩
  | cons id ids ih =>
    obtain ⟨⟨o, t⟩, hsearch⟩ := exists_resolveModule hp [] s id
    have hcorrect := resolveModule_correct (S := ∅) [] (fun _ h => h.elim) hsearch s.avoids_empty
    unfold resolveFrom resolveAfreshFrom
    rw [hsearch]
    by_cases hmem : id ∈ s.failed
    · -- A module that is remembered fails here, since it cannot be resolved, and there.
      obtain ⟨o', u, new, hfresh, -, -, hblames, hnone⟩ :=
        @searchAfresh_shuns pool hp [] s.failed s.forget id hs.doomed hs.not_mem hs.clear
      rw [hfresh]
      cases hcorrect with
      | completed _ hext hbatch hid _ =>
        rw [hext.settled_eq] at hid
        refine absurd ?_ (hs.doomed.not_mem_core id hmem)
        exact hid.elim (fun h => hcore h) (fun h => hbatch.subset_core hcore h)
      | @failed f =>
        cases o' with
        | none => exact absurd hmem (hnone rfl).1
        | some f' =>
          right
          refine ⟨f, f', rfl, rfl, ?_, fun hfailed => ?_⟩
          · exact ((ends_of_resolveModule hsearch).blames rfl).subject_eq (hblames f' rfl)
          · rw [hfailed] at hmem
            cases hmem
    · obtain ⟨hfresh, ht⟩ := resolveModule_mirrors hp [] hsearch hs hmem
      rw [hfresh]
      cases hcorrect with
      | completed _ hext hbatch _ _ =>
        have hcore' : t.settled [] ⊆ pool.core := by
          rw [hext.settled_eq]
          exact Set.union_subset hcore (hbatch.subset_core hcore)
        rcases ih ht hcore' with hsame | ⟨f, f', hf, hf', hsubject, -⟩
        · exact .inl hsame
        · refine .inr ⟨f, f', hf, hf', hsubject, fun _ hlength => ?_⟩
          obtain rfl := List.length_eq_zero_iff.1 (Nat.le_zero.1 (Nat.le_of_succ_le_succ hlength))
          cases hf
      | @failed f => exact .inr ⟨f, f, rfl, rfl, rfl, fun _ _ => rfl⟩

/-- **What is remembered makes no difference to the result.** With and without remembering there
is the same resolution, or both searches fail at the same module. If it is the only one that was
asked for, then the same requirements stay open. -/
theorem resolve_eq_resolveAfresh (hp : pool.graph.FiltersParse) (ids : List ModuleId) :
    (∃ res, resolve pool ids = .ok res ∧ resolveAfresh pool ids = .ok res) ∨
      ∃ f f', resolve pool ids = .error (.unresolvable f) ∧
        resolveAfresh pool ids = .error (.unresolvable f') ∧ f.subject = f'.subject ∧
        ∀ id, ids = [id] → f = f' := by
  have hs : ({} : Session).Sound pool [] := ⟨.nil, by simp⟩
  have hcore : ({} : Session).settled [] ⊆ pool.core := by
    intro p hp
    simp [Session.settled] at hp
  have hforget : ({} : Session).forget = {} := rfl
  have hmirrors := resolveFrom_mirrors hp ids hs hcore
  rw [hforget] at hmirrors
  unfold resolve resolveAfresh
  rcases hmirrors with ⟨t, h, h'⟩ | ⟨f, f', h, h', hsubject, hsingle⟩
  · left
    rw [h, h']
    exact ⟨t.resolved, rfl, rfl⟩
  · right
    rw [h, h']
    refine ⟨f, f', rfl, rfl, hsubject, ?_⟩
    rintro id rfl
    exact hsingle rfl le_rfl

/-- Three modules. The viewer can do without the others. The editor cannot be resolved. It needs
the printer, which needs the editor. -/
def heldPool : Pool where
  graph := .ofList
    [{ identity := { symbolicName := "viewer", version := .zero }
       requirements :=
         [{ ns := "editing"
            directives := .ofList [(Vocabulary.resolution, Vocabulary.optional)] },
          { ns := "printing"
            directives := .ofList [(Vocabulary.resolution, Vocabulary.optional)] }] },
     { identity := { symbolicName := "editor", version := .zero }
       capabilities := [{ ns := "editing" }]
       requirements := [{ ns := "printing" }, { ns := "nowhere" }] },
     { identity := { symbolicName := "printer", version := .zero }
       capabilities := [{ ns := "printing" }], requirements := [{ ns := "editing" }] }]

/-- The namespaces of the requirements that stay open. -/
def openNamespaces : Except Error Resolution → Option (List String)
  | .error (.unresolvable f) => some (f.requirements.map (·.ns))
  | _ => none

/-- After the viewer the printer is remembered, so that it is not tried for the editor and both
requirements of the editor stay open. Tried afresh, the printer is wired to the editor. -/
theorem resolve_eq_resolveAfresh_held : ∃ f f',
    resolve heldPool [0, 1] = .error (.unresolvable f) ∧
      resolveAfresh heldPool [0, 1] = .error (.unresolvable f') ∧ f.subject = f'.subject ∧
      f.requirements.map (·.ns) = ["printing", "nowhere"] ∧
      f'.requirements.map (·.ns) = ["nowhere"] := by
  have hp : heldPool.graph.FiltersParse := by decide +kernel
  have hopen : openNamespaces (resolve heldPool [0, 1]) = some ["printing", "nowhere"] := by
    decide +kernel
  have hopen' : openNamespaces (resolveAfresh heldPool [0, 1]) = some ["nowhere"] := by
    decide +kernel
  rcases resolve_eq_resolveAfresh hp [0, 1] with ⟨res, h, -⟩ | ⟨f, f', h, h', hsubject, -⟩
  · rw [h] at hopen
    cases hopen
  · rw [h] at hopen
    rw [h'] at hopen'
    exact ⟨f, f', h, h', hsubject, Option.some.inj hopen, Option.some.inj hopen'⟩

end StartOrder.Wiring
