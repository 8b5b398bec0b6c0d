import StartOrder.Proofs.Wiring.Nesting

/-!
# What a choice leaves behind

Before a provider is tried, the number of completed modules is noted. If it fails, the entries
behind them are given up, whatever has been given up below in the meantime. So the tries that fail
leave nothing behind but remembered failures. The try that succeeds leaves the entries that it has
completed, behind those of before.

## Main results

* `Chooses.leaves`: what is left of the steps of a choice
* `leaves_of_choose`: a choice without success leaves no trace, and one with success adds entries
-/

namespace StartOrder.Wiring

variable {pool : Pool} {A : List ModuleId} {s t : Session} {id : ModuleId} {limit : Nat}
  {attempt : Attempt} {permanent : Bool} {cs : List Capability} {o : Choice}

/-- What a choice leaves behind in a session. -/
inductive Leaves (s : Session) : Choice → Session → Prop
  /-- When no provider can be had, there may be more failures that are remembered. -/
  | unavailable {permanent : Bool} {failed : List ModuleId} (hfailed : s.failed ⊆ failed) :
      Leaves s (.unavailable permanent) { s with failed }
  /-- When there is one, modules that had not been completed are completed. -/
  | wired {c : Capability} {t : Session} {new : Resolution} (hext : s.Extends t new)
      (hnodup : (new.map Prod.fst).Nodup) (hfresh : ∀ p ∈ Members new, p ∉ s.done) :
      Leaves s (.wired c) t

/-- **Tries that fail leave nothing behind** but failures that are remembered. -/
theorem Chooses.leaves (hc : Attempt.Correct pool ∅ A attempt)
    (h : Chooses attempt A id permanent s cs o t) : Leaves s o t := by
  induction h with
  | @exhausted _ s => exact @Leaves.unavailable s _ s.failed (List.Subset.refl _)
  | unowned _ _ ih | remembered _ _ _ _ ih => exact ih
  | @settled _ s => exact .wired (.refl s) List.nodup_nil (by simp)
  | @completed _ s _ _ _ _ _ _ _ hp =>
    cases hc hp s.avoids_empty with
    | completed _ hext hbatch =>
      exact .wired hext hbatch.nodup fun p hp hdone => hbatch.fresh p hp (.inl hdone)
  | failed _ _ _ _ hext _ ih =>
    cases ih with
    | unavailable hfailed => exact .unavailable (List.Subset.trans hext.failed hfailed)
    | wired hrest hnodup hfresh =>
      refine .wired ⟨hrest.resolved, hrest.done, ?_⟩ hnodup hfresh
      exact List.Subset.trans hext.failed hrest.failed

/-- **A choice that fails leaves no trace.** The completed modules are those of before, and so are
the modules in progress when a search keeps them itself. A choice that succeeds adds entries of
modules that had not been completed. In either case no remembered failure is forgotten. -/
theorem leaves_of_choose (hlimit : (unentered pool.graph A).length < limit)
    (h : choose (resolveModule pool A) A id permanent s cs = .ok (o, t)) :
    chooseRunning (searchWithin pool limit) id permanent (s.during A) cs = .ok (o, t.during A) ∧
      s.failed ⊆ t.failed ∧
      (∀ b, o = .unavailable b → t.resolved = s.resolved ∧ t.done = s.done) ∧
      ∀ c, o = .wired c → ∃ new, t.resolved = s.resolved ++ new ∧
        t.done = (new.map Prod.fst).reverse ++ s.done ∧ (new.map Prod.fst).Nodup ∧
        ∀ p ∈ new.map Prod.fst, p ∉ s.done := by
  have hcorrect : Attempt.Correct pool ∅ A (resolveModule pool A) :=
    resolveModule_correct A fun _ h => h.elim
  refine ⟨?_, ?_⟩
  · rw [(searchWithin_eq hlimit).chooseRunning_eq permanent s cs, h]
    rfl
  · cases (hcorrect.chooses h).leaves hcorrect with
    | unavailable hfailed =>
      refine ⟨hfailed, fun _ _ => ⟨rfl, rfl⟩, fun c hwired => ?_⟩
      cases hwired
    | wired hext hnodup hfresh =>
      refine ⟨hext.failed, fun b hnone => ?_, fun _ _ => ?_⟩
      · cases hnone
      · exact ⟨_, hext.resolved, hext.done, hnodup, hfresh⟩

/-- Four modules. The client needs the press, which needs ink and something that nobody offers. -/
def tornPool : Pool where
  graph := .ofList
    [{ identity := { symbolicName := "client", version := .zero }
       requirements := [{ ns := "printing" }] },
     { identity := { symbolicName := "press", version := .zero }
       capabilities := [{ ns := "printing" }]
       requirements := [{ ns := "ink" }, { ns := "nowhere" }] },
     { identity := { symbolicName := "mill", version := .zero }
       capabilities := [{ ns := "ink" }] },
     { identity := { symbolicName := "clock", version := .zero } }]

/-- The clock has been completed. -/
def ticking : Session where
  resolved := [(3, [])]
  done := [3]

/-- For the client the press is tried. The mill is completed for it before it fails, and is given up
again. -/
theorem leaves_of_choose_torn :
    (∃ f u, resolveModule tornPool [0] ticking 1 = .ok (some f, u) ∧ u.done = [2, 3]) ∧
      ∃ t : Session, choose (resolveModule tornPool [0]) [0] 0 true ticking
          (tornPool.graph.capabilitiesIn "printing") = .ok (.unavailable true, t) ∧
        chooseRunning (searchWithin tornPool 4) 0 true (ticking.during [0])
          (tornPool.graph.capabilitiesIn "printing") = .ok (.unavailable true, t.during [0]) ∧
        t.failed = [1] ∧ t.resolved = [(3, [])] ∧ t.done = [3] := by
  constructor
  · obtain ⟨⟨o, u⟩, htry, hu⟩ := exists_eq_ok_of_map (show
      (resolveModule tornPool [0] ticking 1).toOption.map
        (fun r => decide (r.1.isSome = true ∧ r.2.done = [2, 3])) = some true by decide +kernel)
    obtain ⟨hfails, hdone⟩ := of_decide_eq_true hu
    obtain ⟨f, rfl⟩ := Option.isSome_iff_exists.1 hfails
    exact ⟨f, u, htry, hdone⟩
  · obtain ⟨⟨o, t⟩, hchoose, ht⟩ := exists_eq_ok_of_map (show
      (choose (resolveModule tornPool [0]) [0] 0 true ticking
        (tornPool.graph.capabilitiesIn "printing")).toOption.map
        (fun r => decide (r.1 = .unavailable true ∧ r.2.failed = [1])) = some true by
          decide +kernel)
    obtain ⟨rfl, hfailed⟩ := of_decide_eq_true ht
    have hlimit : (unentered tornPool.graph [0]).length < 4 := by decide +kernel
    obtain ⟨hkept, -, hleft, -⟩ := leaves_of_choose hlimit hchoose
    obtain ⟨hresolved, hdone⟩ := hleft true rfl
    exact ⟨t, hchoose, hkept, hfailed, hresolved, hdone⟩

end StartOrder.Wiring
