import StartOrder.Proofs.Wiring.Search

/-!
# How deep searches are nested

A search that needs a provider starts another search for it. Here the modules in progress are a
part of the state: a module is put among them when it is entered and taken out when it is left,
and searches may be nested up to a limit only. Past the limit there is no result.

What is in progress is the same before and after each search, whatever it has completed, given up
or remembered in between. So a nested search has one module less that it could enter, and a search
that may be nested once more than there are modules left never comes to the limit: the last of the
nested searches finds nothing but settled modules, or asks for a module that is not there.

## Main definitions

* `Running`: a session with the modules in progress
* `chooseRunning`, `wireAllRunning`, `searchWithin`, `resolveWithin`: searches that keep them, and
  that may be nested up to a limit
* `carrying A x`: a result `x` with the modules `A` in progress

## Main results

* `searchWithin_eq`: the limit is not reached, and the modules in progress are kept
* `resolveWithin_eq`: resolving several modules within a limit
-/

namespace StartOrder.Wiring

variable {pool : Pool} {A : List ModuleId} {s : Session} {id : ModuleId} {limit : Nat}

/-! ## Searches that keep the modules in progress -/

/-- What a search knows, and the modules in progress. -/
structure Running extends Session where
  inProgress : List ModuleId := []
deriving DecidableEq, Repr

/-- A session while the modules `A` are in progress. -/
def Session.during (s : Session) (A : List ModuleId) : Running :=
  { s with inProgress := A }

/-- A module is in progress from here on. -/
def Running.enter (s : Running) (id : ModuleId) : Running :=
  { s with inProgress := id :: s.inProgress }

/-- A module is no longer in progress. -/
def Running.leave (s : Running) (id : ModuleId) : Running :=
  { s with inProgress := s.inProgress.erase id }

theorem Running.enter_during (s : Session) (A : List ModuleId) (id : ModuleId) :
    (s.during A).enter id = s.during (id :: A) := rfl

/-- What is left was the last that was entered. -/
theorem Running.leave_during (s : Session) (A : List ModuleId) (id : ModuleId) :
    (s.during (id :: A)).leave id = s.during A := by
  simp [leave, Session.during]

/-- How a module is searched for with a limit. Without a result the reason is a malformed filter,
or `none` when searches would be nested too deep. -/
abbrev RunningAttempt :=
  Running → ModuleId → Except (Option Filter.Malformed) (Option Failure × Running)

/-- The first provider that is the requirer itself, is settled, or can be resolved. When an attempt
fails, the completed modules are those of before, and nothing else is reset. -/
def chooseRunning (attempt : RunningAttempt) (requirer : ModuleId) :
    (permanent : Bool) → Running → List Capability →
      Except (Option Filter.Malformed) (Choice × Running)
  | permanent, s, [] => .ok (.unavailable permanent, s)
  | permanent, s, c :: cs =>
    match c.owner with
    | none => chooseRunning attempt requirer permanent s cs
    | some p =>
      if p = requirer ∨ p ∈ s.done ∨ p ∈ s.inProgress then .ok (.wired c, s)
      else if p ∈ s.failed then chooseRunning attempt requirer permanent s cs
      else
        match attempt s p with
        | .error e => .error e
        | .ok (none, t) => .ok (.wired c, t)
        | .ok (some _, t) =>
          chooseRunning attempt requirer (permanent && decide (p ∈ t.failed))
            { t with resolved := t.resolved.take s.resolved.length, done := s.done } cs

/-- Wire the requirements of a module in order. -/
def wireAllRunning (pool : Pool) (attempt : RunningAttempt) (id : ModuleId) :
    Running → List Requirement → Except (Option Filter.Malformed) (Progress × Running)
  | s, [] => .ok ({}, s)
  | s, r :: rs =>
    if r.isEffective then do
      let candidates ← (pool.providers r).mapError some
      let (choice, s) ← chooseRunning attempt id true s candidates
      let (rest, s) ← wireAllRunning pool attempt id s rs
      return (rest.add id r choice, s)
    else wireAllRunning pool attempt id s rs

/-- Resolve a module, unless it is settled, by searches that are nested up to a limit. The module
is in progress while its requirements are wired. -/
def searchWithin (pool : Pool) : (limit : Nat) → RunningAttempt
  | 0, _, _ => .error none
  | limit + 1, s, id =>
    if id ∈ s.done ∨ id ∈ s.inProgress then .ok (none, s)
    else
      match pool.graph.get? id with
      | none => .ok (some (.unknown id), s)
      | some m => do
        let (p, t) ← wireAllRunning pool (searchWithin pool limit) id (s.enter id) m.requirements
        let t := t.leave id
        if p.unsatisfied.isEmpty then
          return (none, { t with resolved := t.resolved ++ [(id, p.wires)], done := id :: t.done })
        else
          return (some (.unsatisfied m.identity p.unsatisfied),
            if p.permanent then { t with failed := id :: t.failed } else t)

/-- Resolve modules one after the other, from a state, by searches that are nested up to a limit. -/
def resolveFromWithin (pool : Pool) (limit : Nat) :
    Running → List ModuleId → Except (Option Error) Running
  | s, [] => .ok s
  | s, id :: ids =>
    match searchWithin pool limit s id with
    | .error m => .error (m.map .filter)
    | .ok (some f, _) => .error (some (.unresolvable f))
    | .ok (none, s) => resolveFromWithin pool limit s ids

/-- Resolve modules that all have to be resolved, by searches that are nested up to a limit. -/
def resolveWithin (pool : Pool) (limit : Nat) (mandatory : List ModuleId) :
    Except (Option Error) Resolution :=
  (resolveFromWithin pool limit {} mandatory).map (·.resolved)

/-! ## What is in progress is kept -/

/-- A result that was found while the modules `A` were in progress, which they still are. -/
def carrying {α : Type} (A : List ModuleId) (x : Except Filter.Malformed (α × Session)) :
    Except (Option Filter.Malformed) (α × Running) :=
  (x.mapError some).map fun r => (r.1, r.2.during A)

/-- A search that keeps the modules in progress comes to the same as one to which they are given,
as long as they are `A`. -/
def RunningAttempt.Carries (attempt' : RunningAttempt) (A : List ModuleId) (attempt : Attempt) :
    Prop :=
  ∀ s id, attempt' (s.during A) id = carrying A (attempt s id)

namespace RunningAttempt.Carries

variable {attempt : Attempt} {attempt' : RunningAttempt}

theorem chooseRunning_eq (h : attempt'.Carries A attempt) (permanent : Bool) (s : Session)
    (cs : List Capability) :
    chooseRunning attempt' id permanent (s.during A) cs =
      carrying A (choose attempt A id permanent s cs) := by
  induction cs generalizing permanent s with
  | nil => rfl
  | cons c cs ih =>
    unfold chooseRunning choose
    cases c.owner with
    | none => exact ih permanent s
    | some p =>
      dsimp only
      by_cases hsettled : p = id ∨ p ∈ s.done ∨ p ∈ A
      · rw [if_pos hsettled]
        exact if_pos hsettled
      · rw [if_neg hsettled]
        refine (if_neg hsettled).trans ?_
        by_cases hfailed : p ∈ s.failed
        · rw [if_pos hfailed]
          exact (if_pos hfailed).trans (ih permanent s)
        · rw [if_neg hfailed]
          refine (if_neg hfailed).trans ?_
          rw [h s p]
          rcases attempt s p with e | ⟨_ | f, t⟩
          · rfl
          · rfl
          · exact ih _ _

theorem wireAllRunning_eq (h : attempt'.Carries A attempt) (s : Session) (rs : List Requirement) :
    wireAllRunning pool attempt' id (s.during A) rs =
      carrying A (wireAll pool attempt A id s rs) := by
  induction rs generalizing s with
  | nil => rfl
  | cons r rs ih =>
    unfold wireAllRunning wireAll
    split
    · cases pool.providers r with
      | error e => rfl
      | ok cs =>
        simp only [Except.mapError, bind, Except.bind]
        rw [h.chooseRunning_eq true s cs]
        rcases choose attempt A id true s cs with e | ⟨o, t⟩
        · rfl
        · simp only [carrying, Except.mapError, Except.map]
          rw [ih t]
          rcases wireAll pool attempt A id t rs with e | ⟨p, u⟩ <;> rfl
    · exact ih s

end RunningAttempt.Carries

/-! ## Searches within a limit -/

theorem resolveModule_of_settled (hid : id ∈ s.settled A) :
    resolveModule pool A s id = .ok (none, s) := by
  unfold resolveModule
  exact dif_pos hid

theorem resolveModule_of_unknown (hid : id ∉ s.settled A) (hm : pool.graph.get? id = none) :
    resolveModule pool A s id = .ok (some (.unknown id), s) := by
  have hnew : ¬ (id ∈ s.done ∨ id ∈ A) := hid
  rw [resolveModule, dif_neg hnew]
  split
  · rfl
  · next n hn =>
    rw [hm] at hn
    cases hn

/-- The requirements of a module are wired while it is in progress itself. -/
theorem resolveModule_of_known {m : Module} (hid : id ∉ s.settled A)
    (hm : pool.graph.get? id = some m) :
    resolveModule pool A s id = do
      let (p, t) ← wireAll pool (resolveModule pool (id :: A)) (id :: A) id s m.requirements
      if p.unsatisfied.isEmpty then
        return (none, { t with resolved := t.resolved ++ [(id, p.wires)], done := id :: t.done })
      else
        return (some (.unsatisfied m.identity p.unsatisfied),
          if p.permanent then { t with failed := id :: t.failed } else t) := by
  have hnew : ¬ (id ∈ s.done ∨ id ∈ A) := hid
  rw [resolveModule, dif_neg hnew]
  split
  · next hn =>
    rw [hm] at hn
    cases hn
  · next n hn =>
    obtain rfl := Option.some.inj (hm.symm.trans hn)
    rfl

/-- **Nested searches never come to the limit** when it exceeds the number of modules that are not
in progress, and what is in progress is the same afterwards. -/
theorem searchWithin_eq (hlimit : (unentered pool.graph A).length < limit) :
    (searchWithin pool limit).Carries A (resolveModule pool A) := by
  induction limit generalizing A with
  | zero => exact absurd hlimit (Nat.not_lt_zero _)
  | succ limit ih =>
    intro s id
    unfold searchWithin
    by_cases hid : id ∈ s.settled A
    · refine (if_pos hid).trans ?_
      rw [resolveModule_of_settled hid]
      rfl
    · refine (if_neg hid).trans ?_
      cases hm : pool.graph.get? id with
      | none =>
        rw [resolveModule_of_unknown hid hm]
        rfl
      | some m =>
        -- One module more is in progress, so that one less can be entered.
        have hless := unentered_cons_lt (mem_ids_of_get? hm) fun h => hid (.inr h)
        have hinner := ih (Nat.lt_of_lt_of_le hless (Nat.le_of_lt_succ hlimit))
        rw [resolveModule_of_known hid hm]
        dsimp only
        rw [Running.enter_during, hinner.wireAllRunning_eq s m.requirements]
        rcases wireAll pool (resolveModule pool (id :: A)) (id :: A) id s m.requirements with
          e | ⟨p, t⟩
        · rfl
        · simp only [carrying, Except.mapError, Except.map, bind, Except.bind,
            Running.leave_during]
          cases p.unsatisfied.isEmpty <;> cases p.permanent <;> rfl

/-- Before anything is in progress all modules can be entered. -/
theorem unentered_nil (g : Graph) : (unentered g []).length = g.size := by
  simp [unentered, Graph.ids]

theorem resolveFromWithin_eq (hlimit : pool.graph.size < limit) (s : Session)
    (ids : List ModuleId) :
    resolveFromWithin pool limit (s.during []) ids =
      ((resolveFrom pool s ids).mapError some).map (·.during []) := by
  induction ids generalizing s with
  | nil => rfl
  | cons id ids ih =>
    unfold resolveFromWithin resolveFrom
    rw [searchWithin_eq ((unentered_nil pool.graph).symm ▸ hlimit) s id]
    rcases resolveModule pool [] s id with e | ⟨_ | f, t⟩
    · rfl
    · exact ih t
    · rfl

/-- **Resolving modules never nests searches deeper than there are modules, and once more.** -/
theorem resolveWithin_eq (hlimit : pool.graph.size < limit) (ids : List ModuleId) :
    resolveWithin pool limit ids = (resolve pool ids).mapError some := by
  have hfrom := resolveFromWithin_eq hlimit {} ids
  unfold resolveWithin resolve
  rw [show ({} : Running) = ({} : Session).during [] from rfl, hfrom]
  cases resolveFrom pool {} ids <;> rfl

/-- The limit cannot be lower: the only provider belongs to a module that is not there, and is
searched for all the same. -/
example :
    let pool : Pool := {
      graph := .ofList
        [{ identity := { symbolicName := "lamp", version := .zero }
           requirements := [{ ns := "light" }] }]
      hosted := [{ ns := "light", owner := some 9 }] }
    resolveWithin pool 1 [0] = .error none ∧
      ∃ e, resolveWithin pool 2 [0] = .error (some e) :=
  ⟨rfl, _, rfl⟩

end StartOrder.Wiring
