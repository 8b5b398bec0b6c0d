import StartOrder.Manifest.Conversion
import StartOrder.Proofs.Success

/-!
# Attributes that fit their types

The name of an attribute may end with its type, and the value has to fit it. Texts, integers, floats
and booleans have a text; moments, lists, tables and null have none. A value of type `Long` is an
integer or has a text that denotes one, and a value of type `Version` has a text that denotes a
version. A value of type `String` only has to have a text, one of type `List<String>` may also be a
list of values that have, and the same goes for an attribute without a type. A value that fits is
all that the conversion of an attribute asks for, so that an entry is converted when each of its
attributes fits its type, and fails otherwise.

## Main definitions

* `Manifest.HasText d s`: a document is a text, an integer, a float or a boolean, with the text `s`
* `Manifest.Fits type d`: a document fits the type of an attribute
* `ContractEntry.Fits`: all attributes of an entry fit their types

## Main results

* `Manifest.exists_typedValue_iff`, `Manifest.exists_typedAttributes_iff`: attributes are converted
  when they fit
* `Manifest.exists_capability_iff`, `Manifest.exists_requirement_iff`: so are entries
-/

namespace StartOrder

namespace Manifest

/-- A document is a text, an integer, a float or a boolean, and has the given text. -/
inductive HasText : Document → String → Prop
  | text (s : String) : HasText (.text s) s
  | integer (n : Int) : HasText (.integer n) n.repr
  | float (x : Binary64) : HasText (.float x) x.render
  | boolean (b : Bool) : HasText (.boolean b) (if b then "true" else "false")

/-- Documents are texts, integers, floats and booleans. -/
def AreSingle (ds : List Document) : Prop :=
  ∀ d ∈ ds, ∃ s, HasText d s

/-- A document fits the type of an attribute, or the lack of one. -/
inductive Fits : Option String → Document → Prop
  | untyped {d : Document} {s : String} (h : HasText d s) : Fits none d
  | untypedList {ds : List Document} (h : AreSingle ds) : Fits none (.list ds)
  | string {d : Document} {s : String} (h : HasText d s) : Fits (some "String") d
  | list {ds : List Document} (h : AreSingle ds) : Fits (some "List<String>") (.list ds)
  /-- The text of a value that is no list is cut at its commas. -/
  | commas {d : Document} {s : String} (h : HasText d s) : Fits (some "List<String>") d
  | integer (n : Int) : Fits (some "Long") (.integer n)
  | long {d : Document} {s : String} {n : Int} (h : HasText d s)
      (hn : Text.signed64? (Text.trim s.toList) = some n) : Fits (some "Long") d
  | version {d : Document} {s : String} {v : Version} (h : HasText d s)
      (hv : Version.parse s = .ok v) : Fits (some "Version") d

variable {name s : String} {d : Document} {ds : List Document} {type : Option String}

theorem scalarText_eq_ok_iff : scalarText name d = .ok s ↔ HasText d s := by
  constructor
  · intro h
    unfold scalarText at h
    split at h <;> cases h
    · exact .text s
    · exact .integer _
    · exact .float _
    · exact .boolean _
  · rintro ⟨⟩ <;> rfl

theorem exists_mapM_scalarText_iff :
    (∃ ss, ds.mapM (scalarText name) = .ok ss) ↔ AreSingle ds := by
  simp only [exists_mapM_eq_ok_iff, scalarText_eq_ok_iff, AreSingle]

/-- A value that is converted fits its type. -/
theorem fits_of_typedValue {x : AttributeValue} (h : typedValue name type d = .ok x) :
    Fits type d := by
  -- The conversion goes through the types in the order of these cases, and takes the form of the
  -- document into account only for numbers and lists.
  unfold typedValue at h
  split at h
  case h_1 =>
    obtain ⟨s, hs, h⟩ := bind_eq_ok_iff.1 h
    obtain ⟨v, hv, -⟩ := bind_eq_ok_iff.1 h
    exact .version (scalarText_eq_ok_iff.1 hs) (mapError_eq_ok_iff.1 hv)
  case h_2 n => exact .integer n
  case h_3 =>
    obtain ⟨s, hs, h⟩ := bind_eq_ok_iff.1 h
    cases hn : Text.signed64? (Text.trim s.toList) with
    | none => simp [hn, throw, throwThe, MonadExceptOf.throw] at h
    | some n => exact .long (scalarText_eq_ok_iff.1 hs) hn
  case h_4 =>
    obtain ⟨s, hs, -⟩ := map_eq_ok_iff.1 h
    exact .string (scalarText_eq_ok_iff.1 hs)
  case h_5 ds =>
    obtain ⟨ss, hss, -⟩ := map_eq_ok_iff.1 h
    exact .list (exists_mapM_scalarText_iff.1 ⟨ss, hss⟩)
  case h_6 ds =>
    obtain ⟨ss, hss, -⟩ := map_eq_ok_iff.1 h
    exact .untypedList (exists_mapM_scalarText_iff.1 ⟨ss, hss⟩)
  case h_7 =>
    obtain ⟨s, hs, -⟩ := bind_eq_ok_iff.1 h
    exact .commas (scalarText_eq_ok_iff.1 hs)
  case h_8 => cases h
  case h_9 n => exact .untyped (.integer n)
  case h_10 =>
    obtain ⟨s, hs, -⟩ := map_eq_ok_iff.1 h
    exact .untyped (scalarText_eq_ok_iff.1 hs)

/-- A value that fits its type is converted. -/
theorem exists_typedValue_of_fits (h : Fits type d) : ∃ x, typedValue name type d = .ok x := by
  cases h with
  | @untyped _ s h =>
    cases h <;> exact ⟨_, rfl⟩
  | @untypedList ds h =>
    obtain ⟨ss, hss⟩ : ∃ ss, ds.mapM (scalarText name) = .ok ss :=
      exists_mapM_scalarText_iff.2 h
    exact ⟨.list ss, by rw [typedValue, hss]; rfl⟩
  | @string _ s h => exact ⟨.text s, by rw [typedValue, scalarText_eq_ok_iff.2 h]; rfl⟩
  | @list ds h =>
    obtain ⟨ss, hss⟩ : ∃ ss, ds.mapM (scalarText name) = .ok ss :=
      exists_mapM_scalarText_iff.2 h
    exact ⟨.list ss, by rw [typedValue, hss]; rfl⟩
  | @commas _ s h => cases h <;> exact ⟨_, rfl⟩
  | integer n => exact ⟨.long n, rfl⟩
  | @long _ s n h hn =>
    cases h with
    | integer m => exact ⟨.long m, rfl⟩
    | _ =>
      refine ⟨.long n, bind_eq_ok_iff.2 ⟨_, rfl, ?_⟩⟩
      rw [hn]
      rfl
  | @version _ s v h hv =>
    have hread : Error.readVersion s = .ok v := mapError_eq_ok_iff.2 hv
    refine ⟨.version v, ?_⟩
    rw [typedValue, scalarText_eq_ok_iff.2 h]
    exact bind_eq_ok_iff.2 ⟨s, rfl, bind_eq_ok_iff.2 ⟨v, hread, rfl⟩⟩

/-- **A value is converted when it fits its type.** -/
theorem exists_typedValue_iff : (∃ x, typedValue name type d = .ok x) ↔ Fits type d :=
  ⟨fun ⟨_, h⟩ => fits_of_typedValue h, exists_typedValue_of_fits⟩

/-- **Attributes are converted when each of them fits its type.** -/
theorem exists_typedAttributes_iff {raw : Dictionary Document} :
    (∃ a, typedAttributes raw = .ok a) ↔
      ∀ key d, raw.get? key = some d → Fits (splitName key).2 d := by
  rw [typedAttributes,
    exists_foldlM_eq_ok_iff (P := fun entry => Fits (splitName entry.1).2 entry.2)]
  · simp only [Prod.forall, Dictionary.mem_entries_iff]
  · rintro ⟨key, d⟩ - a
    exact exists_bind_pure_eq_ok_iff.trans exists_typedValue_iff

end Manifest

/-- Each attribute of an entry fits the type that follows its name. -/
def ContractEntry.Fits (e : ContractEntry) : Prop :=
  ∀ key d, e.attributes.get? key = some d → Manifest.Fits (Manifest.splitName key).2 d

namespace Manifest

variable {e : ContractEntry}

theorem exists_capability_iff : (∃ c, capability e = .ok c) ↔ e.Fits := by
  rw [ContractEntry.Fits, ← exists_typedAttributes_iff]
  exact exists_bind_pure_eq_ok_iff

theorem exists_requirement_iff : (∃ r, requirement e = .ok r) ↔ e.Fits := by
  rw [ContractEntry.Fits, ← exists_typedAttributes_iff]
  exact exists_bind_pure_eq_ok_iff

instance : Decidable e.Fits :=
  decidable_of_iff ((capability e).isOk = true) (isOk_iff.trans exists_capability_iff)

end Manifest

end StartOrder
