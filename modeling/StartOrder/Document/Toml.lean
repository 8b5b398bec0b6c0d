import StartOrder.Document.Toml.Scalar
import StartOrder.Moment

/-!
# Reading TOML

A text is a sequence of lines: pairs of a key and a value, and headers that name the table to
which the following pairs belong. Keys with dots and headers create the tables between, which a
later header may still define, but nothing may be defined twice.

## Main definitions

* `Toml.value?`: a value with everything nested in it
* `Toml.Node`, `Toml.Node.update?`: the tables that are being built
* `Toml.parse?`: the document that a text denotes
-/

namespace StartOrder.Toml

/-- How deep values may be nested, and how many parts a key may have. -/
def depthLimit : Nat := 127

/-- A text without the spaces it begins with. -/
def skipSpaces (s : List Char) : List Char :=
  s.dropWhile isSpace

/-- The text behind a comment, up to the end of the line. -/
def skipComment (s : List Char) : List Char :=
  s.dropWhile isTextChar

theorem length_skipSpaces_le (s : List Char) : (skipSpaces s).length ≤ s.length :=
  Text.length_dropWhile_le _ _

theorem length_skipComment_le (s : List Char) : (skipComment s).length ≤ s.length :=
  Text.length_dropWhile_le _ _

/-- The text behind spaces, comments and line ends. -/
def skipLines : List Char → List Char
  | ' ' :: r | '\t' :: r | '\n' :: r | '\r' :: '\n' :: r => skipLines r
  | '#' :: r => skipLines (skipComment r)
  | s => s
termination_by s => s.length
decreasing_by
  all_goals simp only [List.length_cons]
  all_goals first
    | omega
    | exact Nat.lt_succ_of_le (length_skipComment_le r)

/-- The text of the next line, when at most a comment is left on this one. -/
def lineEnd? (s : List Char) : Option (List Char) :=
  let t := match skipSpaces s with
    | '#' :: r => skipComment r
    | r => r
  match t with
  | [] => some []
  | '\n' :: r | '\r' :: '\n' :: r => some r
  | _ => none

theorem length_skipLines_le (s : List Char) : (skipLines s).length ≤ s.length := by
  fun_induction skipLines s
  case case5 r _ =>
    have := length_skipComment_le r
    simp only [List.length_cons]
    omega
  case case6 => exact Nat.le_refl _
  all_goals
    simp only [List.length_cons]
    omega

theorem length_of_lineEnd? {s r : List Char} (h : lineEnd? s = some r) :
    r.length ≤ s.length := by
  have := length_skipSpaces_le s
  unfold lineEnd? at h
  grind [length_skipComment_le]

/-! ## Keys -/

/-- A character of a key without quotes. -/
def isKeyChar (c : Char) : Bool :=
  c.isAlphanum || c == '-' || c == '_'

/-- One part of a key. -/
def keyPart? : Text.Reader String := fun s =>
  match s with
  | '"' :: _ | '\'' :: _ => shortText? s
  | _ => (Text.run? isKeyChar).map String.ofList s

/-- The parts of a key, which dots keep apart; `limit` bounds their number. -/
def key? : (limit : Nat) → Text.Reader (List String)
  | 0, _ => none
  | limit + 1, s => do
    let (part, r) ← keyPart? (skipSpaces s)
    match skipSpaces r with
    | '.' :: q =>
      let (parts, q) ← key? limit q
      return (part :: parts, q)
    | q => return ([part], q)

theorem advances_keyPart? : Text.Reader.Advances keyPart? := by
  refine ⟨fun {s part r} h => ?_⟩
  unfold keyPart? at h
  split at h
  · exact advances_shortText?.length_lt h
  · exact advances_shortText?.length_lt h
  · exact ((Text.advances_run? _).map _).length_lt h

theorem advances_key? (limit : Nat) : (key? limit).Advances := by
  induction limit with
  | zero => exact ⟨fun h => nomatch h⟩
  | succ limit ih =>
    refine ⟨fun {s path r} h => ?_⟩
    simp only [key?, Option.bind_eq_bind, Option.bind_eq_some_iff, Prod.exists] at h
    obtain ⟨_, q, hp, h⟩ := h
    have := length_skipSpaces_le s
    have := advances_keyPart?.length_lt hp
    have := length_skipSpaces_le q
    split at h
    · next hq =>
      simp only [Option.bind_eq_some_iff, Option.pure_def, Option.some.injEq, Prod.mk.injEq,
        Prod.exists] at h
      obtain ⟨_, _, hk, -, rfl⟩ := h
      have := ih.length_lt hk
      simp only [hq, List.length_cons] at *
      omega
    · cases h
      omega

/-! ## Tables -/

/-- What a name stands for while tables are being built. -/
inductive Node where
  | value (d : Document)
  /-- A table. It is implicit until its own header comes, and `dotted` when keys with dots
  created it. -/
  | table (implicit dotted : Bool) (entries : List (String × Node))
  /-- The tables of a list, the last one first. -/
  | tables (last : List (String × Node)) (earlier : List (List (String × Node)))

namespace Node

/-- Change the table at a path with `change`, which learns whether keys with dots created it.
Missing tables on the way are created. A key with dots may only pass through implicit tables,
and the last table of a list stands for the list. -/
def update? (dotted : Bool) (change : Bool → List (String × Node) → Option (List (String × Node))) :
    (self : Bool) → List String → List (String × Node) → Option (List (String × Node))
  | self, [], es => change self es
  | _, k :: ks, es =>
    let put (n : Node) := es.map fun e => if e.1 == k then (k, n) else e
    match es.lookup k with
    | none => (update? dotted change dotted ks []).map fun sub => es ++ [(k, table true dotted sub)]
    | some (.value _) => none
    | some (.table implicit own sub) =>
      if dotted && !implicit then none
      else (update? dotted change own ks sub).map fun sub => put (table implicit own sub)
    | some (.tables last earlier) =>
      (update? dotted change false ks last).map fun last => put (tables last earlier)

/-- Put a value behind a key with dots into a table on one line. -/
def insert? (key : String) (d : Document) (above : List String) (es : List (String × Node)) :
    Option (List (String × Node)) :=
  update? true (fun _ es =>
    if (es.lookup key).isSome then none else some (es ++ [(key, value d)])) false above es

mutual
/-- The document that a node has become. -/
def toDocument : Node → Document
  | value d => d
  | table _ _ es => .table (entriesToDocuments es)
  | tables last earlier => .list (tablesToDocuments earlier [.table (entriesToDocuments last)])

/-- The entries that nodes have become. -/
def entriesToDocuments : List (String × Node) → List (String × Document)
  | [] => []
  | (k, n) :: es => (k, toDocument n) :: entriesToDocuments es

/-- The tables of a list, from the last to the first, put before those already there. -/
def tablesToDocuments : List (List (String × Node)) → List Document → List Document
  | [], acc => acc
  | t :: ts, acc => tablesToDocuments ts (.table (entriesToDocuments t) :: acc)
end

end Node

/-! ## Values -/

/-- A reader of values that can be repeated. -/
abbrev ValueReader := { p : Text.Reader Document // p.Advances }

/-- The values of a list behind its opening bracket, put behind those already read. -/
def items? (value? : ValueReader) (acc : List Document) : Text.Reader (List Document) := fun s =>
  match skipLines s with
  | ']' :: r => some (acc.reverse, r)
  | _ =>
    match h : value?.1 (skipLines s) with
    | none => none
    | some (d, r) =>
      match hr : skipLines r with
      | ',' :: q =>
        have : q.length < s.length := by
          have := value?.2.length_lt h
          have := length_skipLines_le s
          have := length_skipLines_le r
          simp only [hr, List.length_cons] at this
          omega
        items? value? (d :: acc) q
      | ']' :: q => some ((d :: acc).reverse, q)
      | _ => none
termination_by s => s.length

/-- A pair of a key and a value. -/
def pair? (value? : ValueReader) : Text.Reader (List String × Document) := fun s => do
  let (path, r) ← key? depthLimit s
  let r ← Text.behind? '=' r
  let (d, r) ← value?.1 (skipSpaces r)
  return ((path, d), r)

theorem advances_pair? (value? : ValueReader) : (pair? value?).Advances := by
  refine ⟨fun {s e r} h => ?_⟩
  simp only [pair?, Option.bind_eq_bind, Option.bind_eq_some_iff, Option.pure_def,
    Option.some.injEq, Prod.mk.injEq, Prod.exists] at h
  obtain ⟨_, _, hk, q, hb, _, _, hv, -, rfl⟩ := h
  have := (advances_key? _).length_lt hk
  have := Text.length_of_behind? hb
  have := length_skipSpaces_le q
  have := value?.2.length_lt hv
  omega

/-- The pairs of a table on one line, put behind those already read. -/
def pairs? (value? : ValueReader) (acc : List (String × Node)) :
    Text.Reader (List (String × Node)) := fun s =>
  match h : pair? value? s with
  | none => none
  | some ((path, d), r) =>
    match Node.insert? (path.getLast?.getD "") d path.dropLast acc with
    | none => none
    | some acc =>
      match hr : skipSpaces r with
      | ',' :: q =>
        have : q.length < s.length := by
          have := (advances_pair? value?).length_lt h
          have := length_skipSpaces_le r
          simp only [hr, List.length_cons] at this
          omega
        pairs? value? acc q
      | '}' :: q => some (acc, q)
      | _ => none
termination_by s => s.length

theorem advances_items? (value? : ValueReader) (acc : List Document) :
    (items? value? acc).Advances := by
  refine ⟨fun {s ds r} h => ?_⟩
  fun_induction items? value? acc s with
  | case1 _ s _ hq =>
    have := length_skipLines_le s
    simp only [hq, List.length_cons] at this
    cases h
    omega
  | case3 _ _ _ _ _ _ _ hlt _ ih => exact Nat.lt_trans (ih h) hlt
  | case4 _ s _ r hd _ hq =>
    have := length_skipLines_le s
    have := value?.2.length_lt hd
    have := length_skipLines_le r
    simp only [hq, List.length_cons] at this
    cases h
    omega
  | _ => cases h

theorem advances_pairs? (value? : ValueReader) (acc : List (String × Node)) :
    (pairs? value? acc).Advances := by
  refine ⟨fun {s es r} h => ?_⟩
  fun_induction pairs? value? acc s with
  | case3 _ _ _ _ _ _ _ _ _ _ hlt ih => exact Nat.lt_trans (ih h) hlt
  | case4 _ s _ _ r hp _ _ _ hq =>
    have := (advances_pair? value?).length_lt hp
    have := length_skipSpaces_le r
    simp only [hq, List.length_cons] at this
    cases h
    omega
  | _ => cases h

/-- A value that holds no other values. -/
def scalar? : Text.Reader Document := fun s =>
  match s with
  | '"' :: _ | '\'' :: _ => text?.map .text s
  | 't' :: 'r' :: 'u' :: 'e' :: r => some (.boolean true, r)
  | 'f' :: 'a' :: 'l' :: 's' :: 'e' :: r => some (.boolean false, r)
  | _ =>
    match Moment.read? s with
    | some (t, r) => some (.moment t, r)
    | none => number? s

/-- A table on one line behind its opening brace. -/
def table? (value? : ValueReader) : Text.Reader Document := fun s =>
  match skipSpaces s with
  | '}' :: r => some (.table [], r)
  | r => (pairs? value? []).map (fun es => .table (Node.entriesToDocuments es)) r

/-- A value, of which the values in it are read with `value?`. -/
def valueWith? (value? : ValueReader) : Text.Reader Document
  | '[' :: r => (items? value? []).map .list r
  | '{' :: r => table? value? r
  | s => scalar? s

theorem advances_scalar? : Text.Reader.Advances scalar? := by
  refine ⟨fun {s d r} h => ?_⟩
  unfold scalar? at h
  split at h
  · exact (advances_text?.map _).length_lt h
  · exact (advances_text?.map _).length_lt h
  · cases h
    simp only [List.length_cons]
    omega
  · cases h
    simp only [List.length_cons]
    omega
  · split at h
    · next hm =>
      cases h
      exact Moment.advances_read?.length_lt hm
    · exact advances_number?.length_lt h

theorem advances_table? (value? : ValueReader) : (table? value?).Advances := by
  refine ⟨fun {s d r} h => ?_⟩
  have := length_skipSpaces_le s
  unfold table? at h
  split at h
  · next hs =>
    cases h
    simp only [hs, List.length_cons] at this
    omega
  · have := ((advances_pairs? value? []).map _).length_lt h
    omega

theorem advances_valueWith? (value? : ValueReader) : (valueWith? value?).Advances := by
  refine ⟨fun {s d r} h => ?_⟩
  unfold valueWith? at h
  split at h
  · exact Nat.lt_succ_of_lt (((advances_items? value? []).map _).length_lt h)
  · exact Nat.lt_succ_of_lt ((advances_table? value?).length_lt h)
  · exact advances_scalar?.length_lt h

/-- A value; `depth` bounds the lists and tables in one another. -/
def value? : (depth : Nat) → ValueReader
  | 0 => ⟨scalar?, advances_scalar?⟩
  | depth + 1 => ⟨valueWith? (value? depth), advances_valueWith? _⟩

/-! ## Headers and pairs -/

/-- The tables read so far and the table that takes the next pairs, with its path from the root
and whether it goes to the end of a list. The path is empty before the first header. -/
structure Builder where
  root : List (String × Node) := []
  path : List String := []
  inList : Bool := false
  current : List (String × Node) := []

namespace Builder

/-- Put the current table where it belongs. -/
def finish? (b : Builder) : Option (List (String × Node)) :=
  match b.path.getLast? with
  | none => some b.current
  | some key =>
    Node.update? false (fun _ es =>
      if b.inList then
        match es.lookup key with
        | none => some (es ++ [(key, .tables b.current [])])
        | some (.tables last earlier) =>
          some (es.map fun e =>
            if e.1 == key then (key, .tables b.current (last :: earlier)) else e)
        | some _ => none
      else if (es.lookup key).isSome then none
      else some (es ++ [(key, .table false false b.current)]))
      false b.path.dropLast b.root

/-- Begin the table that a header names. One that is only implicit so far is taken over. -/
def startTable? (b : Builder) (path : List String) : Option Builder := do
  let root ← b.finish?
  let key ← path.getLast?
  -- the entries of the table to take over, read before it is taken out
  let rec entriesAt (es : List (String × Node)) : List String → List (String × Node)
    | [] => match es.lookup key with
      | some (.table _ _ sub) => sub
      | _ => []
    | k :: ks => match es.lookup k with
      | some (.table _ _ sub) => entriesAt sub ks
      | some (.tables last _) => entriesAt last ks
      | _ => []
  let current := entriesAt root path.dropLast
  let root ← Node.update? false (fun _ es =>
    match es.lookup key with
    | none => some es
    | some (.table true false _) => some (es.filter (·.1 != key))
    | some _ => none) false path.dropLast root
  return { root, path, inList := false, current }

/-- Begin the next table of the list that a header names. -/
def startListed? (b : Builder) (path : List String) : Option Builder := do
  let root ← b.finish?
  let key ← path.getLast?
  let root ← Node.update? false (fun _ es =>
    match es.lookup key with
    | none | some (.tables _ _) => some es
    | some _ => none) false path.dropLast root
  return { root, path, inList := true, current := [] }

/-- Put a pair into the current table. -/
def insert? (b : Builder) (path : List String) (d : Document) : Option Builder := do
  let key ← path.getLast?
  let above := path.dropLast
  let current ← Node.update? true (fun dotted es =>
    if dotted == above.isEmpty || (es.lookup key).isSome then none
    else some (es ++ [(key, .value d)])) false above b.current
  return { b with current }

end Builder

/-! ## Lines -/

/-- Read one line that is not empty: a header or a pair. -/
def line? (b : Builder) : Text.Reader Builder
  | '[' :: '[' :: r => do
    let (path, r) ← key? depthLimit r
    let r ← Text.behind? ']' r
    let r ← Text.behind? ']' r
    return (← b.startListed? path, ← lineEnd? r)
  | '[' :: r => do
    let (path, r) ← key? depthLimit r
    let r ← Text.behind? ']' r
    return (← b.startTable? path, ← lineEnd? r)
  | s => do
    let ((path, d), r) ← pair? (value? depthLimit) s
    return (← b.insert? path d, ← lineEnd? r)

theorem length_of_line? {b b' : Builder} {s r : List Char} (h : line? b s = some (b', r)) :
    r.length < s.length := by
  unfold line? at h
  split at h
  all_goals simp only [Option.bind_eq_bind, Option.bind_eq_some_iff, Option.pure_def,
    Option.some.injEq, Prod.mk.injEq, Prod.exists] at h
  · obtain ⟨_, _, hk, _, h₁, _, h₂, _, -, _, he, -, rfl⟩ := h
    have := (advances_key? _).length_lt hk
    have := Text.length_of_behind? h₁
    have := Text.length_of_behind? h₂
    have := length_of_lineEnd? he
    simp only [List.length_cons]
    omega
  · obtain ⟨_, _, hk, _, h₁, _, -, _, he, -, rfl⟩ := h
    have := (advances_key? _).length_lt hk
    have := Text.length_of_behind? h₁
    have := length_of_lineEnd? he
    simp only [List.length_cons]
    omega
  · obtain ⟨_, _, _, hp, _, -, _, he, -, rfl⟩ := h
    have := (advances_pair? _).length_lt hp
    have := length_of_lineEnd? he
    omega

/-- Read all lines. -/
def lines? (b : Builder) (s : List Char) : Option Builder :=
  if (skipLines s).isEmpty then some b
  else
    match h : line? b (skipLines s) with
    | none => none
    | some (b, r) =>
      have : r.length < s.length :=
        Nat.lt_of_lt_of_le (length_of_line? h) (length_skipLines_le s)
      lines? b r
termination_by s.length

/-- The document that a text denotes. A byte order mark at the start does not count. -/
def parse? (text : String) : Option Document := do
  let s := text.toList
  let s := if s.head? = some '\uFEFF' then s.drop 1 else s
  let b ← lines? {} s
  let es ← b.finish?
  return .table (Node.entriesToDocuments es)

end StartOrder.Toml
