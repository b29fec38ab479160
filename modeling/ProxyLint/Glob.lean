import ProxyLint.FileTree

/-!
# File name patterns

A pattern is a path whose components may hold wildcards: `?` is any character,
`*` any run of characters, `[a-z]` and `[!a-z]` a character in or out of a set,
and a whole component `**` any number of directories. Every component is read
before any directory is searched, so a malformed one is found even where nothing
could match.

## Main definitions

* `ProxyLint.Glob.Token`, `ProxyLint.Glob.Component` — a pattern once read.
* `ProxyLint.Glob.read?` — reads a pattern; `none` if it is malformed.
* `ProxyLint.Glob.accepts` — whether a file name fits one component.
* `ProxyLint.Glob.expand?` — the existing paths that fit a pattern.

## Main results

* `ProxyLint.Glob.accepts_nil`, `ProxyLint.Glob.accepts_many_cons`,
  `ProxyLint.Glob.accepts_cons_cons` — what fits, unit by unit.
-/

set_option relaxedAutoImplicit false
set_option autoImplicit false

namespace ProxyLint.Glob

/-- A member of a bracketed set. -/
inductive Member where
  /-- One character. -/
  | single (c : Char)
  /-- All characters between two, both included. -/
  | range (first last : Char)
  deriving DecidableEq, Repr, Inhabited

/-- A unit of a component. -/
inductive Token where
  /-- Exactly this character. -/
  | exactly (c : Char)
  /-- Any one character. -/
  | one
  /-- Any run of characters, also the empty one. -/
  | many
  /-- One character of the set. -/
  | within (set : List Member)
  /-- One character outside the set. -/
  | outside (set : List Member)
  deriving DecidableEq, Repr, Inhabited

/-- A component of a pattern. -/
inductive Component where
  /-- A name without wildcards. -/
  | literal (name : String)
  /-- A name with wildcards. -/
  | wild (tokens : List Token)
  /-- Any number of directories, `**`. -/
  | deep
  deriving DecidableEq, Repr, Inhabited

/-! ### Reading -/

/-- The members of a bracketed set. -/
def members : List Char → List Member
  | a :: '-' :: b :: rest => .range a b :: members rest
  | a :: rest => .single a :: members rest
  | [] => []

/-- Reads a set up to its closing bracket. The first character belongs to the
set even if it is a bracket. -/
def readSet? : List Char → Option (List Member × List Char)
  | [] => none
  | first :: rest =>
    match rest.dropWhile (· != ']') with
    | [] => none
    | _ :: after => some (members (first :: rest.takeWhile (· != ']')), after)

/-- What is left behind a set is shorter than the pattern. -/
theorem readSet?_length {cs rest : List Char} {set : List Member}
    (h : readSet? cs = some (set, rest)) : rest.length < cs.length := by
  cases cs with
  | nil => simp [readSet?] at h
  | cons c cs =>
    simp only [readSet?] at h
    split at h
    · cases h
    · next b after hd =>
      cases h
      have := (List.dropWhile_suffix (l := cs) (· != ']')).length_le
      rw [hd] at this
      simp only [List.length_cons] at *
      omega

/-- The units of a component; `none` if a bracket is never closed or two stars
stand together. -/
def tokens? (cs : List Char) : Option (List Token) :=
  match cs with
  | [] => some []
  | '?' :: rest => (tokens? rest).map (.one :: ·)
  | '*' :: rest => if rest.head? == some '*' then none else (tokens? rest).map (.many :: ·)
  | '[' :: '!' :: rest =>
    match h : readSet? rest with
    | some (set, after) =>
      have := readSet?_length h
      (tokens? after).map (.outside set :: ·)
    | none => none
  | '[' :: rest =>
    match h : readSet? rest with
    | some (set, after) =>
      have := readSet?_length h
      (tokens? after).map (.within set :: ·)
    | none => none
  | c :: rest => (tokens? rest).map (.exactly c :: ·)
termination_by cs.length
decreasing_by all_goals simp_wf <;> omega

/-- The characters of units that are all exact. -/
def exactText? : List Token → Option (List Char)
  | [] => some []
  | .exactly c :: rest => (exactText? rest).map (c :: ·)
  | _ :: _ => none

/-- Reads one component. -/
def component? (text : String) : Option Component :=
  if text == "**" then some .deep
  else (tokens? text.toList).map fun ts =>
    match exactText? ts with
    | some name => .literal (String.ofList name)
    | none => .wild ts

/-- Runs of `**` mean the same as one. -/
def mergeDeep : List Component → List Component
  | .deep :: .deep :: rest => mergeDeep (.deep :: rest)
  | c :: rest => c :: mergeDeep rest
  | [] => []

/-- A pattern once read. -/
structure Pattern where
  /-- Whether the search starts at the root. -/
  absolute : Bool
  /-- What each directory level has to fit. -/
  components : List Component
  deriving DecidableEq, Repr, Inhabited

/-- Reads a pattern that is in normal form; `none` if it is malformed. -/
def read? (text : String) : Option Pattern :=
  let absolute := Path.isAbsolute text
  let body := if absolute then String.ofList (text.toList.drop 1) else text
  ((Text.fields '/' body).mapM component?).map fun cs => ⟨absolute, mergeDeep cs⟩

/-! ### Matching -/

/-- Whether a character is a member. -/
def Member.holds (c : Char) : Member → Bool
  | .single d => c == d
  | .range a b => a ≤ c && c ≤ b

/-- Whether a unit other than `*` fits a character. -/
def Token.fits (c : Char) : Token → Bool
  | .exactly d => c == d
  | .one => true
  | .many => false
  | .within set => set.any (·.holds c)
  | .outside set => !set.any (·.holds c)

/-- For each place of a row, whether there is a mark there or further on. -/
def spread : List Bool → List Bool
  | [] => []
  | m :: ms =>
    let later := spread ms
    (m || later.headD false) :: later

/-- For each suffix of a name, the longest first, whether it fits the units. A
row is filled from the row of the remaining units, so the time is the product of
the two lengths however many stars there are. -/
def marks (cs : List Char) : List Token → List Bool
  | [] => cs.map (fun _ => false) ++ [true]
  | .many :: ts => spread (marks cs ts)
  | t :: ts => List.zipWith (fun c later => t.fits c && later) cs (marks cs ts).tail ++ [false]

/-- Whether a name as a whole fits the units. -/
def accepts (ts : List Token) (cs : List Char) : Bool := (marks cs ts).headD false

/-- There is a mark for each place, however the marks are spread. -/
theorem length_spread (ms : List Bool) : (spread ms).length = ms.length := by
  induction ms with
  | nil => rfl
  | cons m ms ih => simp [spread, ih]

/-- There is one mark for each suffix. -/
theorem length_marks (cs : List Char) (ts : List Token) :
    (marks cs ts).length = cs.length + 1 := by
  induction ts with
  | nil => simp [marks]
  | cons t ts ih => cases t <;> simp [marks, length_spread, ih]

/-- The marks of a name begin with its own, and those of its tail follow. -/
theorem marks_cons (c : Char) (cs : List Char) (ts : List Token) :
    marks (c :: cs) ts = accepts ts (c :: cs) :: marks cs ts := by
  suffices h : ∃ b, marks (c :: cs) ts = b :: marks cs ts by
    obtain ⟨b, hb⟩ := h
    simp [accepts, hb]
  induction ts with
  | nil => exact ⟨false, by simp [marks]⟩
  | cons t ts ih =>
    obtain ⟨b, hb⟩ := ih
    obtain ⟨m, ms, hm⟩ : ∃ m ms, marks cs ts = m :: ms :=
      List.exists_cons_of_length_pos (by simp [length_marks])
    cases t <;> simp [marks, spread, hb, hm]

/-- The empty pattern accepts the empty name. -/
theorem accepts_nil (cs : List Char) : accepts [] cs = cs.isEmpty := by
  cases cs <;> rfl

/-- Stars accept the empty name if what follows them does. -/
theorem accepts_many_nil (ts : List Token) : accepts (.many :: ts) [] = accepts ts [] := by
  obtain ⟨m, hm⟩ : ∃ m, marks [] ts = [m] := List.length_eq_one_iff.1 (length_marks [] ts)
  simp [accepts, marks, hm, spread]

/-- A star takes nothing, or one character and then what it likes. -/
theorem accepts_many_cons (ts : List Token) (c : Char) (cs : List Char) :
    accepts (.many :: ts) (c :: cs) = (accepts ts (c :: cs) || accepts (.many :: ts) cs) := by
  have h : marks (c :: cs) (.many :: ts) =
      (accepts ts (c :: cs) || accepts (.many :: ts) cs) :: marks cs (.many :: ts) := by
    simp only [marks]
    rw [marks_cons]
    rfl
  rw [accepts, h, List.headD_cons]

/-- A token other than a star does not accept the empty name. -/
theorem accepts_cons_nil {t : Token} (h : t ≠ .many) (ts : List Token) :
    accepts (t :: ts) [] = false := by
  cases t <;> simp_all [accepts, marks]

/-- Any other unit takes one character. -/
theorem accepts_cons_cons {t : Token} (h : t ≠ .many) (ts : List Token) (c : Char)
    (cs : List Char) : accepts (t :: ts) (c :: cs) = (t.fits c && accepts ts cs) := by
  obtain ⟨m, ms, hm⟩ : ∃ m ms, marks cs ts = m :: ms :=
    List.exists_cons_of_length_pos (by simp [length_marks])
  obtain ⟨b, hb⟩ : ∃ b, marks (c :: cs) ts = b :: m :: ms := ⟨_, hm ▸ marks_cons c cs ts⟩
  cases t <;> simp_all [accepts, marks]

/-- Whether a name fits a component that is not `**`. -/
def Component.fits (name : String) : Component → Bool
  | .literal n => n == name
  | .wild ts => accepts ts name.toList
  | .deep => false

/-! ### Searching -/

/-- The path of an entry of a directory. The current directory is not spelled
out. -/
def entryPath (directory name : String) : String :=
  if Path.parts directory == [.here] then name else Path.join directory name

/-- Everything below a directory, each with its path and whether it is a
directory. -/
def everythingBelow (t : FileTree) (directory : String) : List (String × Bool) :=
  if Path.parts directory == [.here] then
    match t.find? directory with
    | some n => n.contents ""
    | none => []
  else t.below directory

/-- The names `..` and `.` that a component fits. Only a component that starts
with a dot is tried on them. -/
def dotNames (ts : List Token) : List String :=
  if ts.head? == some (.exactly '.') then ["..", "."].filter fun n => accepts ts n.toList
  else []

/-- The existing paths that fit the components, searched from a directory. Of the
names in a directory `..` and `.` come first, and a directory comes before what is
below it: paths that differ in a `.` only are found in this order. -/
def search (t : FileTree) : List Component → String → List String
  | [], path => [path]
  | .literal name :: rest, path =>
    let next := entryPath path name
    let found := if name == "." || name == ".." then t.isDir path else t.contains next
    if found then search t rest next else []
  | .wild ts :: rest, path =>
    if t.isDir path then
      let named := (t.names path).filter fun n => accepts ts n.toList
      ((dotNames ts).flatMap fun n => search t rest (Path.join path n)) ++
        named.flatMap fun n => search t rest (entryPath path n)
    else []
  | [.deep], path =>
    (everythingBelow t path).filterMap fun (p, isDirectory) => if isDirectory then some p else none
  | .deep :: c :: rest, path =>
    (everythingBelow t path).flatMap fun (p, _) =>
      if ((Path.fileName? p).map fun n => c.fits n) == some true then search t rest p else []

/-- The existing paths that fit a pattern, in path order; `none` if the pattern
is malformed. Paths that differ in a `.` only stay in the order of the search. -/
def expand? (t : FileTree) (text : String) : Option (List String) :=
  (read? text).map fun p =>
    Path.sort (search t p.components (if p.absolute then "/" else "."))

/-- Whether a text holds a wildcard. -/
def isPattern (text : String) : Bool :=
  text.toList.any fun c => c == '*' || c == '?' || c == '['

end ProxyLint.Glob
