import ProxyLint.Toml.Scalar

/-!
# Tables of a TOML document

A table comes to be in one of four ways, and how it came to be decides what may
still be added to it: an inline table is complete, a table with a header is not
extended by dotted keys from outside, a table that a header only passed through
may still get its own header, and a table of dotted keys gets none.

## Main definitions

* `ProxyLint.Toml.Value` — a value: a scalar, an array or a table.
* `ProxyLint.Toml.Members` — the members of a table.
* `ProxyLint.Toml.Members.assign` — gives a dotted key its value.
* `ProxyLint.Toml.Members.openTable`, `openTables` — what headers do.
-/

set_option relaxedAutoImplicit false
set_option autoImplicit false

namespace ProxyLint.Toml

/-- How a table came to be. -/
inductive Origin where
  /-- Written in braces. -/
  | inline
  /-- By a header of its own. -/
  | header
  /-- By the header of a table inside it. -/
  | implied
  /-- By a dotted key. -/
  | dotted
  deriving DecidableEq, Repr, Inhabited

/-- A value of a document. -/
inductive Value where
  | scalar (s : Scalar)
  | array (items : List Value)
  | table (origin : Origin) (members : List (String × Value))
  /-- A list of tables with headers: the earlier ones and the last one. -/
  | tables (earlier : List (List (String × Value))) (last : List (String × Value))
  deriving Repr, Inhabited

/-- The members of a table, each name once. -/
abbrev Members := List (String × Value)

namespace Members

/-- The value of a name. -/
def get? (ms : Members) (name : String) : Option Value :=
  (ms.find? fun m => m.1 == name).map Prod.snd

/-- Gives a name its value, in the place of the value it had. -/
def set (ms : Members) (name : String) (v : Value) : Members :=
  match ms with
  | [] => [(name, v)]
  | m :: rest => if m.1 == name then (name, v) :: rest else m :: set rest name v

/-- A member that has been set has its new value. -/
@[simp] theorem get?_set_self (ms : Members) (name : String) (v : Value) :
    (ms.set name v).get? name = some v := by
  induction ms with
  | nil => simp [set, get?]
  | cons m rest ih =>
    unfold set
    split
    · simp [get?]
    · next h => simpa [get?, h] using ih

/-- The other members keep their values. -/
theorem get?_set_of_ne (ms : Members) {name other : String} (v : Value) (h : other ≠ name) :
    (ms.set name v).get? other = ms.get? other := by
  have hne : (name == other) = false := by simpa using Ne.symm h
  induction ms with
  | nil => simp [set, get?, hne]
  | cons m rest ih =>
    unfold set
    split
    · next hm =>
      have hm' : (m.1 == other) = false := by simpa [eq_of_beq hm] using Ne.symm h
      simp [get?, hne, hm']
    · by_cases hm : (m.1 == other) = true
      · simp [get?, hm]
      · simpa [get?, hm] using ih

/-- Whether a dotted key may go on inside a table, given whether its last part
names a member of that table. -/
def admits (origin : Origin) (isLast : Bool) : Bool :=
  match origin with
  | .dotted => true
  | .implied => !isLast
  | .header | .inline => false

/-- Gives a dotted key its value; a key has a value only once. -/
def assign (ms : Members) : List String → Value → Option Members
  | [], _ => none
  | [name], v => if (ms.get? name).isSome then none else some (ms.set name v)
  | name :: next :: rest, v =>
    match ms.get? name with
    | none => (assign [] (next :: rest) v).map fun inner => ms.set name (.table .dotted inner)
    | some (.table origin inner) =>
      if admits origin rest.isEmpty then
        (assign inner (next :: rest) v).map fun inner => ms.set name (.table origin inner)
      else none
    | some (.tables earlier last) =>
      if rest.isEmpty then none
      else (assign last (next :: rest) v).map fun last => ms.set name (.tables earlier last)
    | some _ => none

/-- Changes the members of the table of a name, which a header passes through. -/
def inside (ms : Members) (name : String) (f : Members → Option Members) : Option Members :=
  match ms.get? name with
  | none => (f []).map fun inner => ms.set name (.table .implied inner)
  | some (.table .inline _) => none
  | some (.table origin inner) => (f inner).map fun inner => ms.set name (.table origin inner)
  | some (.tables earlier last) => (f last).map fun last => ms.set name (.tables earlier last)
  | some _ => none

/-- Changes the members of the table that a path leads to. -/
def within (ms : Members) (f : Members → Option Members) : List String → Option Members
  | [] => f ms
  | name :: rest => ms.inside name fun inner => within inner f rest

/-- Opens the table of a name. -/
def openHere (ms : Members) (name : String) : Option Members :=
  match ms.get? name with
  | none => some (ms.set name (.table .header []))
  | some (.table .implied inner) => some (ms.set name (.table .header inner))
  | some _ => none

/-- Adds a table to the list of tables of a name. -/
def openHereAgain (ms : Members) (name : String) : Option Members :=
  match ms.get? name with
  | none => some (ms.set name (.tables [] []))
  | some (.tables earlier last) => some (ms.set name (.tables (earlier ++ [last]) []))
  | some _ => none

/-- Does what a header asks for with the last name of its path. -/
def atLast (ms : Members) (path : List String) (f : Members → String → Option Members) :
    Option Members :=
  match path.getLast? with
  | none => none
  | some name => ms.within (fun inner => f inner name) path.dropLast

/-- What the header of a table does. -/
def openTable (ms : Members) (path : List String) : Option Members :=
  ms.atLast path openHere

/-- What the header of one of several tables does. -/
def openTables (ms : Members) (path : List String) : Option Members :=
  ms.atLast path openHereAgain

end Members

end ProxyLint.Toml
