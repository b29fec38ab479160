import ProxyLint.Violation

/-!
# Reduced reports

A report can keep every violation, one for each rule, context, file and line, or
one for each rule. A group is represented by its first member, and groups come
in the order of their first members.

Occurrences are added up as machine words. The violations that an analysis finds
are single and are held in memory, so that their sums are exact; those of reports
that have been reduced before and are put together need not be.

## Main definitions

* `ProxyLint.Report.key?` — what the members of a group agree in.
* `ProxyLint.Report.reduceM` — the report with one violation for each group,
  whatever becomes of a sum.
* `ProxyLint.Report.reduce` — the same, with exact sums.
* `ProxyLint.Report.reduceWords` — the same, with sums of machine words.
* `ProxyLint.Report.total` — how many violations a report stands for.
* `ProxyLint.Report.countAt`, `ProxyLint.Report.hasAtLeast` — what a report
  holds at a severity.
-/

set_option relaxedAutoImplicit false
set_option autoImplicit false

namespace ProxyLint.Report

/-- What the members of a group agree in. -/
inductive Key where
  /-- The violations of one rule with one context on one line. -/
  | place (rule context : String) (file? : Option String) (line? : Option Nat)
  /-- The violations of one rule. -/
  | rule (id : String)
  deriving DecidableEq, Repr, Inhabited

/-- The group of a violation: none if every violation stands for itself. -/
def key? (verbosity : Verbosity) (v : Violation) : Option Key :=
  match verbosity with
  | .full => none
  | .grouped => some (.place v.rule.id v.context v.file? v.line?)
  | .minimized => some (.rule v.rule.id)

/-- The groups so far, each with its key, its first member and its size. -/
structure Group where
  /-- What the members agree in. -/
  key : Key
  /-- The first member. -/
  first : Violation
  /-- How many violations the members stand for. -/
  total : Nat
  deriving DecidableEq, Repr, Inhabited

/-- The first member of a group, standing for all of them. A group whose size is 0 after its sum
has been wrapped leaves its first member as it is. -/
def Group.violation (g : Group) : Violation :=
  if h : 0 < g.total then { g.first with count? := some ⟨g.total, h⟩ } else g.first

section Sums

variable {m : Type → Type} [Monad m] (word : Nat → m Nat)

/-- Adds a violation to its group, or opens a group for it. `word` is what becomes of a sum. -/
def addToM (k : Key) (v : Violation) : List Group → m (List Group)
  | [] => return [⟨k, v, v.occurrences⟩]
  | g :: gs =>
    if g.key = k then do
      let total ← word (g.total + v.occurrences)
      return { g with total } :: gs
    else do
      let gs ← addToM k v gs
      return g :: gs

/-- The violations collected into groups. -/
def groupsM (verbosity : Verbosity) (vs : List Violation) : m (List Group) :=
  vs.foldlM (fun gs v =>
    match key? verbosity v with
    | some k => addToM word k v gs
    | none => return gs) []

/-- The report with one violation for each group. -/
def reduceM (verbosity : Verbosity) (vs : List Violation) : m (List Violation) :=
  match verbosity with
  | .full => return vs
  | _ => do
    let gs ← groupsM word verbosity vs
    return gs.map Group.violation

end Sums

/-- The report with one violation for each group, with exact sums. -/
def reduce (verbosity : Verbosity) (vs : List Violation) : List Violation :=
  (reduceM (m := Id) pure verbosity vs).run

/-! ### Machine words -/

/-- The number of machine words of 64 bits, which are what occurrences are counted in. -/
def wordCount : Nat :=
  UInt64.size

/-- What a program does with a sum for which there is no machine word. -/
inductive Overflow where
  /-- It stops, as a program that is built with checks does. -/
  | stops
  /-- It goes on with the remainder. -/
  | wraps
  deriving DecidableEq, Repr, Inhabited

/-- The machine word that a sum comes to; none if the program stops. -/
def Overflow.word (o : Overflow) (n : Nat) : Option Nat :=
  match o with
  | .stops => if n < wordCount then some n else none
  | .wraps => some (n % wordCount)

/-- The report with one violation for each group, with occurrences added up as machine words;
none if the program stops. As long as there is a word for the size of each group, this is the
report with exact sums. -/
def reduceWords (o : Overflow) (verbosity : Verbosity) (vs : List Violation) :
    Option (List Violation) :=
  reduceM o.word verbosity vs

/-! ### Counts -/

/-- How many violations the report stands for. -/
def total : List Violation → Nat
  | [] => 0
  | v :: vs => v.occurrences + total vs

/-- How many violations of a severity the report stands for. -/
def countAt (vs : List Violation) (s : Severity) : Nat :=
  total (vs.filter fun v => v.rule.severity = s)

/-- Whether the report holds a violation of at least the given severity. -/
def hasAtLeast (vs : List Violation) (s : Severity) : Bool :=
  vs.any fun v => s.rank ≤ v.rule.severity.rank

end ProxyLint.Report
