import Mathlib.Data.List.Basic
import ProxyLint.Include

set_option relaxedAutoImplicit false
set_option autoImplicit false

/-!
# The script of a file

What a file does to an expansion is a list of actions: it adds lines, records
faults, opens included files, or gives up. The list depends on the text of the
file, on its name and on what exists in the tree; it depends neither on the
bounds nor on what has been produced before. Everything that is proved about
expansions is proved about scripts.

## Main definitions

* `ProxyLint.Include.Action` — one thing that a file does to an expansion.
* `ProxyLint.Include.Resolver.script`, `entryScript` — the actions of an included
  file and of an entry file, in order.
* `ProxyLint.Include.Resolver.run` — what carrying out actions leads to.

## Main results

* `ProxyLint.Include.Resolver.expandText_eq_run` — to expand a text is to carry
  out its script.
* `ProxyLint.Include.Resolver.resolveFile_eq_run` — so is to resolve an entry
  file, once it is read.
-/

namespace ProxyLint.Include

/-! ### Steps in order -/

section Steps

variable {α β : Type}

/-- Going on twice is going on once. -/
lemma Outcome.andThen_assoc (o : Outcome) (f g : Step) :
    (o.andThen f).andThen g = o.andThen fun e => (f e).andThen g := by
  cases o <;> rfl

/-- A step is taken after an outcome that is done. -/
@[simp] lemma Outcome.andThen_done (e : Expansion) (f : Step) :
    (Outcome.done e).andThen f = f e := rfl

/-- Actions are performed from the first on. -/
@[simp] lemma forEach_cons (f : α → Step) (a : α) (as : List α) (e : Expansion) :
    forEach f (a :: as) e = (f a e).andThen (forEach f as) := rfl

/-- The steps for two lists in a row. -/
lemma forEach_append (f : α → Step) (as bs : List α) (e : Expansion) :
    forEach f (as ++ bs) e = (forEach f as e).andThen (forEach f bs) := by
  induction as generalizing e with
  | nil => rfl
  | cons a as ih =>
    simp only [List.cons_append, forEach_cons, Outcome.andThen_assoc]
    congr 1
    funext e'
    exact ih e'

/-- A single action is performed by itself. -/
@[simp] lemma forEach_singleton (f : α → Step) (a : α) : forEach f [a] = f a := by
  funext e
  rw [forEach_cons]
  cases f a e <;> rfl

/-- The steps for the images of the members of a list. -/
lemma forEach_map (f : β → Step) (g : α → β) (as : List α) :
    forEach f (as.map g) = forEach (fun a => f (g a)) as := by
  funext e
  induction as generalizing e with
  | nil => rfl
  | cons a as ih =>
    rw [List.map_cons, forEach_cons, forEach_cons]
    congr 1
    funext e'
    exact ih e'

/-- Steps that are themselves lists of steps can be taken one by one. -/
lemma forEach_flatMap {f : α → Step} {g : β → Step} {h : α → List β}
    (hf : ∀ a, f a = forEach g (h a)) (as : List α) :
    forEach f as = forEach g (as.flatMap h) := by
  funext e
  induction as generalizing e with
  | nil => rfl
  | cons a as ih =>
    rw [List.flatMap_cons, forEach_append, forEach_cons, hf a]
    congr 1
    funext e'
    exact ih e'

end Steps

/-! ### Actions -/

/-- One thing that a file does to an expansion. -/
inductive Action where
  /-- Adds a line. -/
  | emit (content : List Char) (source : Source)
  /-- Records a fault. -/
  | report (finding : Finding)
  /-- Opens an included file and expands it. -/
  | enter (path : String) (q : Request)
  /-- Gives up. -/
  | stop (why : Failure)
  deriving DecidableEq

namespace Resolver

variable (r : Resolver) (t : FileTree)

/-- Carries out one action; `expandFile` expands an included file. -/
def perform (expandFile : String → Request → Step) : Action → Step
  | .emit content source => r.emit content source
  | .report finding => fun e => .done { e with findings := e.findings.push finding }
  | .enter path q => expandFile path q
  | .stop why => .failed why

/-- The actions for an include that names nothing that exists. -/
def noMatchScript (q : Request) : List Action :=
  match r.dialect with
  | .httpd =>
    if q.isOptional then []
    else [.report ⟨.httpdIncludeFailed, "Include " ++ q.target ++ " matched no files", q.source⟩]
  | .any =>
    if Glob.isPattern q.target then
      [.report ⟨.anyIncludeNoMatch, "$include \"" ++ q.target ++ "\" matched no files", q.source⟩]
    else [.stop (.notFound q.target q.file q.line)]

/-- The actions for one path that an include names. -/
def matchScript (q : Request) (path : String) : List Action :=
  if !t.isDir path then [.enter path q]
  else
    match r.dialect with
    | .any => [.stop (.isDirectory q.target q.file q.line)]
    | .httpd => (t.filesBelow path).map fun file => .enter file q

/-- The actions for everything that an include names. -/
def requestScript (q : Request) : List Action :=
  match r.matches? t q with
  | none => [.stop (.invalidPattern q.target)]
  | some [] => r.noMatchScript q
  | some paths => paths.flatMap (r.matchScript t q)

/-- The actions for an include, whose target may be missing. -/
def targetScript (target : List Char) (isOptional : Bool) (file : String) (source : Source) :
    List Action :=
  let q : Request := ⟨String.ofList target, isOptional, file, source⟩
  if target.isEmpty then [.stop (.missingTarget file q.line)] else r.requestScript t q

/-- The actions for a piece of a line of nested labels. -/
def pieceScript (file : String) (source : Source) : Piece → List Action
  | .text content => [.emit content source]
  | .target path => r.targetScript t path false file source

/-- The actions for one logical line. -/
def lineScript (file : String) (includedFrom? : Option String) (line : Nat × List Char) :
    List Action :=
  let content := Text.strip line.2
  let source := Source.ofLine file line.1 includedFrom?
  if !isMeaningful content then []
  else
    match r.dialect with
    | .any => (pieces content).flatMap (r.pieceScript t file source)
    | .httpd =>
      match directive? content with
      | some d => r.targetScript t d.target d.isOptional file source
      | none => [.emit content source]

/-- The actions of a file in order. -/
def script (text file : String) (includedFrom? : Option String) : List Action :=
  (logicalLines r.dialect r.linkText text).flatMap (r.lineScript t file includedFrom?)

/-- The actions of an entry file, which is named by its path in normal form. -/
def entryScript (entry text : String) : List Action :=
  r.script t text (r.nameOf (Path.normalize (Path.join r.root entry))) none

/-- What carrying out actions leads to when `depth` more files may be open at
once. -/
def run (depth : Nat) (as : List Action) : Step :=
  forEach (r.perform (r.expandFile t depth)) as

/-! ### Expansions are runs -/

section Expand

variable (expandFile : String → Request → Step)

/-- What happens if nothing is found is a script. -/
lemma noMatch_eq_forEach (q : Request) :
    r.noMatch q = forEach (r.perform expandFile) (r.noMatchScript q) := by
  unfold noMatch noMatchScript
  cases r.dialect <;> dsimp only
  · split
    · rw [forEach_singleton]; rfl
    · rw [forEach_singleton]; rfl
  · split
    · rfl
    · rw [forEach_singleton]; rfl

/-- What happens to a file that is found is a script. -/
lemma expandMatch_eq_forEach (q : Request) (path : String) :
    r.expandMatch t expandFile q path =
      forEach (r.perform expandFile) (r.matchScript t q path) := by
  unfold expandMatch matchScript
  split
  · rw [forEach_singleton]; rfl
  · cases r.dialect <;> dsimp only
    · rw [forEach_singleton]; rfl
    · rw [forEach_map]; rfl

/-- What happens to a request is a script. -/
lemma expandRequest_eq_forEach (q : Request) :
    r.expandRequest t expandFile q =
      forEach (r.perform expandFile) (r.requestScript t q) := by
  unfold expandRequest requestScript
  rcases r.matches? t q with _ | _ | ⟨path, paths⟩ <;> dsimp only
  · rw [forEach_singleton]; rfl
  · exact r.noMatch_eq_forEach expandFile q
  · exact forEach_flatMap (r.expandMatch_eq_forEach t expandFile q) _

/-- What happens to a target is a script. -/
lemma expandTarget_eq_forEach (target : List Char) (isOptional : Bool) (file : String)
    (source : Source) :
    r.expandTarget t expandFile target isOptional file source =
      forEach (r.perform expandFile) (r.targetScript t target isOptional file source) := by
  unfold expandTarget targetScript
  dsimp only
  split
  · rw [forEach_singleton]; rfl
  · exact r.expandRequest_eq_forEach t expandFile _

/-- What happens to a piece of a line is a script. -/
lemma expandPiece_eq_forEach (file : String) (source : Source) (p : Piece) :
    r.expandPiece t expandFile file source p =
      forEach (r.perform expandFile) (r.pieceScript t file source p) := by
  cases p with
  | text content => rw [pieceScript, forEach_singleton]; rfl
  | target path => exact r.expandTarget_eq_forEach t expandFile path false file source

/-- What happens to a line is a script. -/
lemma expandLine_eq_forEach (file : String) (includedFrom? : Option String)
    (line : Nat × List Char) :
    r.expandLine t expandFile file includedFrom? line =
      forEach (r.perform expandFile) (r.lineScript t file includedFrom? line) := by
  unfold expandLine lineScript
  dsimp only
  split
  · rfl
  · cases r.dialect <;> dsimp only
    · exact forEach_flatMap (r.expandPiece_eq_forEach t expandFile file _) _
    · rcases directive? (Text.strip line.2) with _ | d <;> dsimp only
      · rw [forEach_singleton]; rfl
      · exact r.expandTarget_eq_forEach t expandFile _ _ file _

end Expand

/-- To expand a text is to carry out its script. -/
theorem expandText_eq_run (depth : Nat) (text file : String) (includedFrom? : Option String) :
    r.expandText t (r.expandFile t depth) text file includedFrom? =
      r.run t depth (r.script t text file includedFrom?) :=
  forEach_flatMap (r.expandLine_eq_forEach t _ file includedFrom?) _

/-- An included file that can be read is expanded by its script, with one file
fewer left to open. -/
lemma expandFile_succ {path text : String} (h : t.read? path = some text) (depth : Nat)
    (q : Request) :
    r.expandFile t (depth + 1) path q =
      r.run t depth (r.script t text (r.nameOf path) (some q.file)) := by
  rw [expandFile, h]
  exact r.expandText_eq_run t depth text _ _

/-- An entry file that can be read is resolved by its script. -/
theorem resolveFile_eq_run {entry text : String} (hroot : t.isDir r.root = true)
    (hfile : t.isFile (Path.join r.root entry) = true)
    (htext : t.read? (Path.join r.root entry) = some text) :
    r.resolveFile t entry = r.run t r.limits.depth (r.entryScript t entry text) {} := by
  simp only [resolveFile, hroot, hfile, htext, resolveText, Bool.not_true, Bool.false_eq_true,
    ↓reduceIte]
  rw [expandText_eq_run, entryScript]

/-- Only an entry file that can be read is resolved to lines. -/
lemma exists_text_of_resolveFile_done {entry : String} {e : Expansion}
    (h : r.resolveFile t entry = .done e) :
    t.isDir r.root = true ∧ t.isFile (Path.join r.root entry) = true ∧
      ∃ text, t.read? (Path.join r.root entry) = some text := by
  simp only [resolveFile] at h
  split at h
  · cases h
  · next hroot =>
    split at h
    · cases h
    · next hfile =>
      split at h
      · cases h
      · next text htext =>
        simp only [Bool.not_eq_true, Bool.not_eq_false'] at hroot hfile
        exact ⟨hroot, hfile, text, htext⟩

/-! ### Bounds -/

/-- The script of a file does not depend on the bounds. -/
lemma script_withLimits (l : Limits) (text file : String) (includedFrom? : Option String) :
    ({ r with limits := l } : Resolver).script t text file includedFrom? =
      r.script t text file includedFrom? := by
  -- each part is unfolded as far as the settings, which are the same on both sides
  have hq : ({ r with limits := l } : Resolver).requestScript t = r.requestScript t := by
    funext q
    have hm : ({ r with limits := l } : Resolver).matches? t q = r.matches? t q := rfl
    unfold requestScript
    rw [hm]
    rcases r.matches? t q with _ | _ | ⟨path, paths⟩ <;> rfl
  have ht : ({ r with limits := l } : Resolver).targetScript t = r.targetScript t := by
    funext target isOptional file source
    rw [targetScript, hq, targetScript]
  have hp : ({ r with limits := l } : Resolver).pieceScript t = r.pieceScript t := by
    funext file source p
    cases p <;> simp only [pieceScript, ht]
  have hl : ({ r with limits := l } : Resolver).lineScript t = r.lineScript t := by
    funext file includedFrom? line
    simp only [lineScript, hp, ht]
  rw [script, hl, script]

/-- Nor does the script of an entry file. -/
lemma entryScript_withLimits (l : Limits) (entry text : String) :
    ({ r with limits := l } : Resolver).entryScript t entry text = r.entryScript t entry text :=
  r.script_withLimits t l text _ none

/-- An empty script does nothing. -/
@[simp] lemma run_nil (depth : Nat) (e : Expansion) : r.run t depth [] e = .done e := rfl

/-- A script is performed action by action. -/
lemma run_cons (depth : Nat) (a : Action) (as : List Action) (e : Expansion) :
    r.run t depth (a :: as) e =
      (r.perform (r.expandFile t depth) a e).andThen (r.run t depth as) := rfl

end Resolver

end ProxyLint.Include
