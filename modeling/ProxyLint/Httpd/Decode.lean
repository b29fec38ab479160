import ProxyLint.Httpd
import ProxyLint.Httpd.Words
import ProxyLint.Include

/-!
# Reading sections

Lines become a tree of sections. A line that starts with `</` closes the
innermost open section of its tag, and notes the sections inside it as unclosed;
one that starts with `<` opens a section; any other line is a directive of the
innermost open section. Reading never fails.

## Main definitions

* `ProxyLint.Httpd.Builder` — the configuration so far and its open sections.
* `ProxyLint.HttpdConfig.ofLines` — the configuration that lines stand for.
-/

set_option relaxedAutoImplicit false
set_option autoImplicit false

namespace ProxyLint.Httpd

/-- An open section. -/
structure OpenSection where
  /-- The number of the section. -/
  id : Nat
  /-- Its tag. -/
  tag : String
  /-- Where it is opened. -/
  source : Source
  deriving DecidableEq, Repr, Inhabited

/-- The configuration so far and its open sections. -/
structure Builder where
  /-- The sections and directives so far. -/
  config : HttpdConfig
  /-- The open sections, innermost first. -/
  opened : List OpenSection := []
  deriving DecidableEq, Repr, Inhabited

namespace Builder

/-- The number of the innermost open section. -/
def current (r : Builder) : Nat :=
  match r.opened with
  | s :: _ => s.id
  | [] => 0

/-- Notes sections that are not closed, each with its own words. -/
def noteUnclosed (context : OpenSection → String) : List OpenSection → Noted Unit
  | [] => pure ()
  | s :: rest => do
    note .httpdUnclosedSection (context s) s.source
    noteUnclosed context rest

/-- The tag that a closer names; `rest` follows its `</`. -/
def closerTag (rest : List Char) : List Char :=
  Text.strip ((Text.stripEnd rest).reverse.dropWhile (· == '>')).reverse

/-- Closes the innermost open section of a tag. -/
def close (r : Builder) (tag : String) (source : Source) : Noted Builder := do
  let hasTag (s : OpenSection) : Bool := Text.sameLetters s.tag tag
  match r.opened.dropWhile fun s => !hasTag s with
  | [] =>
    note .httpdUnexpectedSectionClose ("</" ++ tag ++ "> does not close an open section") source
    return r
  | _ :: outer =>
    noteUnclosed (fun s => "<" ++ s.tag ++ "> is not closed before </" ++ tag ++ ">")
      (r.opened.takeWhile fun s => !hasTag s)
    return { r with opened := outer }

/-- Opens a section; `rest` follows the `<` of the line. -/
def openSection (r : Builder) (rest : List Char) (line : Line) : Noted Builder := do
  match Text.beforeLast? '>' (Text.stripEnd rest) with
  | none =>
    note .httpdMalformedSection ("section opener without '>': " ++ line.content) line.source
    return r
  | some inner =>
    match ← arguments inner line.source with
    | [] =>
      note .httpdMalformedSection "empty section tag" line.source
      return r
    | tag :: args =>
      return { config := r.config.addSection r.current tag args line.source
               opened := ⟨r.config.size, tag, line.source⟩ :: r.opened }

/-- Adds a directive to the innermost open section. -/
def addDirective (r : Builder) (line : Line) : Noted Builder := do
  match ← arguments line.content.toList line.source with
  | [] => return r
  | name :: args =>
    return { r with config := r.config.addDirective r.current ⟨name, args, line.source⟩ }

/-- Reads one line. -/
def step (r : Builder) (line : Line) : Noted Builder :=
  match line.content.toList with
  | '<' :: '/' :: rest => r.close (String.ofList (closerTag rest)) line.source
  | '<' :: rest => r.openSection rest line
  | _ => r.addDirective line

end Builder

end ProxyLint.Httpd

namespace ProxyLint.HttpdConfig

open Httpd

/-- Where the whole configuration is written: the file of the first line. -/
def rootSource : List Line → Source
  | [] => Source.unknown
  | line :: _ => ⟨some (line.source.file?.getD ""), none, none⟩

/-- The configuration that lines stand for. -/
def ofLines (lines : List Line) : Noted HttpdConfig := do
  let start : Builder := { config := .ofRoot (rootSource lines) }
  let r ← lines.foldlM Builder.step start
  Builder.noteUnclosed (fun s => "<" ++ s.tag ++ "> is never closed") r.opened
  return r.config

/-- The configuration that resolved lines stand for, with what was found while
they were resolved; or why they could not be resolved. -/
def ofOutcome (o : Include.Outcome) : Except Include.Failure (Noted HttpdConfig) :=
  o.lines.map fun lines =>
    let read := ofLines lines
    ⟨read.value, o.findings ++ read.findings⟩

end ProxyLint.HttpdConfig
