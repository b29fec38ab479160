import Mathlib.Data.List.Basic
import ProxyLint.Httpd.Decode
import ProxyLint.Proofs.Array

set_option relaxedAutoImplicit false
set_option autoImplicit false

/-!
# Bodies of sections

What stands in a section is a sequence of directives and sections with bodies of their own. The
sections of a configuration are numbered as they are opened, so a body whose first section has a
given number fixes the numbers of all its sections. The configuration that is read from lines
is always that of some body: a line adds to the innermost open section, and a section that has
been closed is never added to.

## Main definitions

* `ProxyLint.Httpd.Body` — what stands in a section.
* `ProxyLint.Httpd.Body.sections` — the sections of a body with their numbers.
* `ProxyLint.HttpdConfig.ofBody` — the configuration of a body.
* `ProxyLint.HttpdConfig.extend` — a configuration with a body added to one of its sections.

## Main results

* `ProxyLint.HttpdConfig.addDirective_extend`, `ProxyLint.HttpdConfig.addSection_extend` — a body
  is added by adding its directives and sections one by one.
* `ProxyLint.Httpd.Builder.step_cases` — what a line can do.
* `ProxyLint.HttpdConfig.exists_body_of_lines` — lines are read into the configuration of a body.
-/

namespace ProxyLint.Httpd

/-! ### Numbers of sections -/

/-- The opening line of a section. -/
structure Opener where
  /-- The tag as written. -/
  tag : String
  /-- The arguments without their quotes. -/
  arguments : List String
  /-- Where the section is opened. -/
  source : Source
  deriving DecidableEq, Repr, Inhabited

/-- What stands in a section, in order. -/
inductive Body where
  /-- Nothing more. -/
  | nil
  /-- A directive, and what follows it. -/
  | directive (d : Directive) (rest : Body)
  /-- A section with its body, and what follows it. -/
  | nested (opener : Opener) (inner rest : Body)
  deriving DecidableEq, Repr, Inhabited

namespace Body

/-- The number of sections of a body, at any depth. -/
def size : Body → Nat
  | .nil => 0
  | .directive _ rest => rest.size
  | .nested _ inner rest => 1 + inner.size + rest.size

/-- The directives that stand directly in a body. -/
def directives : Body → List Directive
  | .nil => []
  | .directive d rest => d :: rest.directives
  | .nested _ _ rest => rest.directives

/-- The numbers of the sections that stand directly in a body whose first section has number
`n`. -/
def children (n : Nat) : Body → List Nat
  | .nil => []
  | .directive _ rest => rest.children n
  | .nested _ inner rest => n :: rest.children (n + 1 + inner.size)

end Body

/-- The section with an opener and a body; its number is `n`. -/
def Opener.entry (o : Opener) (parent n : Nat) (inner : Body) : Section :=
  { kind := .ofTag o.tag
    tag := o.tag
    arguments := o.arguments
    parent? := some parent
    source := o.source
    children := (inner.children (n + 1)).toArray
    directives := inner.directives.toArray }

/-- The sections of a body in document order. The body stands in section `parent`, and its first
section has number `n`. -/
def Body.sections (parent n : Nat) : Body → List Section
  | .nil => []
  | .directive _ rest => rest.sections parent n
  | .nested o inner rest =>
    o.entry parent n inner ::
      (inner.sections n (n + 1) ++ rest.sections parent (n + 1 + inner.size))

/-- A body has as many sections as are counted. -/
@[simp] lemma Body.length_sections (body : Body) (parent n : Nat) :
    (body.sections parent n).length = body.size := by
  induction body generalizing parent n with
  | nil => rfl
  | directive d rest ih => exact ih parent n
  | nested o inner rest ihinner ih =>
    simp only [sections, size, List.length_cons, List.length_append, ihinner, ih]
    omega

end ProxyLint.Httpd

namespace ProxyLint.HttpdConfig

open Httpd

/-- The configuration of a body. -/
def ofBody (source : Source) (body : Body) : HttpdConfig :=
  ⟨({ kind := .root
      tag := ""
      arguments := []
      parent? := none
      source
      children := (body.children 1).toArray
      directives := body.directives.toArray } :: body.sections 0 1).toArray⟩

end ProxyLint.HttpdConfig

/-! ### Bodies that are added to sections -/

namespace ProxyLint

open Httpd

/-- A section with a body added behind what it holds; the first section of the body has number
`n`. -/
def Section.extend (s : Section) (n : Nat) (body : Body) : Section :=
  { s with
    children := s.children ++ body.children n
    directives := s.directives ++ body.directives }

namespace HttpdConfig

/-- A configuration with a body added to section `i`. The sections of the body are opened after
all others. -/
def extend (c : HttpdConfig) (i : Nat) (body : Body) : HttpdConfig :=
  ⟨(c.sections.modify i fun s => s.extend c.size body) ++ (body.sections i c.size).toArray⟩

/-- The root with a body is the configuration of the body. -/
lemma extend_ofRoot (source : Source) (body : Body) :
    (ofRoot source).extend 0 body = ofBody source body := by
  simp [extend, ofRoot, ofBody, Section.extend, size, Array.modify, Array.modifyM]

/-- A body adds its sections. -/
@[simp] lemma size_extend (c : HttpdConfig) (i : Nat) (body : Body) :
    (c.extend i body).size = c.size + body.size := by
  simp [extend, size]

/-- A directive adds no section. -/
@[simp] lemma size_addDirective (c : HttpdConfig) (i : Nat) (d : Directive) :
    (c.addDirective i d).size = c.size :=
  Array.size_modify

/-- A section is one section more. -/
@[simp] lemma size_addSection (c : HttpdConfig) (i : Nat) (tag : String) (arguments : List String)
    (source : Source) : (c.addSection i tag arguments source).size = c.size + 1 := by
  simp [addSection, size]

/-- An empty body adds nothing. -/
@[simp] lemma extend_nil (c : HttpdConfig) (i : Nat) : c.extend i .nil = c := by
  have hid : (fun s : Section => s.extend c.size .nil) = id := by
    funext s
    simp [Section.extend, Body.children, Body.directives]
  have hmodify : c.sections.modify i id = c.sections := by
    refine Array.ext_getElem? fun j => ?_
    simp [Array.getElem?_modify]
  simp [extend, hid, hmodify, Body.sections]

/-- A directive is added before the rest of its body. -/
lemma addDirective_extend (c : HttpdConfig) (i : Nat) (d : Directive) (rest : Body) :
    (c.addDirective i d).extend i rest = c.extend i (.directive d rest) := by
  have hmodify : (c.sections.modify i fun s => { s with directives := s.directives.push d }).modify
      i (fun s => s.extend c.size rest) =
        c.sections.modify i fun s => s.extend c.size (.directive d rest) := by
    refine Array.modify_modify (fun s => ?_) c.sections i
    simp [Section.extend, Body.children, Body.directives]
  rw [extend, size_addDirective, addDirective, hmodify]
  rfl

/-- The body of a new section changes the section itself only, and what follows it. -/
lemma addSection_extend_size (c : HttpdConfig) (i : Nat) (o : Opener) (inner : Body) :
    (c.addSection i o.tag o.arguments o.source).extend c.size inner =
      ⟨(c.sections.modify i fun s => { s with children := s.children.push c.size }) ++
        (o.entry i c.size inner :: inner.sections c.size (c.size + 1)).toArray⟩ := by
  have hsize : (c.sections.modify i fun s =>
      { s with children := s.children.push c.size }).size = c.size := Array.size_modify
  rw [extend, size_addSection, addSection]
  dsimp only
  rw [Array.modify_push_size hsize]
  simp [Section.extend, Opener.entry]

/-- A section is added before its own body, and the rest of the body that it stands in after
that. -/
lemma addSection_extend {c : HttpdConfig} {i : Nat} (hi : i < c.size) (o : Opener)
    (inner rest : Body) :
    ((c.addSection i o.tag o.arguments o.source).extend c.size inner).extend i rest =
      c.extend i (.nested o inner rest) := by
  have hsize : ((c.addSection i o.tag o.arguments o.source).extend c.size inner).size =
      c.size + 1 + inner.size := by
    simp
  have hmodify : (c.sections.modify i fun s => { s with children := s.children.push c.size }).modify
      i (fun s => s.extend (c.size + 1 + inner.size) rest) =
        c.sections.modify i fun s => s.extend c.size (.nested o inner rest) := by
    refine Array.modify_modify (fun s => ?_) c.sections i
    simp [Section.extend, Body.children, Body.directives]
  rw [extend, hsize, addSection_extend_size, Array.modify_append_left, hmodify]
  · simp [extend, Body.sections]
  · simpa [size] using hi

end HttpdConfig

end ProxyLint

/-! ### Lines -/

namespace ProxyLint.Httpd

/-- The arguments of a line are its words. -/
@[simp] lemma value_arguments (text : List Char) (source : Source) :
    (arguments text source).value = (splitWords text).1 := by
  unfold arguments
  rcases splitWords text with ⟨words, isOpen⟩
  cases isOpen <;> rfl

/-- The opener that a line is, if it does not begin with `</`, begins with `<`, ends with `>` and
has a word in between. -/
def opener? (line : Line) : Option Opener := do
  let rest ← Text.after? ['<'] line.content.toList
  if rest.head? = some '/' then none
  else
    let inner ← Text.beforeLast? '>' (Text.stripEnd rest)
    let tag ← (splitWords inner).1.head?
    return ⟨tag, (splitWords inner).1.tail, line.source⟩

/-- The directive that a line is, if it does not begin with `<` and has a word. -/
def directiveOf? (line : Line) : Option Directive :=
  if line.content.toList.head? = some '<' then none
  else do
    let name ← (splitWords line.content.toList).1.head?
    return ⟨name, (splitWords line.content.toList).1.tail, line.source⟩

namespace Builder

variable (r : Builder) {line : Line} {rest : List Char}

/-- A line that starts with `</` closes a section. -/
lemma step_closer (h : line.content.toList = '<' :: '/' :: rest) :
    r.step line = r.close (String.ofList (closerTag rest)) line.source := by
  unfold step
  rw [h]
  rfl

/-- A line that starts with `<` and closes nothing opens a section. -/
lemma step_opener (h : line.content.toList = '<' :: rest) (hrest : rest.head? ≠ some '/') :
    r.step line = r.openSection rest line := by
  unfold step
  rw [h]
  split
  · next heq =>
    cases heq
    exact absurd rfl hrest
  · next heq =>
    cases heq
    rfl
  · next hne => exact absurd rfl (hne rest)

/-- A line that does not start with `<` is a directive. -/
lemma step_directive (h : line.content.toList.head? ≠ some '<') :
    r.step line = r.addDirective line := by
  unfold step
  split
  · next heq =>
    rw [heq] at h
    exact absurd rfl h
  · next heq =>
    rw [heq] at h
    exact absurd rfl h
  · rfl

/-- A closer leaves the sections as they are and closes some innermost ones. -/
lemma value_close (tag : String) (source : Source) :
    (r.close tag source).value.config = r.config ∧
      (r.close tag source).value.opened <:+ r.opened := by
  have hsuffix := List.dropWhile_suffix (l := r.opened) fun s => !Text.sameLetters s.tag tag
  unfold close
  dsimp only
  cases hdrop : r.opened.dropWhile fun s => !Text.sameLetters s.tag tag with
  | nil => exact ⟨rfl, List.suffix_refl _⟩
  | cons s outer =>
    rw [hdrop] at hsuffix
    exact ⟨rfl, (List.suffix_cons s outer).trans hsuffix⟩

/-- What a line can do: close some innermost sections, add a directive to the innermost one, or
open a section in it.

**Proof sketch.** By the first characters of the line: `</` closes, `<` opens unless the line is
malformed, and anything else is a directive unless there is no word. -/
lemma step_cases (line : Line) :
    (opener? line = none ∧ directiveOf? line = none ∧ (r.step line).value.config = r.config ∧
        (r.step line).value.opened <:+ r.opened) ∨
      (∃ d, opener? line = none ∧ directiveOf? line = some d ∧
        (r.step line).value = { r with config := r.config.addDirective r.current d }) ∨
      ∃ o, opener? line = some o ∧ directiveOf? line = none ∧ (r.step line).value =
        { config := r.config.addSection r.current o.tag o.arguments o.source
          opened := ⟨r.config.size, o.tag, o.source⟩ :: r.opened } := by
  by_cases hopens : ∃ rest, line.content.toList = '<' :: rest
  · obtain ⟨rest, hrest⟩ := hopens
    have hdirective : directiveOf? line = none := if_pos (by rw [hrest]; rfl)
    have hafter : Text.after? ['<'] line.content.toList = some rest := by
      rw [hrest]
      rfl
    by_cases hslash : rest.head? = some '/'
    · obtain ⟨rest, rfl⟩ := List.head?_eq_some_iff.1 hslash
      rw [r.step_closer hrest]
      exact .inl ⟨by simp [opener?, hafter], hdirective, r.value_close _ _⟩
    · rw [r.step_opener hrest hslash]
      unfold openSection
      cases hinner : Text.beforeLast? '>' (Text.stripEnd rest) with
      | none =>
        exact .inl ⟨by simp [opener?, hafter, hslash, hinner], hdirective, rfl,
          List.suffix_refl _⟩
      | some inner =>
        simp only [Noted.value_bind, value_arguments]
        cases hwords : (splitWords inner).1 with
        | nil =>
          exact .inl ⟨by simp [opener?, hafter, hslash, hinner, hwords], hdirective, rfl,
            List.suffix_refl _⟩
        | cons tag args =>
          exact .inr (.inr ⟨⟨tag, args, line.source⟩,
            by simp [opener?, hafter, hslash, hinner, hwords], hdirective, rfl⟩)
  · have hhead : line.content.toList.head? ≠ some '<' := fun h =>
      hopens (List.head?_eq_some_iff.1 h)
    have hafter : Text.after? ['<'] line.content.toList = none := by
      refine if_neg fun hprefix => hopens ?_
      obtain ⟨rest, hrest⟩ := List.isPrefixOf_iff_prefix.1 hprefix
      exact ⟨rest, hrest.symm⟩
    have hnone : opener? line = none := by simp [opener?, hafter]
    rw [r.step_directive hhead]
    unfold addDirective
    simp only [Noted.value_bind, value_arguments]
    cases hwords : (splitWords line.content.toList).1 with
    | nil =>
      exact .inl ⟨hnone, by simp [directiveOf?, hwords], rfl, List.suffix_refl _⟩
    | cons name args =>
      exact .inr (.inl ⟨_, hnone, by simp [directiveOf?, hhead, hwords], rfl⟩)

/-! ### Growth -/

/-- The numbers of the open sections, innermost first. The whole configuration is always open. -/
def openIds (r : Builder) : List Nat :=
  r.opened.map OpenSection.id ++ [0]

/-- The innermost open section is the current one. -/
lemma openIds_eq_cons (r : Builder) : ∃ outer, r.openIds = r.current :: outer := by
  obtain ⟨config, opened⟩ := r
  cases opened with
  | nil => exact ⟨[], rfl⟩
  | cons s opened => exact ⟨_, rfl⟩

end Builder

/-- A configuration grows into another one if bodies are added to its open sections, whose
numbers are given, from the innermost one outwards. -/
inductive Grows : HttpdConfig → List Nat → HttpdConfig → Prop where
  | nil {c : HttpdConfig} : Grows c [] c
  | cons {c c' : HttpdConfig} {i : Nat} {outer : List Nat} (body : Body) :
    Grows (c.extend i body) outer c' → Grows c (i :: outer) c'

namespace Grows

variable {c c' : HttpdConfig} {i : Nat} {outer : List Nat}

/-- What grows grows inside more open sections as well. -/
lemma append_left (ids : List Nat) (h : Grows c outer c') : Grows c (ids ++ outer) c' := by
  induction ids with
  | nil => exact h
  | cons i ids ih => exact .cons .nil (by rwa [HttpdConfig.extend_nil])

/-- A configuration to which nothing is added has grown by nothing. -/
lemma refl (c : HttpdConfig) (ids : List Nat) : Grows c ids c := by
  simpa using append_left ids (.nil (c := c))

/-- A directive is the first of what the current section grows by. -/
lemma of_addDirective {d : Directive} (h : Grows (c.addDirective i d) (i :: outer) c') :
    Grows c (i :: outer) c' := by
  obtain _ | ⟨rest, h⟩ := h
  rw [HttpdConfig.addDirective_extend] at h
  exact .cons _ h

/-- A section that is opened grows first, and then the one around it. -/
lemma of_addSection {o : Opener} (hi : i < c.size)
    (h : Grows (c.addSection i o.tag o.arguments o.source) (c.size :: i :: outer) c') :
    Grows c (i :: outer) c' := by
  obtain _ | ⟨inner, _ | ⟨rest, h⟩⟩ := h
  rw [HttpdConfig.addSection_extend hi] at h
  exact .cons _ h

end Grows

namespace Builder

variable {r : Builder}

/-- The open sections have numbers of sections. -/
def OpensSections (r : Builder) : Prop :=
  ∀ i ∈ r.openIds, i < r.config.size

/-- The current section is one of the configuration. -/
lemma OpensSections.current_lt (h : r.OpensSections) : r.current < r.config.size := by
  obtain ⟨outer, houter⟩ := r.openIds_eq_cons
  exact h _ (houter ▸ List.mem_cons_self)

/-- If sections have been closed, those that are left open were open before. -/
lemma openIds_isSuffix {r' : Builder} (h : r'.opened <:+ r.opened) : r'.openIds <:+ r.openIds := by
  obtain ⟨front, hfront⟩ := h
  refine ⟨front.map OpenSection.id, ?_⟩
  rw [openIds, openIds, ← hfront, List.map_append, List.append_assoc]

/-- A line closes open sections, or opens one with the next number. -/
lemma OpensSections.step (h : r.OpensSections) (line : Line) :
    (r.step line).value.OpensSections := by
  intro i hi
  rcases r.step_cases line with ⟨-, -, hconfig, hopened⟩ | ⟨d, -, -, hstep⟩ | ⟨o, -, -, hstep⟩
  · rw [hconfig]
    exact h i ((openIds_isSuffix hopened).subset hi)
  · rw [hstep] at hi ⊢
    rw [HttpdConfig.size_addDirective]
    exact h i hi
  · rw [hstep] at hi ⊢
    rw [HttpdConfig.size_addSection]
    rcases List.mem_cons.1 hi with rfl | hi
    · exact Nat.lt_succ_self _
    · exact Nat.lt_succ_of_lt (h i hi)

/-- At the start no section is open but the root. -/
lemma opensSections_ofRoot (source : Source) :
    OpensSections { config := .ofRoot source } := by
  intro i hi
  rw [List.mem_singleton.1 hi]
  exact Nat.zero_lt_one

/-- The configuration grows from line to line in the sections that are open. -/
lemma grows_foldlM (lines : List Line) (r : Builder) (hids : r.OpensSections) :
    Grows r.config r.openIds (lines.foldlM step r).value.config := by
  induction lines generalizing r with
  | nil => exact .refl _ _
  | cons line lines ih =>
    rw [List.foldlM_cons, Noted.value_bind]
    obtain ⟨outer, houter⟩ := r.openIds_eq_cons
    have hgrows := ih (r.step line).value (hids.step line)
    rcases r.step_cases line with ⟨-, -, hconfig, hopened⟩ | ⟨d, -, -, hstep⟩ | ⟨o, -, -, hstep⟩
    · -- the sections that are closed here have got their bodies
      obtain ⟨ids, hsplit⟩ := openIds_isSuffix hopened
      rw [hconfig] at hgrows
      rw [← hsplit]
      exact hgrows.append_left _
    · rw [hstep] at hgrows ⊢
      change Grows _ r.openIds _ at hgrows
      rw [houter] at hgrows ⊢
      exact hgrows.of_addDirective
    · rw [hstep] at hgrows ⊢
      change Grows _ (r.config.size :: r.openIds) _ at hgrows
      rw [houter] at hgrows ⊢
      exact hgrows.of_addSection hids.current_lt

end Builder

end ProxyLint.Httpd

namespace ProxyLint.HttpdConfig

open Httpd

/-- **Lines are read into the configuration of a body**, well-formed or not.

**Proof sketch.** The configuration grows from the empty one in the sections that are open
(`Builder.grows_foldlM`), and at the start only the whole configuration is open. -/
theorem exists_body_of_lines (lines : List Line) :
    ∃ body, (ofLines lines).value = ofBody (rootSource lines) body := by
  have hgrows := Builder.grows_foldlM lines _ (Builder.opensSections_ofRoot (rootSource lines))
  have hvalue : (ofLines lines).value =
      (lines.foldlM Builder.step { config := .ofRoot (rootSource lines) }).value.config := rfl
  rw [← hvalue] at hgrows
  generalize (ofLines lines).value = c at hgrows
  obtain _ | ⟨body, ⟨⟩⟩ := hgrows
  exact ⟨body, extend_ofRoot _ _⟩

end ProxyLint.HttpdConfig
