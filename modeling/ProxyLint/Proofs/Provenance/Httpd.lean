import ProxyLint.Httpd.Decode
import ProxyLint.Proofs.Provenance.Basic

set_option relaxedAutoImplicit false
set_option autoImplicit false

/-!
# Places of sections

Lines become a tree of sections, whatever the places of the lines are. The whole
configuration is said to be written in the file of its first line, so reading
commutes with forgetting only up to the place of section 0.

## Main results

* `ProxyLint.Httpd.Builder.step_forget` — one line is read in the same way wherever
  it is written.
* `ProxyLint.HttpdConfig.forget_ofLines` — so are all lines.
-/

namespace ProxyLint.Httpd

open Placed

instance : Placed Directive := ⟨fun d => { d with source := .unknown }⟩

instance : Placed Section :=
  ⟨fun s => { s with source := .unknown, directives := s.directives.map forget }⟩

instance : Placed HttpdConfig := ⟨fun c => ⟨c.sections.map forget⟩⟩

instance : Placed OpenSection := ⟨fun s => { s with source := .unknown }⟩

instance : Placed Builder := ⟨fun b => ⟨forget b.config, forget b.opened⟩⟩

/-! ### Sections -/

/-- Places of an array are forgotten in the same way before and after one of its
members is changed. -/
lemma map_forget_modify {α : Type} [Placed α] {f g : α → α}
    (h : ∀ a, g (forget a) = forget (f a)) (as : Array α) (i : Nat) :
    (as.map forget).modify i g = (as.modify i f).map forget := by
  refine Array.ext (by simp) fun j hj hj' => ?_
  simp only [Array.getElem_modify, Array.getElem_map]
  split
  · exact h _
  · rfl

/-- A configuration is forgotten section by section. -/
@[simp] lemma forget_config (ss : Array Section) :
    forget (⟨ss⟩ : HttpdConfig) = ⟨ss.map forget⟩ := rfl

/-- The sections of a configuration are forgotten one by one. -/
@[simp] lemma sections_forget (c : HttpdConfig) :
    (forget c).sections = c.sections.map forget := rfl

/-- Forgetting places keeps the number of sections. -/
@[simp] lemma size_forget (c : HttpdConfig) : (forget c).size = c.size := by
  simp [HttpdConfig.size]

/-- A section keeps everything but its place and those of its directives. -/
lemma forget_section (kind : SectionKind) (tag : String) (arguments : List String)
    (parent? : Option Nat) (source : Source) (children : Array Nat)
    (directives : Array Directive) :
    forget (⟨kind, tag, arguments, parent?, source, children, directives⟩ : Section) =
      ⟨kind, tag, arguments, parent?, .unknown, children, directives.map forget⟩ := rfl

/-- The same section is added wherever its opening line is written. -/
lemma addSection_forget (c : HttpdConfig) (parent : Nat) (tag : String) (arguments : List String)
    (source : Source) :
    (forget c).addSection parent tag arguments .unknown =
      forget (c.addSection parent tag arguments source) := by
  have hmodify : ((c.sections.map forget).modify parent fun s =>
      { s with children := s.children.push c.size }) =
        (c.sections.modify parent fun s => { s with children := s.children.push c.size }).map
          forget := by
    refine map_forget_modify (fun s => ?_) c.sections parent
    rfl
  simp only [HttpdConfig.addSection, size_forget, sections_forget, forget_config, Array.map_push,
    forget_section, Array.map_empty, hmodify]

/-- The same directive is added wherever it is written. -/
lemma addDirective_forget (c : HttpdConfig) (i : Nat) (d : Directive) :
    (forget c).addDirective i (forget d) = forget (c.addDirective i d) := by
  have hmodify : ((c.sections.map forget).modify i fun s =>
      { s with directives := s.directives.push (forget d) }) =
        (c.sections.modify i fun s => { s with directives := s.directives.push d }).map forget := by
    refine map_forget_modify (fun s => ?_) c.sections i
    cases s
    simp only [forget_section, Array.map_push]
  simp only [HttpdConfig.addDirective, sections_forget, forget_config, hmodify]

/-! ### Lines -/

/-- The arguments of a line are the same wherever it is written. -/
lemma arguments_forget (text : List Char) (source : Source) :
    arguments text .unknown = forget (arguments text source) := by
  simp only [arguments]
  split
  · refine note_bind_forget ?_ _ _ _
    rw [forget_pure, forget_strings]
  · rw [forget_pure, forget_strings]

namespace Builder

/-- The same section is current wherever it has been opened. -/
@[simp] lemma current_forget (b : Builder) : (forget b).current = b.current := by
  obtain ⟨config, opened⟩ := b
  cases opened <;> rfl

/-- Open sections are the same faults wherever they have been opened. -/
lemma noteUnclosed_forget {context : OpenSection → String}
    (hcontext : ∀ s, context (forget s) = context s) (ss : List OpenSection) :
    noteUnclosed context (forget ss) = forget (noteUnclosed context ss) := by
  induction ss with
  | nil => rfl
  | cons s ss ih =>
    rw [forget_cons, noteUnclosed, noteUnclosed, hcontext]
    exact note_bind_forget ih _ _ _

/-- The state of a reader is forgotten part by part. -/
@[simp] lemma forget_mk (config : HttpdConfig) (opened : List OpenSection) :
    forget (⟨config, opened⟩ : Builder) = ⟨forget config, forget opened⟩ := rfl

/-- Its configuration is forgotten. -/
@[simp] lemma config_forget (b : Builder) : (forget b).config = forget b.config := rfl

/-- Its open sections are forgotten. -/
@[simp] lemma opened_forget (b : Builder) : (forget b).opened = forget b.opened := rfl

/-- The same section is closed wherever the closing line is written. -/
lemma close_forget (b : Builder) (tag : String) (source : Source) :
    (forget b).close tag .unknown = forget (b.close tag source) := by
  have hdrop : (forget b.opened).dropWhile (fun s => !Text.sameLetters s.tag tag) =
      forget (b.opened.dropWhile fun s => !Text.sameLetters s.tag tag) := List.dropWhile_map ..
  have htake : (forget b.opened).takeWhile (fun s => !Text.sameLetters s.tag tag) =
      forget (b.opened.takeWhile fun s => !Text.sameLetters s.tag tag) := List.takeWhile_map ..
  simp only [close, opened_forget, hdrop, htake]
  cases b.opened.dropWhile fun s => !Text.sameLetters s.tag tag with
  | nil => exact note_bind_forget (forget_pure b).symm _ _ _
  | cons s outer =>
    simp only [forget_cons]
    rw [noteUnclosed_forget fun _ => rfl]
    exact forget_bind (fun (_ : Unit) => rfl) _

/-- A line opens the same section wherever it is written. -/
lemma openSection_forget (b : Builder) (rest : List Char) (l : Line) :
    (forget b).openSection rest (forget l) = forget (b.openSection rest l) := by
  simp only [openSection, content_forget, source_forget_line]
  cases Text.beforeLast? '>' (Text.stripEnd rest) with
  | none => exact note_bind_forget (forget_pure b).symm _ _ _
  | some inner =>
    simp only
    rw [arguments_forget inner l.source]
    refine forget_bind (fun words => ?_) _
    rw [forget_strings]
    cases words with
    | nil => exact note_bind_forget (forget_pure b).symm _ _ _
    | cons tag args =>
      simp only [forget_pure, forget_mk, config_forget, opened_forget, current_forget,
        size_forget, addSection_forget _ _ _ _ l.source]
      rfl

/-- A line adds the same directive wherever it is written. -/
lemma addDirective_forget (b : Builder) (l : Line) :
    (forget b).addDirective (forget l) = forget (b.addDirective l) := by
  simp only [addDirective, content_forget, source_forget_line]
  rw [arguments_forget _ l.source]
  refine forget_bind (fun words => ?_) _
  rw [forget_strings]
  cases words with
  | nil => rfl
  | cons name args =>
    have hadd := Httpd.addDirective_forget b.config b.current ⟨name, args, l.source⟩
    simp only [forget_pure, forget_mk, config_forget, opened_forget, current_forget, ← hadd]
    rfl

/-- One line is read in the same way wherever it is written. -/
theorem step_forget (b : Builder) (l : Line) : (forget b).step (forget l) = forget (b.step l) := by
  unfold step
  rw [content_forget]
  split
  · exact close_forget b _ l.source
  · exact openSection_forget b _ l
  · exact addDirective_forget b l

end Builder

end ProxyLint.Httpd

namespace ProxyLint.HttpdConfig

open Placed Httpd

/-- **The configuration of lines is the same wherever the lines are written**, up to
the places in it. -/
theorem forget_ofLines {ls ls' : List Line} (h : forget ls = forget ls') :
    forget (ofLines ls) = forget (ofLines ls') := by
  -- without places, both readings start at the same configuration
  have hread : ∀ ls : List Line, forget (ofLines ls) = do
      let b ← (forget ls).foldlM Builder.step { config := forget (.ofRoot .unknown) }
      Builder.noteUnclosed (fun s => "<" ++ s.tag ++ "> is never closed") b.opened
      return b.config := by
    intro ls
    have hsteps := foldlM_forget Builder.step_forget ls { config := .ofRoot (rootSource ls) }
    have hstart : forget ({ config := .ofRoot (rootSource ls) } : Builder) =
        { config := forget (.ofRoot .unknown) } := by
      simp only [Builder.forget_mk, ofRoot, forget_config, forget_nil, List.map_toArray,
        List.map_cons, List.map_nil, forget_section]
    rw [hstart] at hsteps
    refine Eq.trans (Eq.symm ?_) (congrArg (· >>= _) hsteps.symm)
    refine forget_bind (fun b => ?_) _
    rw [Builder.opened_forget, Builder.noteUnclosed_forget fun _ => rfl]
    exact forget_bind (fun (_ : Unit) => rfl) _
  rw [hread ls, hread ls', h]

end ProxyLint.HttpdConfig
