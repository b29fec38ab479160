import ProxyLint.Proofs.Httpd.Preorder
import ProxyLint.Proofs.Places.Any

set_option relaxedAutoImplicit false
set_option autoImplicit false

/-!
# Places of sections and directives

A section has the place of the line that opens it, and a directive that of the line it is. Every
line that is a directive goes to one section, and each section holds its directives in the order
of their lines. What is noted on the way is at the place of a line.

## Main definitions

* `ProxyLint.HttpdConfig.Distributes` — the sections hold directives as they are dealt out.

## Main results

* `ProxyLint.HttpdConfig.openers_eq_cons` — the sections are those of the opening lines.
* `ProxyLint.HttpdConfig.exists_distributes_ofLines` — the directives are those of the lines.
* `ProxyLint.HttpdConfig.foundAt_ofLines` — what is noted about lines is at one of their places.
-/

namespace ProxyLint.HttpdConfig

open Httpd Noted

variable {P : Source → Prop} {c : HttpdConfig} {owned : List (Nat × Directive)}

/-! ### Sections and directives -/

/-- The sections are the whole configuration and those of the opening lines, in order. -/
lemma openers_eq_cons (lines : List Line) :
    (ofLines lines).value.openers = ⟨"", [], rootSource lines⟩ :: lines.filterMap opener? :=
  openers_foldlM lines { config := .ofRoot (rootSource lines) }

/-- The sections that are opened are those of the opening lines. -/
lemma openers_ofLines (lines : List Line) :
    (ofLines lines).value.openers.tail = lines.filterMap opener? :=
  congrArg List.tail (openers_eq_cons lines)

/-- A directive is at the place of its line. -/
lemma source_of_directiveOf? {line : Line} {d : Directive}
    (h : directiveOf? line = some d) : d.source = line.source := by
  unfold directiveOf? at h
  split at h
  · cases h
  · obtain ⟨name, -, h⟩ := Option.bind_eq_some_iff.1 h
    cases h
    rfl

/-- Directives are dealt out to sections by number, and each section holds those that are dealt
to it, in order. -/
structure Distributes (c : HttpdConfig) (owned : List (Nat × Directive)) : Prop where
  lt_size : ∀ p ∈ owned, p.1 < c.size
  directives_eq : ∀ i s, c.get? i = some s →
    s.directives.toList = (owned.filter fun p => p.1 == i).map Prod.snd

namespace Distributes

/-- The root alone has no directives. -/
lemma ofRoot (source : Source) : (HttpdConfig.ofRoot source).Distributes [] where
  lt_size := by simp
  directives_eq i s hs := by
    have hmem : s ∈ (HttpdConfig.ofRoot source).sections := Array.mem_of_getElem? hs
    simp only [HttpdConfig.ofRoot, List.mem_toArray, List.mem_singleton] at hmem
    rw [hmem]
    rfl

/-- A directive that is added to a section is one that it has. -/
lemma addDirective (h : c.Distributes owned) {i : Nat} (hi : i < c.size) (d : Directive) :
    (c.addDirective i d).Distributes (owned ++ [(i, d)]) where
  lt_size p hp := by
    rw [size_addDirective]
    rcases List.mem_append.1 hp with hp | hp
    · exact h.lt_size p hp
    · rwa [List.mem_singleton.1 hp]
  directives_eq j s hs := by
    rw [HttpdConfig.addDirective, get?, Array.getElem?_modify] at hs
    rw [List.filter_append, List.map_append]
    split at hs
    · next hij =>
      obtain ⟨old, hold, rfl⟩ := Option.map_eq_some_iff.1 hs
      simp [h.directives_eq j old hold, hij]
    · next hij => simp [h.directives_eq j s hs, hij]

/-- A section that is added has no directives. -/
lemma addSection (h : c.Distributes owned) (parent : Nat) (o : Opener) :
    (c.addSection parent o.tag o.arguments o.source).Distributes owned where
  lt_size p hp := by
    rw [size_addSection]
    exact Nat.lt_succ_of_lt (h.lt_size p hp)
  directives_eq j s hs := by
    rw [HttpdConfig.addSection, get?, Array.getElem?_push, Array.size_modify] at hs
    split at hs
    · next hj =>
      -- nothing has been dealt to a section that is only now opened
      cases hs
      have hnone : owned.filter (fun p => p.1 == j) = [] := by
        rw [List.filter_eq_nil_iff]
        intro p hp heq
        have hlt := h.lt_size p hp
        rw [beq_iff_eq.1 heq, hj] at hlt
        exact absurd hlt (Nat.lt_irrefl _)
      rw [hnone]
      rfl
    · rw [Array.getElem?_modify] at hs
      split at hs
      · obtain ⟨old, hold, rfl⟩ := Option.map_eq_some_iff.1 hs
        exact h.directives_eq j old hold
      · exact h.directives_eq j s hs

end Distributes

/-- Lines deal out the directives that they are. -/
lemma Distributes.foldlM {r : Builder} (h : r.config.Distributes owned) (hids : r.OpensSections)
    (lines : List Line) : ∃ dealt, dealt.map Prod.snd = lines.filterMap directiveOf? ∧
      (lines.foldlM Builder.step r).value.config.Distributes (owned ++ dealt) := by
  induction lines generalizing r owned with
  | nil => exact ⟨[], rfl, by simpa using h⟩
  | cons line lines ih =>
    rw [List.foldlM_cons, Noted.value_bind]
    rcases r.step_cases line with ⟨-, hnone, hconfig, -⟩ | ⟨d, -, hsome, hstep⟩ |
      ⟨o, -, hnone, hstep⟩
    · rw [List.filterMap_cons_none hnone]
      exact ih (by rwa [hconfig]) (hids.step line)
    · have hstepped : (r.step line).value.config.Distributes (owned ++ [(r.current, d)]) := by
        rw [hstep]
        exact h.addDirective hids.current_lt d
      obtain ⟨dealt, hdealt, hend⟩ := ih hstepped (hids.step line)
      refine ⟨(r.current, d) :: dealt, ?_, ?_⟩
      · rw [List.filterMap_cons_some hsome, List.map_cons, hdealt]
      · simpa using hend
    · rw [List.filterMap_cons_none hnone]
      refine ih ?_ (hids.step line)
      rw [hstep]
      exact h.addSection r.current o

/-- **The directives of a configuration are those of its lines**, each in one section. -/
theorem exists_distributes_ofLines (lines : List Line) :
    ∃ dealt, dealt.map Prod.snd = lines.filterMap directiveOf? ∧
      (ofLines lines).value.Distributes dealt := by
  have hstart := Distributes.ofRoot (rootSource lines)
  exact hstart.foldlM (r := { config := .ofRoot (rootSource lines) })
    (Builder.opensSections_ofRoot _) lines

end ProxyLint.HttpdConfig

/-! ### Findings -/

namespace ProxyLint.Httpd

open Noted

variable {P : Source → Prop}

/-- The faults of arguments are at the line. -/
lemma foundAt_arguments {source : Source} (h : P source) (text : List Char) :
    (arguments text source).FoundAt P := by
  unfold arguments
  rcases splitWords text with ⟨words, isOpen⟩
  cases isOpen with
  | false => exact foundAt_pure _
  | true => exact foundAt_note_pure h _ _ _

namespace Builder

/-- All open sections are at places of a kind. -/
def StandsAt (P : Source → Prop) (r : Builder) : Prop :=
  ∀ s ∈ r.opened, P s.source

variable {r : Builder}

/-- The faults of open sections are where they were opened. -/
lemma foundAt_noteUnclosed {opened : List OpenSection} (h : ∀ s ∈ opened, P s.source)
    (context : OpenSection → String) : (noteUnclosed context opened).FoundAt P := by
  induction opened with
  | nil => exact foundAt_pure ()
  | cons s opened ih =>
    obtain ⟨hs, hrest⟩ := List.forall_mem_cons.1 h
    exact (foundAt_note hs _ _).bind (ih hrest)

/-- Closing a section notes faults where it was opened and where it is closed. -/
lemma StandsAt.close (h : r.StandsAt P) (tag : String) {source : Source} (hs : P source) :
    (r.close tag source).FoundAt P := by
  unfold Builder.close
  dsimp only
  split
  · exact foundAt_note_pure hs _ _ _
  · exact (foundAt_noteUnclosed (fun s hs => h s ((List.takeWhile_sublist _).subset hs)) _).bind
      (foundAt_pure _)

/-- Opening a section notes faults at its line. -/
lemma foundAt_openSection (r : Builder) (rest : List Char) {line : Line} (h : P line.source) :
    (r.openSection rest line).FoundAt P := by
  unfold openSection
  split
  · exact foundAt_note_pure h _ _ _
  · refine (foundAt_arguments h _).bind ?_
    split
    · exact foundAt_note_pure h _ _ _
    · exact foundAt_pure _

/-- A directive notes faults at its line. -/
lemma foundAt_addDirective (r : Builder) {line : Line} (h : P line.source) :
    (r.addDirective line).FoundAt P := by
  refine (foundAt_arguments h _).bind ?_
  split <;> exact foundAt_pure _

/-- The opener of a line is at the place of the line. -/
lemma source_of_opener? {line : Line} {o : Opener} (h : opener? line = some o) :
    o.source = line.source := by
  unfold opener? at h
  simp only [Option.bind_eq_bind, Option.bind_eq_some_iff] at h
  obtain ⟨rest, -, h⟩ := h
  split at h
  · cases h
  · simp only [Option.bind_eq_some_iff] at h
    obtain ⟨inner, -, tag, -, h⟩ := h
    cases h
    rfl

/-- A line at a place of a kind keeps everything at such places. -/
lemma StandsAt.step (h : r.StandsAt P) {line : Line} (hline : P line.source) :
    (r.step line).FoundAt P ∧ (r.step line).value.StandsAt P := by
  constructor
  · unfold Builder.step
    split
    · exact h.close _ hline
    · exact foundAt_openSection r _ hline
    · exact foundAt_addDirective r hline
  · intro s hs
    rcases r.step_cases line with ⟨-, -, -, hopened⟩ | ⟨d, -, -, hstep⟩ | ⟨o, hsome, -, hstep⟩
    · exact h s (hopened.subset hs)
    · rw [hstep] at hs
      exact h s hs
    · rw [hstep] at hs
      rcases List.mem_cons.1 hs with rfl | hs
      · exact source_of_opener? hsome ▸ hline
      · exact h s hs

end Builder

end ProxyLint.Httpd

namespace ProxyLint.HttpdConfig

open Httpd Noted

/-- **What is noted about lines is at one of their places.** -/
theorem foundAt_ofLines {P : Source → Prop} {lines : List Line} (h : ∀ l ∈ lines, P l.source) :
    (ofLines lines).FoundAt P := by
  have hstart : Builder.StandsAt P { config := .ofRoot (rootSource lines) } :=
    fun s hs => by cases hs
  have hsteps : ∀ r : Builder, ∀ l ∈ lines, r.StandsAt P →
      (r.step l).FoundAt P ∧ (r.step l).value.StandsAt P :=
    fun r l hl hr => hr.step (h l hl)
  obtain ⟨hread, hstands⟩ := foundAt_foldlM_of_sound hsteps hstart
  exact hread.bind ((Builder.foundAt_noteUnclosed hstands _).bind (foundAt_pure _))

end ProxyLint.HttpdConfig
