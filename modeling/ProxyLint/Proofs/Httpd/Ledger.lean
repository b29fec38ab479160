import Mathlib.Data.List.Perm.Basic
import Mathlib.Data.List.TakeWhile
import ProxyLint.Proofs.Places.Httpd

set_option relaxedAutoImplicit false
set_option autoImplicit false

/-!
# A ledger of sections

Every line does one thing: it opens a section, closes one, is a directive of the innermost open
section, or is at fault. A closer leaves the sections inside the one that it closes unclosed, and
so does the end of the text with all that are still open. So there is a ledger of lines and what
they do, and the sections, the directives and the faults of sections are those in the ledger.

## Main definitions

* `ProxyLint.Httpd.Deed`, `ProxyLint.Httpd.Does` — what a line does where sections are open.
* `ProxyLint.Httpd.Ledger` — lines with what they do, one after the other.
* `ProxyLint.Httpd.Books` — what has been read is what the ledger says.

## Main results

* `ProxyLint.Httpd.Ledger.perm_opened` — each section that is opened is closed once, or left
  unclosed once.
* `ProxyLint.Httpd.Builder.exists_performs` — every line does one thing.
* `ProxyLint.Httpd.Books.step`, `ProxyLint.Httpd.Books.foldlM` — one line, and so every sequence
  of lines, keeps the books.
* `ProxyLint.HttpdConfig.exists_ledger_ofLines` — the ledger of all lines.
-/

namespace ProxyLint.Httpd

/-! ### Words -/

/-- A word that has begun is not lost. -/
lemma splitFrom_ne_nil {quote? : Option Char} {word? : Option (List Char)} (text : List Char)
    (h : word? ≠ none) : (splitFrom quote? word? text).1 ≠ [] := by
  fun_induction splitFrom quote? word? text with
  | case1 quote? word? => simpa using h
  | case7 word? c rest _ _ _ others =>
    obtain ⟨word, rfl⟩ := Option.ne_none_iff_exists'.1 h
    simp
  | _ => simp_all

/-- A text without words is blank. -/
lemma isBlank_of_splitWords_eq_nil {text : List Char} (h : (splitWords text).1 = []) :
    ∀ c ∈ text, Text.isBlank c = true := by
  have hsplit : (splitFrom none none text).1 = [] := List.map_eq_nil_iff.1 h
  clear h
  generalize hquote : (none : Option Char) = quote? at hsplit
  generalize hword : (none : Option (List Char)) = word? at hsplit
  fun_induction splitFrom quote? word? text with
  | case1 => simp
  | case2 quote? word? d rest hd ih =>
    subst hquote
    cases hd
  | case3 | case6 | case8 => exact absurd hsplit (splitFrom_ne_nil _ (Option.some_ne_none _))
  | case4 | case5 => cases hquote
  | case7 word? c rest _ _ hblank others ih =>
    subst hword
    exact List.forall_mem_cons.2 ⟨hblank, ih rfl rfl hsplit⟩

/-! ### What lines do -/

/-- What a line does. -/
inductive Deed where
  /-- It opens the section with a number. -/
  | opens (id : Nat) (opener : Opener)
  /-- It should open a section and does not. -/
  | malformed
  /-- It closes a section, and leaves those inside unclosed. -/
  | closes (inside : List OpenSection) (s : OpenSection)
  /-- It should close a section and does not. -/
  | stray
  /-- It is a directive of the section with a number. -/
  | directs (id : Nat) (d : Directive)
  /-- It is blank. -/
  | blank
  deriving DecidableEq, Repr, Inhabited

/-- The section that an opener with a number opens. -/
def OpenSection.ofOpener (p : Opener × Nat) : OpenSection :=
  ⟨p.2, p.1.tag, p.1.source⟩

/-- What is noted about a section that is left unclosed. -/
def OpenSection.fault (s : OpenSection) : Fault × Source :=
  (.httpdUnclosedSection, s.source)

namespace Deed

/-- The section that is opened, with its number. -/
def opened : Deed → List (Opener × Nat)
  | .opens id o => [(o, id)]
  | _ => []

/-- The section that is closed. -/
def closed : Deed → List OpenSection
  | .closes _ s => [s]
  | _ => []

/-- The sections that are left unclosed. -/
def unclosed : Deed → List OpenSection
  | .closes inside _ => inside
  | _ => []

/-- The directive, with the number of its section. -/
def dealt : Deed → List (Nat × Directive)
  | .directs id d => [(id, d)]
  | _ => []

/-- What is noted about sections at a line. -/
def faults (source : Source) : Deed → List (Fault × Source)
  | .malformed => [(.httpdMalformedSection, source)]
  | .closes inside _ => inside.map OpenSection.fault
  | .stray => [(.httpdUnexpectedSectionClose, source)]
  | .opens _ _ | .directs _ _ | .blank => []

end Deed

/-- What a line does where the sections `opened` are open, innermost first, and which sections
are open behind it. -/
inductive Does (opened : List OpenSection) (line : Line) : Deed → List OpenSection → Prop where
  | opens {rest : List Char} (id : Nat) {o : Opener} :
    line.content.toList = '<' :: rest → rest.head? ≠ some '/' → opener? line = some o →
    Does opened line (.opens id o) (.ofOpener (o, id) :: opened)
  | malformed {rest : List Char} :
    line.content.toList = '<' :: rest → rest.head? ≠ some '/' → opener? line = none →
    Does opened line .malformed opened
  | closes {rest : List Char} {inside outer : List OpenSection} {s : OpenSection} :
    line.content.toList = '<' :: '/' :: rest → opened = inside ++ s :: outer →
    Text.sameLetters s.tag (String.ofList (Builder.closerTag rest)) = true →
    (∀ s' ∈ inside, Text.sameLetters s'.tag (String.ofList (Builder.closerTag rest)) = false) →
    Does opened line (.closes inside s) outer
  | stray {rest : List Char} :
    line.content.toList = '<' :: '/' :: rest →
    (∀ s ∈ opened, Text.sameLetters s.tag (String.ofList (Builder.closerTag rest)) = false) →
    Does opened line .stray opened
  | directs {d : Directive} :
    line.content.toList.head? ≠ some '<' → directiveOf? line = some d →
    Does opened line (.directs ((opened.head?.map OpenSection.id).getD 0) d) opened
  | blank :
    (∀ c ∈ line.content.toList, Text.isBlank c = true) → Does opened line .blank opened

/-- Lines with what they do, one after the other, and the sections that are open behind them,
innermost first. -/
inductive Ledger : List (Line × Deed) → List OpenSection → Prop where
  | nil : Ledger [] []
  | concat {entries : List (Line × Deed)} {opened opened' : List OpenSection} {line : Line}
      {deed : Deed} :
    Ledger entries opened → Does opened line deed opened' →
    Ledger (entries ++ [(line, deed)]) opened'

/-- What a line does to sections: those that are open in front of it or opened by it are open
behind it, closed by it or left unclosed by it. -/
lemma Does.perm {opened opened' : List OpenSection} {line : Line} {deed : Deed}
    (h : Does opened line deed opened') :
    (deed.closed ++ (deed.unclosed ++ opened')).Perm
      (deed.opened.map .ofOpener ++ opened) := by
  cases h with
  | @closes rest inside outer s _ hopened _ _ =>
    rw [hopened]
    show (s :: (inside ++ opened')).Perm (inside ++ s :: opened')
    exact List.perm_middle.symm
  | opens _ _ _ _ | malformed _ _ _ | stray _ _ | directs _ _ | blank _ => exact .refl _

/-- **Each section that is opened is closed once, or left unclosed once**, at a line or behind
all lines. -/
theorem Ledger.perm_opened {entries : List (Line × Deed)} {left : List OpenSection}
    (h : Ledger entries left) :
    ((entries.flatMap fun e => e.2.closed) ++
      ((entries.flatMap fun e => e.2.unclosed) ++ left)).Perm
        ((entries.flatMap fun e => e.2.opened).map .ofOpener) := by
  induction h with
  | nil => exact .nil
  | @concat entries opened opened' line deed _ hdoes ih =>
    have hperm := hdoes.perm
    rw [List.perm_iff_count] at ih hperm ⊢
    intro s
    have hcount := ih s
    have hline := hperm s
    simp only [List.flatMap_append, List.flatMap_singleton, List.map_append,
      List.count_append] at hcount hline ⊢
    omega

/-! ### The books -/

/-- Whether a fault is one of sections. -/
def isOfSections (f : Finding) : Bool :=
  f.fault == .httpdMalformedSection || f.fault == .httpdUnclosedSection ||
    f.fault == .httpdUnexpectedSectionClose

/-- The faults of sections among findings, with their places. -/
def sectionFaults (found : List Finding) : List (Fault × Source) :=
  (found.filter isOfSections).map fun f => (f.fault, f.source)

/-- Faults of sections are told apart one by one. -/
@[simp] lemma sectionFaults_append (found found' : List Finding) :
    sectionFaults (found ++ found') = sectionFaults found ++ sectionFaults found' := by
  simp [sectionFaults]

namespace Builder

/-- Each section that is left open is a fault of its own. -/
lemma sectionFaults_noteUnclosed (context : OpenSection → String) (opened : List OpenSection) :
    sectionFaults (noteUnclosed context opened).findings = opened.map OpenSection.fault := by
  induction opened with
  | nil => rfl
  | cons s opened ih =>
    rw [noteUnclosed, Noted.findings_bind, sectionFaults_append, ih]
    rfl

/-- An open quote is no fault of sections. -/
lemma sectionFaults_arguments (text : List Char) (source : Source) :
    sectionFaults (arguments text source).findings = [] := by
  unfold arguments
  rcases splitWords text with ⟨words, isOpen⟩
  cases isOpen <;> rfl

end Builder

/-- What a line does to the configuration; `current` is the innermost open section. -/
def Deed.record (c : HttpdConfig) (current : Nat) : Deed → HttpdConfig
  | .opens _ o => c.addSection current o.tag o.arguments o.source
  | .directs id d => c.addDirective id d
  | .malformed | .closes _ _ | .stray | .blank => c

/-- A deed adds the opening lines of the sections that it opens. -/
lemma Deed.openers_record (deed : Deed) (c : HttpdConfig) (current : Nat) :
    (deed.record c current).openers = c.openers ++ deed.opened.map Prod.fst := by
  cases deed with
  | opens id o => exact c.openers_addSection current o
  | directs id d => exact (c.openers_addDirective id d).trans (List.append_nil _).symm
  | malformed | closes _ _ | stray | blank => exact (List.append_nil _).symm

/-- A deed deals its directives to sections that are there. -/
lemma Deed.distributes_record {c : HttpdConfig} {owned : List (Nat × Directive)}
    (h : c.Distributes owned) (deed : Deed) (hdealt : ∀ p ∈ deed.dealt, p.1 < c.size)
    (current : Nat) : (deed.record c current).Distributes (owned ++ deed.dealt) := by
  cases deed with
  | opens id o => exact (List.append_nil owned).symm ▸ h.addSection current o
  | directs id d => exact h.addDirective (hdealt _ (List.mem_singleton.2 rfl)) d
  | malformed | closes _ _ | stray | blank => exact (List.append_nil owned).symm ▸ h

namespace Builder

/-- What a line does to a builder is a deed. -/
structure Performs (r : Builder) (line : Line) (deed : Deed) : Prop where
  does : Does r.opened line deed (r.step line).value.opened
  config : (r.step line).value.config = deed.record r.config r.current
  numbers : ∀ p ∈ deed.opened, p.2 = r.config.size
  places : ∀ p ∈ deed.dealt, p.1 = r.current
  faults : sectionFaults (r.step line).findings = deed.faults line.source

/-- What a closer can do: nothing, or close the innermost open section of its tag. -/
lemma close_cases (r : Builder) (tag : String) (source : Source) :
    ((∀ s ∈ r.opened, Text.sameLetters s.tag tag = false) ∧ (r.close tag source).value = r ∧
        sectionFaults (r.close tag source).findings = [(.httpdUnexpectedSectionClose, source)]) ∨
      ∃ inside s outer, r.opened = inside ++ s :: outer ∧ Text.sameLetters s.tag tag = true ∧
        (∀ s' ∈ inside, Text.sameLetters s'.tag tag = false) ∧
        (r.close tag source).value = { r with opened := outer } ∧
        sectionFaults (r.close tag source).findings = inside.map OpenSection.fault := by
  have hsplit := List.takeWhile_append_dropWhile (l := r.opened)
    (p := fun s => !Text.sameLetters s.tag tag)
  unfold close
  dsimp only
  cases hdrop : r.opened.dropWhile fun s => !Text.sameLetters s.tag tag with
  | nil =>
    refine .inl ⟨fun s hs => ?_, rfl, rfl⟩
    simpa using List.dropWhile_eq_nil_iff.1 hdrop s hs
  | cons s outer =>
    have hhead := List.head?_dropWhile_not (fun s => !Text.sameLetters s.tag tag) r.opened
    rw [hdrop] at hsplit hhead
    refine .inr ⟨_, s, outer, hsplit.symm, by simpa using hhead, fun s' hs' => ?_, rfl, ?_⟩
    · simpa using List.mem_takeWhile_imp hs'
    · rw [Noted.findings_bind, sectionFaults_append, sectionFaults_noteUnclosed]
      exact List.append_nil _

variable (r : Builder) {line : Line} {rest : List Char}

/-- A line that leaves everything as it is. -/
lemma performs_of_idle {r : Builder} {deed : Deed} (hvalue : (r.step line).value = r)
    (hdoes : Does r.opened line deed r.opened)
    (hconfig : deed.record r.config r.current = r.config) (hopened : deed.opened = [])
    (hdealt : deed.dealt = [])
    (hfaults : sectionFaults (r.step line).findings = deed.faults line.source) :
    r.Performs line deed where
  does := by
    rw [hvalue]
    exact hdoes
  config := by rw [hvalue, hconfig]
  numbers := by simp [hopened]
  places := by simp [hdealt]
  faults := hfaults

/-- A closing line does something. -/
lemma exists_performs_closer (h : line.content.toList = '<' :: '/' :: rest) :
    ∃ deed, r.Performs line deed := by
  have hstep := r.step_closer h
  rcases r.close_cases (String.ofList (closerTag rest)) line.source with
    ⟨hnone, hvalue, hfaults⟩ | ⟨inside, s, outer, hopened, hsame, hinside, hvalue, hfaults⟩
  · rw [← hstep] at hvalue hfaults
    exact ⟨.stray, performs_of_idle hvalue (.stray h hnone) rfl rfl rfl hfaults⟩
  · rw [← hstep] at hvalue hfaults
    refine ⟨.closes inside s, ?_, by rw [hvalue]; rfl, by simp [Deed.opened],
      by simp [Deed.dealt], hfaults⟩
    rw [hvalue]
    exact .closes h hopened hsame hinside

/-- An opening line does something.

**Proof sketch.** A line without a closing bracket or without a tag is malformed, which is noted and
nothing else; any other one opens a section. -/
lemma exists_performs_opener (h : line.content.toList = '<' :: rest)
    (hrest : rest.head? ≠ some '/') : ∃ deed, r.Performs line deed := by
  have hstep := r.step_opener h hrest
  have hafter : Text.after? ['<'] line.content.toList = some rest := by
    rw [h]
    rfl
  unfold openSection at hstep
  cases hinner : Text.beforeLast? '>' (Text.stripEnd rest) with
  | none =>
    have hnone : opener? line = none := by simp [opener?, hafter, hrest, hinner]
    rw [hinner] at hstep
    exact ⟨.malformed, performs_of_idle (congrArg Noted.value hstep) (.malformed h hrest hnone)
      rfl rfl rfl (congrArg (fun x => sectionFaults x.findings) hstep)⟩
  | some inner =>
    have hvalue := congrArg Noted.value hstep
    have hfaults := congrArg (fun x => sectionFaults x.findings) hstep
    simp only [hinner, Noted.value_bind, Noted.findings_bind, value_arguments,
      sectionFaults_append, sectionFaults_arguments, List.nil_append] at hvalue hfaults
    cases hwords : (splitWords inner).1 with
    | nil =>
      have hnone : opener? line = none := by simp [opener?, hafter, hrest, hinner, hwords]
      rw [hwords] at hvalue hfaults
      exact ⟨.malformed, performs_of_idle hvalue (.malformed h hrest hnone) rfl rfl rfl hfaults⟩
    | cons tag args =>
      have hsome : opener? line = some ⟨tag, args, line.source⟩ := by
        simp [opener?, hafter, hrest, hinner, hwords]
      rw [hwords] at hvalue hfaults
      refine ⟨.opens r.config.size ⟨tag, args, line.source⟩, ?_, by rw [hvalue]; rfl,
        by simp [Deed.opened], by simp [Deed.dealt], hfaults⟩
      rw [hvalue]
      exact .opens _ h hrest hsome

/-- A directive does something. -/
lemma exists_performs_directive (h : line.content.toList.head? ≠ some '<') :
    ∃ deed, r.Performs line deed := by
  have hstep := r.step_directive h
  have hvalue := congrArg Noted.value hstep
  have hfaults := congrArg (fun x => sectionFaults x.findings) hstep
  simp only [addDirective, Noted.value_bind, Noted.findings_bind, value_arguments,
    sectionFaults_append, sectionFaults_arguments, List.nil_append] at hvalue hfaults
  cases hwords : (splitWords line.content.toList).1 with
  | nil =>
    rw [hwords] at hvalue hfaults
    exact ⟨.blank, performs_of_idle hvalue (.blank (isBlank_of_splitWords_eq_nil hwords)) rfl rfl
      rfl hfaults⟩
  | cons name args =>
    have hsome : directiveOf? line = some ⟨name, args, line.source⟩ := by
      simp [directiveOf?, h, hwords]
    have hcurrent : (r.opened.head?.map OpenSection.id).getD 0 = r.current := by
      obtain ⟨config, opened⟩ := r
      cases opened <;> rfl
    rw [hwords] at hvalue hfaults
    refine ⟨.directs r.current ⟨name, args, line.source⟩, ?_, by rw [hvalue]; rfl,
      by simp [Deed.opened], by simp [Deed.dealt], hfaults⟩
    rw [hvalue, ← hcurrent]
    exact .directs h hsome

/-- **Every line does one thing.** -/
theorem exists_performs (line : Line) : ∃ deed, r.Performs line deed := by
  by_cases hopens : line.content.toList.head? = some '<'
  · obtain ⟨rest, hrest⟩ := List.head?_eq_some_iff.1 hopens
    by_cases hcloses : rest.head? = some '/'
    · obtain ⟨rest, rfl⟩ := List.head?_eq_some_iff.1 hcloses
      exact r.exists_performs_closer hrest
    · exact r.exists_performs_opener hrest hcloses
  · exact r.exists_performs_directive hopens

end Builder

/-- What has been read is what the ledger says. -/
structure Books (r : Builder) (found : List Finding) (entries : List (Line × Deed)) : Prop where
  ledger : Ledger entries r.opened
  opensSections : r.OpensSections
  sections : r.config.openers.zipIdx.tail = entries.flatMap fun e => e.2.opened
  directives : r.config.Distributes (entries.flatMap fun e => e.2.dealt)
  faults : sectionFaults found = entries.flatMap fun e => e.2.faults e.1.source

namespace Books

variable {r : Builder} {found : List Finding} {entries : List (Line × Deed)}

/-- The books are balanced before the first line. -/
lemma start (source : Source) : Books { config := .ofRoot source } [] [] where
  ledger := .nil
  opensSections := Builder.opensSections_ofRoot source
  sections := rfl
  directives := .ofRoot source
  faults := rfl

/-- **One line keeps the books.** -/
theorem step (h : Books r found entries) {line : Line} {deed : Deed}
    (hdeed : r.Performs line deed) :
    Books (r.step line).value (found ++ (r.step line).findings) (entries ++ [(line, deed)]) where
  ledger := h.ledger.concat hdeed.does
  opensSections := h.opensSections.step line
  sections := by
    have hpos : 0 < r.config.size := h.opensSections 0 (by simp [Builder.openIds])
    have hlength : r.config.openers.length = r.config.size := by
      simp [HttpdConfig.openers, HttpdConfig.size]
    -- a section that is opened has the next number
    have hopened : (deed.opened.map Prod.fst).zipIdx r.config.size = deed.opened := by
      have hnumbers := hdeed.numbers
      cases deed with
      | opens id o => simpa [Deed.opened, eq_comm] using hnumbers
      | malformed | closes _ _ | stray | directs _ _ | blank => rfl
    have hne : r.config.openers.zipIdx ≠ [] := by
      intro hnil
      have hzero := congrArg List.length hnil
      rw [List.length_zipIdx, hlength] at hzero
      exact absurd hpos (hzero ▸ Nat.lt_irrefl 0)
    rw [hdeed.config, deed.openers_record, List.zipIdx_append, List.tail_append_of_ne_nil hne,
      h.sections, Nat.zero_add, hlength, hopened, List.flatMap_append, List.flatMap_singleton]
  directives := by
    rw [hdeed.config, List.flatMap_append, List.flatMap_singleton]
    refine Deed.distributes_record h.directives deed (fun p hp => ?_) _
    rw [hdeed.places p hp]
    exact h.opensSections.current_lt
  faults := by
    rw [sectionFaults_append, h.faults, hdeed.faults, List.flatMap_append, List.flatMap_singleton]

/-- **A sequence of lines keeps the books.** -/
theorem foldlM (h : Books r found entries) (lines : List Line) :
    ∃ entries', entries'.map Prod.fst = lines ∧
      Books (lines.foldlM Builder.step r).value
        (found ++ (lines.foldlM Builder.step r).findings) (entries ++ entries') := by
  induction lines generalizing r found entries with
  | nil => exact ⟨[], rfl, by simpa using h⟩
  | cons line lines ih =>
    obtain ⟨deed, hdeed⟩ := r.exists_performs line
    obtain ⟨entries', hlines, hrest⟩ := ih (h.step hdeed)
    refine ⟨(line, deed) :: entries', congrArg (line :: ·) hlines, ?_⟩
    rw [List.append_assoc, List.append_assoc] at hrest
    rw [List.foldlM_cons]
    exact hrest

end Books

end ProxyLint.Httpd

namespace ProxyLint.HttpdConfig

open Httpd

/-- No two sections of a configuration have the same number. -/
lemma nodup_openSections (c : HttpdConfig) :
    (c.openers.zipIdx.tail.map OpenSection.ofOpener).Nodup := by
  refine List.Nodup.of_map OpenSection.id ?_
  have hids : OpenSection.id ∘ OpenSection.ofOpener = Prod.snd := rfl
  rw [List.map_map, hids, List.map_tail, List.zipIdx_map_snd]
  exact (List.nodup_range').tail

/-- **Every line and every section is accounted for**, whatever the lines are. Each line does one
thing, as the ledger has it: a line that begins with `<` but not with `</` opens a section or is
malformed; a line that begins with `</` closes the innermost open section of its tag or is stray;
any other line is a directive of the innermost open section, unless it is blank. Then

* the sections but the whole configuration are those that lines open, in order;
* each of them is closed by one line, or it is left unclosed, by one line that closes a section
  around it or behind all lines, and never both;
* the faults of sections that are noted are one for each line that is malformed, one for each line
  that is stray, and one at the opener of each section that is left unclosed, and no others;
* each section holds the directives that lines deal to it, in order.

**Proof sketch.** Every line does one thing to the open sections, the configuration and the
findings (`Builder.exists_performs`), so the books are kept from line to line (`Books.foldlM`).
That sections are closed or left unclosed follows from the ledger alone
(`Ledger.perm_opened`). -/
theorem exists_ledger_ofLines (lines : List Line) : ∃ entries left,
    entries.map Prod.fst = lines ∧ Ledger entries left ∧
    (ofLines lines).value.openers.zipIdx.tail = (entries.flatMap fun e => e.2.opened) ∧
    ((entries.flatMap fun e => e.2.closed) ++
        ((entries.flatMap fun e => e.2.unclosed) ++ left)).Perm
      ((entries.flatMap fun e => e.2.opened).map .ofOpener) ∧
    ((entries.flatMap fun e => e.2.closed) ++
        ((entries.flatMap fun e => e.2.unclosed) ++ left)).Nodup ∧
    sectionFaults (ofLines lines).findings =
      (entries.flatMap fun e => e.2.faults e.1.source) ++ left.map OpenSection.fault ∧
    (ofLines lines).value.Distributes (entries.flatMap fun e => e.2.dealt) := by
  obtain ⟨entries, hlines, hbooks⟩ := (Books.start (rootSource lines)).foldlM lines
  rw [List.nil_append, List.nil_append] at hbooks
  have hperm := hbooks.ledger.perm_opened
  refine ⟨entries, _, hlines, hbooks.ledger, hbooks.sections, hperm, ?_, ?_, hbooks.directives⟩
  · rw [hperm.nodup_iff, ← hbooks.sections]
    exact nodup_openSections _
  · rw [ofLines, Noted.findings_bind, Noted.findings_bind, sectionFaults_append,
      sectionFaults_append, hbooks.faults, Builder.sectionFaults_noteUnclosed, Noted.findings_pure]
    exact congrArg (_ ++ ·) (List.append_nil _)

end ProxyLint.HttpdConfig
