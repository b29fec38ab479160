import ProxyLint.Proofs.Include.Remark
import ProxyLint.Proofs.Places.Findings
import ProxyLint.Proofs.Places.Httpd
import ProxyLint.Proofs.Rule.Unique

set_option relaxedAutoImplicit false
set_option autoImplicit false

/-!
# Places of a parsed configuration

From a text with includes to farms or sections, places are handed on from line to token, from
token to block and from there to the typed configuration, and never changed. What is noted on the
way is either about a line, or about an include directive, which stands on a line that is left
out.

## Main definitions

* `ProxyLint.Include.Resolver.IncludeStandsAt` — where the include directives of a resolution are.
* `ProxyLint.Include.Resolver.PlacesFarms`, `ProxyLint.Include.Resolver.PlacesSections` — a
  configuration that has been read has the places of its lines.

## Main results

* `ProxyLint.Include.Resolver.includesAt_of_report_mem` — what a script reports is at one of the
  include directives of its file.
* `ProxyLint.Include.Resolver.places_of_parse` — farms and sections have the places of their
  lines, and findings those of lines or include directives.
-/

namespace ProxyLint

/-- A place with a known file and a line that is counted from 1. -/
structure Source.IsKnown (s : Source) : Prop where
  file : ∃ file, s.file? = some file
  line : ∃ n, s.line? = some n ∧ 1 ≤ n

/-- A proper line has a known place. -/
lemma Line.IsProper.isKnown {l : Line} (h : l.IsProper) : l.source.IsKnown :=
  ⟨h.file, h.number⟩

namespace Include

/-! ### Include directives -/

/-- A trimmed line that is no remark holds an include directive. -/
def HoldsInclude (dialect : Dialect) (line : List Char) : Prop :=
  isMeaningful line = true ∧
    match dialect with
    | .any => includeToken <:+: line
    | .httpd => ∃ target, IsDirective line target

/-- There is a target only where the include token occurs. -/
lemma isInfix_of_target_mem_pieces {cs target : List Char} (h : .target target ∈ pieces cs) :
    includeToken <:+: cs := by
  by_contra hnot
  have hne : cs ≠ [] := by
    rintro rfl
    rw [pieces_nil] at h
    cases h
  rw [pieces_of_not_isInfix hne hnot, List.mem_singleton] at h
  cases h

namespace Resolver

variable {r : Resolver} {t : FileTree} {text file : String} {includedFrom? : Option String}
  {f : Finding}

/-- A place is that of an include directive of a text, which is read under a name. -/
def IncludesAt (r : Resolver) (text file : String) (includedFrom? : Option String) (s : Source) :
    Prop :=
  ∃ n line, (n, line) ∈ logicalLines r.dialect r.linkText text ∧
    s = Source.ofLine file n includedFrom? ∧ HoldsInclude r.dialect (Text.strip line)

/-- A place is that of an include directive of a file that is opened when a text is resolved under
a name: of the text itself, or of a file that has been included, with the file whose include has
opened it. -/
def IncludeStandsAt (r : Resolver) (t : FileTree) (text file : String) (s : Source) : Prop :=
  ∃ inner name includedFrom?, r.Opened t text file inner name includedFrom? ∧
    r.IncludesAt inner name includedFrom? s

/-- An include directive stands in a known file, on a numbered line. -/
lemma IncludesAt.isKnown {s : Source} (h : r.IncludesAt text file includedFrom? s) :
    s.IsKnown := by
  obtain ⟨n, line, hline, rfl, -⟩ := h
  have hn : n ≠ 0 := ne_zero_of_mem_logicalLines hline
  exact ⟨⟨file, rfl⟩, n, if_neg hn, Nat.one_le_iff_ne_zero.2 hn⟩

/-- What is reported about an include is reported at its directive. -/
lemma source_of_report_mem_requestScript {q : Request} (h : .report f ∈ r.requestScript t q) :
    f.source = q.source := by
  unfold requestScript at h
  rcases hm : r.matches? t q with _ | _ | ⟨path, paths⟩ <;> rw [hm] at h <;> dsimp only at h
  · simp at h
  · unfold noMatchScript at h
    cases hd : r.dialect <;> rw [hd] at h <;> dsimp only at h <;> split at h
    case any.isTrue | httpd.isFalse =>
      rw [List.mem_singleton, Action.report.injEq] at h
      rw [h]
    all_goals simp at h
  · obtain ⟨p, -, hp⟩ := List.mem_flatMap.1 h
    unfold matchScript at hp
    split at hp
    · simp at hp
    · cases hd : r.dialect <;> rw [hd] at hp <;> simp at hp

/-- A fault of a target is reported at the place of the include. -/
lemma source_of_report_mem_targetScript {target : List Char} {isOptional : Bool} {place : Source}
    (h : .report f ∈ r.targetScript t target isOptional file place) : f.source = place := by
  unfold targetScript at h
  dsimp only at h
  split at h
  · simp at h
  · exact source_of_report_mem_requestScript h

/-- Whatever a text reports is at one of its include directives. -/
lemma includesAt_of_report_mem (h : .report f ∈ r.script t text file includedFrom?) :
    r.IncludesAt text file includedFrom? f.source := by
  obtain ⟨⟨n, line⟩, hline, h⟩ := List.mem_flatMap.1 h
  refine ⟨n, line, hline, ?_⟩
  unfold lineScript at h
  dsimp only at h
  split at h
  · cases h
  · next hmeaning =>
    simp only [Bool.not_eq_true, Bool.not_eq_false'] at hmeaning
    unfold HoldsInclude
    cases hd : r.dialect <;> rw [hd] at h <;> dsimp only at h
    · obtain ⟨p, hp, hreport⟩ := List.mem_flatMap.1 h
      cases p with
      | text c => simp [pieceScript] at hreport
      | target target =>
        exact ⟨source_of_report_mem_targetScript hreport, hmeaning,
          isInfix_of_target_mem_pieces hp⟩
    · rcases hdir : directive? (Text.strip line) with _ | d <;> rw [hdir] at h <;> dsimp only at h
      · simp at h
      · exact ⟨source_of_report_mem_targetScript h, hmeaning, d.target,
          isDirective_of_directive? hdir⟩

/-! ### Places of a parse -/

variable {lines : List Line}

/-- A place is known, and is that of a line or of an include directive of a file that has been
opened. -/
def Locates (r : Resolver) (t : FileTree) (text file : String) (lines : List Line) (s : Source) :
    Prop :=
  s.IsKnown ∧ (s ∈ lines.map Line.source ∨ r.IncludeStandsAt t text file s)

/-- If an outcome has lines that can be read into farms, then the tree of the lines has the
labels, values and braces of their tokens, each at the place of its line; the farms are written
as the tree; and what is noted is located. -/
def PlacesFarms (r : Resolver) (t : FileTree) (text file : String) (o : Outcome) : Prop :=
  ∀ read, FarmConfig.ofOutcome o = .ok read →
    ∃ (lines : List Line) (items : List Any.Item) (dropped : List (Sourced String)),
    o.lines = .ok lines ∧ items = (Any.build (lines.flatMap Any.tokensOf)).value ∧
    Any.Interleaves (Any.Item.outlineAll items) (dropped.map .ofLabel)
      ((lines.flatMap Any.tokensOf).filter fun token => !token.isClosing) ∧
    read.value.WrittenAs items ∧ ∀ f ∈ read.findings, r.Locates t text file lines f.source

/-- If an outcome has lines that can be read into sections, then the sections are those of the
opening lines, in order; each line that is a directive is dealt to one section; and what is noted
is located. -/
def PlacesSections (r : Resolver) (t : FileTree) (text file : String) (o : Outcome) : Prop :=
  ∀ read, HttpdConfig.ofOutcome o = .ok read →
    ∃ (lines : List Line) (dealt : List (Nat × ProxyLint.Directive)),
    o.lines = .ok lines ∧ read.value.openers.tail = lines.filterMap Httpd.opener? ∧
    dealt.map Prod.snd = lines.filterMap Httpd.directiveOf? ∧ read.value.Distributes dealt ∧
    ∀ f ∈ read.findings, r.Locates t text file lines f.source

/-- The lines of a text have known places, and its findings are at include directives. -/
lemma locates_resolveText (hlines : (r.resolveText t text file).lines = .ok lines) :
    (∀ l ∈ lines, r.Locates t text file lines l.source) ∧
      ∀ f ∈ (r.resolveText t text file).findings, r.Locates t text file lines f.source := by
  obtain ⟨e, hdone, rfl⟩ := exists_done_of_lines_eq_ok hlines
  rw [hdone]
  rw [resolveText, expandText_eq_run] at hdone
  obtain ⟨F, hF, rfl⟩ := grows_of_run_done hdone
  rw [Expansion.extend_empty]
  refine ⟨fun l hl => ?_, fun f hf => ?_⟩
  · exact ⟨(isProper_of_grows hF l hl).1.isKnown, .inl (List.mem_map_of_mem hl)⟩
  · obtain ⟨inner, name, from?, hopen, hreport⟩ :=
      (hF.exists_opened .start (List.Subset.refl _)).2 f hf
    have hincludes := includesAt_of_report_mem hreport
    exact ⟨hincludes.isKnown, .inr ⟨inner, name, from?, hopen, hincludes⟩⟩

/-- Farms that are read from a text have their places, and so have the faults. -/
lemma placesFarms_resolveText (r : Resolver) (t : FileTree) (text file : String) :
    r.PlacesFarms t text file (r.resolveText t text file) := by
  intro read hread
  obtain ⟨lines, hlines, rfl⟩ := exists_of_map_eq_ok hread
  obtain ⟨dropped, hdropped⟩ := Any.interleaves_outlineAll_build (lines.flatMap Any.tokensOf)
  obtain ⟨hplaced, hfound⟩ := locates_resolveText hlines
  refine ⟨lines, _, dropped, hlines, rfl, hdropped, ?_, fun f hf => ?_⟩
  · rw [← Any.value_tokens]
    exact Any.writtenAs_decode _
  · rcases List.mem_append.1 hf with hf | hf
    · exact hfound f hf
    · exact FarmConfig.foundAt_ofLines hplaced f hf

/-- Sections that are read from a text have their places, and so have the faults. -/
lemma placesSections_resolveText (r : Resolver) (t : FileTree) (text file : String) :
    r.PlacesSections t text file (r.resolveText t text file) := by
  intro read hread
  obtain ⟨lines, hlines, rfl⟩ := exists_of_map_eq_ok hread
  obtain ⟨dealt, hdealt, hdistributes⟩ := HttpdConfig.exists_distributes_ofLines lines
  obtain ⟨hplaced, hfound⟩ := locates_resolveText hlines
  refine ⟨lines, dealt, hlines, HttpdConfig.openers_ofLines lines, hdealt, hdistributes,
    fun f hf => ?_⟩
  rcases List.mem_append.1 hf with hf | hf
  · exact hfound f hf
  · exact HttpdConfig.foundAt_ofLines hplaced f hf

/-- An entry file that has lines is resolved as its text. -/
lemma exists_resolveText_of_lines {entry : String}
    (h : (r.resolveFile t entry).lines = .ok lines) :
    ∃ text, t.read? (Path.join r.root entry) = some text ∧ r.resolveFile t entry =
      r.resolveText t text (r.nameOf (Path.normalize (Path.join r.root entry))) := by
  obtain ⟨e, hdone, -⟩ := exists_done_of_lines_eq_ok h
  obtain ⟨hroot, hfile, text, htext⟩ := r.exists_text_of_resolveFile_done t hdone
  refine ⟨text, htext, ?_⟩
  simp [resolveFile, hroot, hfile, htext]

/-- **A configuration that has been read has the places of its lines.** This holds of every text
that is resolved under a name, and of every entry file that has lines, whatever the tree, the
dialect and the bounds. Every farm, list, cache and labelled entry has the place of the line with
its label; an entry without a label has that of its brace, and a single value that of the line
with the value. A section has the place of the line that opens it, and a directive that of its
line. Whatever is found is at a known file and line: that of a resolved line, or of a line that
holds an include directive, in a file that has been opened and with the file that has included
it.

**Proof sketch.** Tokens have the places of their lines (`Any.value_tokens`), and neither building
blocks nor decoding them changes a place (`Any.interleaves_outlineAll_build`,
`Any.writtenAs_decode`). For sections, a line only opens one or adds a directive
(`HttpdConfig.Builder.step_cases`). What is noted meanwhile is at the place of a line
(`FarmConfig.foundAt_ofLines`, `HttpdConfig.foundAt_ofLines`), and what was found before is at an
include directive of one of the files that have been opened (`Grows.exists_opened`,
`includesAt_of_report_mem`). -/
theorem places_of_parse (r : Resolver) (t : FileTree) :
    (∀ text file, r.PlacesFarms t text file (r.resolveText t text file) ∧
      r.PlacesSections t text file (r.resolveText t text file)) ∧
    ∀ entry lines, (r.resolveFile t entry).lines = .ok lines →
      ∃ text file, t.read? (Path.join r.root entry) = some text ∧
        file = r.nameOf (Path.normalize (Path.join r.root entry)) ∧
        r.PlacesFarms t text file (r.resolveFile t entry) ∧
        r.PlacesSections t text file (r.resolveFile t entry) := by
  refine ⟨fun text file => ⟨r.placesFarms_resolveText t text file,
    r.placesSections_resolveText t text file⟩, fun entry lines hlines => ?_⟩
  obtain ⟨text, htext, heq⟩ := exists_resolveText_of_lines hlines
  refine ⟨text, _, htext, rfl, ?_, ?_⟩ <;> rw [heq]
  · exact r.placesFarms_resolveText t text _
  · exact r.placesSections_resolveText t text _

/-- A farm that is not closed, with a value on a line of its own and an include of nothing. -/
def shopTree : FileTree :=
  ⟨.dir [("repo", .dir [
    ("d.any",
      .file (some "/farms \x7b\n/shop\n\x7b /retryDelay\n\"1\"\n$include \"x/*.any\"\n"))])], []⟩

/-- The settings under which it is resolved. -/
def shopResolver : Resolver :=
  { dialect := .any, root := "/repo" }

/-- The farm is on line 2, its value on line 4; what is found is about the include on line 5 and
the braces on lines 3 and 1. -/
theorem places_shopTree :
    (∃ text file, shopTree.read? (Path.join "/repo" "d.any") = some text ∧
      shopResolver.PlacesFarms shopTree text file (shopResolver.resolveFile shopTree "d.any")) ∧
    ∃ read, FarmConfig.ofOutcome (shopResolver.resolveFile shopTree "d.any") = .ok read ∧
      (read.value.farms.map fun f => (f.label.source.line?, f.retryDelay.bind (·.source.line?))) =
        [(some 2, some 4)] ∧
      read.findings.map (fun f => f.source.line?) = [some 5, some 3, some 1] := by
  have hdone : shopResolver.resolveFile shopTree "d.any" = .done
      ⟨#[⟨"/farms \x7b", ⟨some "d.any", some 1, none⟩⟩, ⟨"/shop", ⟨some "d.any", some 2, none⟩⟩,
        ⟨"\x7b /retryDelay", ⟨some "d.any", some 3, none⟩⟩,
        ⟨"\"1\"", ⟨some "d.any", some 4, none⟩⟩],
      #[⟨.anyIncludeNoMatch, "$include \"x/*.any\" matched no files",
        ⟨some "d.any", some 5, none⟩⟩]⟩ := by decide +kernel
  obtain ⟨text, file, htext, -, hfarms, -⟩ :=
    (places_of_parse shopResolver shopTree).2 "d.any" _ (by rw [hdone]; rfl)
  exact ⟨⟨text, file, htext, hfarms⟩, _, by rw [hdone]; rfl, by decide +kernel, by decide +kernel⟩

end Resolver

end Include

end ProxyLint
