import ProxyLint.Proofs.FileTree.Walk
import ProxyLint.Proofs.Include.Contents
import ProxyLint.Proofs.Include.Limits
import ProxyLint.Proofs.Path.Folder
import ProxyLint.Proofs.Path.Raw
import ProxyLint.Proofs.Provenance.Farm
import ProxyLint.Proofs.Provenance.Httpd

set_option relaxedAutoImplicit false
set_option autoImplicit false

/-!
# Transparency of includes

A line that consists of one include of one file means what the text of the file
would mean in its place. The included file may open blocks or sections that the
including file closes, may include further files, and may have faults: the two
texts have scripts that grow into forests with the same lines and the same faults,
and readers do not look at the places in which these differ.

## Main definitions

* `ProxyLint.Include.Resolver.SoleInclude` — a line that consists of one include.

## Main results

* `ProxyLint.Include.Resolver.sameBase_of_leadTo` — includes of two files of one
  folder start at one place.
* `ProxyLint.Include.Resolver.resolveText_of_soleInclude` — the text with the file in
  place of the line is resolved to the same lines and faults.
* `ProxyLint.Include.Resolver.ofOutcome_of_soleInclude` — it is the same
  configuration.
-/

namespace ProxyLint.Include

open Placed

namespace Resolver

variable {r : Resolver} {t : FileTree} {entry : String}

/-! ### Files of one folder -/

/-- The name of a file of the repository is made of the names that lead to it. -/
lemma nameOf_of_leadTo {path : String} {names : List String} (hne : names ≠ [])
    (h : Path.LeadTo (Path.normalize r.root) names (Path.normalize path))
    (hslash : ∀ n ∈ names, '\\' ∉ n.toList) :
    r.nameOf (Path.normalize path) = Text.joinWith "/" names := by
  have hplain : '\\' ∉ (Text.joinWith "/" names).toList := by
    intro hmem
    rcases Text.of_mem_joinWith hmem with hmem | ⟨n, hn, hmem⟩
    · exact absurd hmem (by decide)
    · exact hslash n hn hmem
  have hseen := Path.relativeTo?_of_leadTo hne h
  rw [nameOf, RawPath.nameFrom_bytes_eq_getD, hseen, Option.getD_some]
  rw [hseen, Option.getD_some]
  exact hplain

/-- The folder that the includes of a file of the repository start at. -/
lemma parts_baseOf (hd : r.dialect = .any) {dir : List String} {n path : String}
    (h : Path.LeadTo (Path.normalize r.root) (dir ++ [n]) (Path.normalize path))
    (hslash : ∀ m ∈ dir ++ [n], '\\' ∉ m.toList) :
    Path.parts (r.baseOf (r.nameOf (Path.normalize path))) =
      Path.parts r.root ++ dir.map Path.Part.name := by
  have hne : dir ++ [n] ≠ [] := by simp
  have hnames : ∀ m ∈ dir ++ [n], Path.IsName m := by
    intro m hm
    refine @Path.isName_of_mem_parts path m ?_
    rw [show Path.parts (Path.normalize path) = _ from h]
    exact List.mem_append_right _ (List.mem_map_of_mem hm)
  have hbase : r.baseOf (r.nameOf (Path.normalize path)) =
      (Path.parent? (Path.join r.root (Text.joinWith "/" (dir ++ [n])))).getD "" := by
    rw [nameOf_of_leadTo hne h hslash]
    simp only [baseOf, hd]
  rw [hbase]
  refine Path.parts_parent (n := n) ?_
  rw [Path.parts_join_names hne hnames, List.map_append, List.append_assoc]
  rfl

/-- **Includes of two files of one folder start at one place.** -/
theorem sameBase_of_leadTo (hd : r.dialect = .any) {dir : List String} {f g path path' : String}
    (hf : Path.LeadTo (Path.normalize r.root) (dir ++ [f]) (Path.normalize path))
    (hg : Path.LeadTo (Path.normalize r.root) (dir ++ [g]) (Path.normalize path'))
    (hslash : ∀ n ∈ dir ++ [f, g], '\\' ∉ n.toList) :
    r.SameBase (r.nameOf (Path.normalize path)) (r.nameOf (Path.normalize path')) := by
  have hf' : ∀ n ∈ dir ++ [f], '\\' ∉ n.toList := by
    intro n hn
    refine hslash n (List.Sublist.subset ?_ hn)
    exact (List.Sublist.cons_cons f (List.nil_sublist [g])).append_left dir
  have hg' : ∀ n ∈ dir ++ [g], '\\' ∉ n.toList := by
    intro n hn
    refine hslash n (List.Sublist.subset ?_ hn)
    exact (List.sublist_cons_self f [g]).append_left dir
  have hparts := (parts_baseOf hd hf hf').trans (parts_baseOf hd hg hg').symm
  have hstack := congrArg (List.foldl Path.collapse []) hparts
  exact Path.normalize_join_congr hstack

/-! ### A line that is one include -/

/-- The name of an entry file. -/
def entryName (r : Resolver) (entry : String) : String :=
  r.nameOf (Path.normalize (Path.join r.root entry))

/-- The path that a target looks up which is written in an entry file. -/
def targetPath (r : Resolver) (entry : String) (target : List Char) : String :=
  Path.normalize (Path.join (r.baseOf (r.entryName entry)) (String.ofList target))

/-- The text of an entry file is made of what stands before a line, of that line and
of what stands after it, and the line consists of one include of one file, whose
text is `inner`.

In the web server's dialect, neither the line nor what stands before it nor the
included text ends in a continued line. Between labels, both files lie in one folder
of the repository, and a backslash is no part of a name. -/
structure SoleInclude (r : Resolver) (t : FileTree) (entry : String)
    (before line after target : List Char) (inner : String) : Prop where
  text : t.read? (Path.join r.root entry) = some (String.ofList (before ++ line ++ after))
  front : before = [] ∨ before.getLast? = some '\n'
  noLineEnd : '\n' ∉ line
  back : StartsWithLineEnd after
  alone : match r.dialect with
    | .any => Cut (Text.strip line) [.target target]
    | .httpd => IsDirective (Text.strip line) target
  named : target ≠ []
  literal : Glob.isPattern (String.ofList target) = false
  file : t.read? (r.targetPath entry target) = some inner
  folder : r.dialect = .any → ∃ dir f g,
    Path.LeadTo (Path.normalize r.root) (dir ++ [f]) (Path.normalize (Path.join r.root entry)) ∧
    Path.LeadTo (Path.normalize r.root) (dir ++ [g]) (r.targetPath entry target) ∧
    ∀ n ∈ dir ++ [f, g], '\\' ∉ n.toList
  closed : r.dialect = .httpd →
    ¬ EndsOpen before ∧ ¬ IsContinued line ∧ ¬ EndsOpen inner.toList

namespace SoleInclude

variable {before line after target : List Char} {inner : String}

/-- The line of the sole include is meaningful. -/
lemma isMeaningful (h : r.SoleInclude t entry before line after target inner) :
    isMeaningful (Text.strip line) = true := by
  have halone := h.alone
  cases hd : r.dialect with
  | any => rw [hd] at halone; exact halone.isMeaningful
  | httpd => rw [hd] at halone; exact halone.isMeaningful

/-- An include of one file opens that file and does nothing else. -/
lemma targetScript_eq (h : r.SoleInclude t entry before line after target inner)
    (isOptional : Bool) (source : Source) :
    r.targetScript t target isOptional (r.entryName entry) source =
      [.enter (r.targetPath entry target)
        ⟨String.ofList target, isOptional, r.entryName entry, source⟩] := by
  have hfile := t.isFile_of_read? h.file
  have hmatches : r.matches? t ⟨String.ofList target, isOptional, r.entryName entry, source⟩ =
      some [r.targetPath entry target] := by
    have hlookup : r.lookupPath ⟨String.ofList target, isOptional, r.entryName entry, source⟩ =
        r.targetPath entry target := rfl
    simp only [matches?, hlookup, h.literal, t.contains_of_isFile hfile, Bool.false_eq_true,
      if_false, if_true]
  unfold targetScript
  dsimp only
  rw [if_neg (by simpa using h.named), requestScript, hmatches]
  dsimp only
  rw [List.flatMap_singleton, matchScript, t.isDir_eq_false_of_isFile hfile]
  rfl

/-- The line opens the included file and does nothing else. -/
lemma contentShape_eq (h : r.SoleInclude t entry before line after target inner) :
    r.contentShape t (r.entryName entry) (Text.strip line) =
      [.enter (r.targetPath entry target)] := by
  have halone := h.alone
  unfold contentShape lineScript
  dsimp only
  rw [Text.strip_strip, h.isMeaningful]
  cases hd : r.dialect with
  | any =>
    rw [hd] at halone
    simp only [Bool.not_true, Bool.false_eq_true, if_false]
    rw [pieces_of_cut halone, List.flatMap_singleton, pieceScript, h.targetScript_eq]
    rfl
  | httpd =>
    rw [hd] at halone
    obtain ⟨isOptional, hdirective⟩ := exists_directive?_of_isDirective halone
    simp only [Bool.not_true, Bool.false_eq_true, if_false, hdirective]
    rw [h.targetScript_eq]
    rfl

/-- The contents of the entry file: those before the line, the line itself, and those
after it. -/
lemma contents_text (h : r.SoleInclude t entry before line after target inner) :
    contents r.dialect (before ++ line ++ after) =
      contents r.dialect before ++ [Text.strip line] ++ contents r.dialect after := by
  have hblank : Text.strip line ≠ [] := by
    intro hnil
    have hmeaning := h.isMeaningful
    rw [hnil] at hmeaning
    cases hmeaning
  have hne : line ≠ [] := by
    rintro rfl
    exact hblank rfl
  have hopen : r.dialect = .httpd → ¬ EndsOpen line := by
    rintro hd ⟨l, hl, hcont⟩
    rw [Text.lineList_eq_singleton hne h.noLineEnd] at hl
    cases hl
    exact (h.closed hd).2.1 hcont
  rw [List.append_assoc, contents_append_of_front h.front fun hd => (h.closed hd).1,
    contents_append_of_back h.back hopen,
    contents_line h.noLineEnd (fun hd => (h.closed hd).2.1) hblank, List.append_assoc]

/-- The contents of the text with the included file in place of the line. -/
lemma contents_spliced (h : r.SoleInclude t entry before line after target inner) :
    contents r.dialect (before ++ inner.toList ++ after) =
      contents r.dialect before ++ contents r.dialect inner.toList ++
        contents r.dialect after := by
  rw [List.append_assoc, contents_append_of_front h.front fun hd => (h.closed hd).1,
    contents_append_of_back h.back fun hd => (h.closed hd).2.2, List.append_assoc]

/-- Includes of the included file start where those of the entry file start. -/
lemma sameBase (h : r.SoleInclude t entry before line after target inner) :
    r.SameBase (r.entryName entry) (r.nameOf (r.targetPath entry target)) := by
  cases hd : r.dialect with
  | any =>
    obtain ⟨dir, f, g, hf, hg, hslash⟩ := h.folder hd
    exact sameBase_of_leadTo hd hf hg hslash
  | httpd => exact .of_httpd hd _ _

/-- The script of the entry file has the shape of that of the text before the line, of
an action that opens the included file, and of that of the text after the line. -/
lemma shape_entryScript (h : r.SoleInclude t entry before line after target inner)
    (hlink : r.linkText = false) (q : Request) :
    (r.entryScript t entry (String.ofList (before ++ line ++ after))).map Action.shape =
      (r.script t (String.ofList before) (r.entryName entry) none ++
        .enter (r.targetPath entry target) q ::
          r.script t (String.ofList after) (r.entryName entry) none).map Action.shape := by
  have hentry : r.entryScript t entry (String.ofList (before ++ line ++ after)) =
      r.script t (String.ofList (before ++ line ++ after)) (r.entryName entry) none := rfl
  rw [hentry, shape_script_eq hlink, h.contents_text, List.flatMap_append, List.flatMap_append,
    List.flatMap_singleton, h.contentShape_eq, List.map_append, List.map_cons,
    shape_script_eq hlink, shape_script_eq hlink, List.append_assoc]
  rfl

/-- With the script of the included file in the middle, they have the shape of the
script of the spliced text. -/
lemma shape_spliced (h : r.SoleInclude t entry before line after target inner)
    (hlink : r.linkText = false) (includedFrom? : Option String) :
    (r.script t (String.ofList before) (r.entryName entry) none ++
      (r.script t inner (r.nameOf (r.targetPath entry target)) includedFrom? ++
        r.script t (String.ofList after) (r.entryName entry) none)).map Action.shape =
      (r.script t (String.ofList (before ++ inner.toList ++ after)) (r.entryName entry)
        none).map Action.shape := by
  have hsame : (r.script t inner (r.nameOf (r.targetPath entry target)) includedFrom?).map
      Action.shape = (r.script t inner (r.entryName entry) none).map Action.shape :=
    (shape_script h.sameBase inner).symm
  have hinner := @shape_script_eq r t (r.entryName entry) none hlink inner.toList
  rw [String.ofList_toList, ← hsame] at hinner
  rw [List.map_append, List.map_append, hinner, shape_script_eq hlink, shape_script_eq hlink,
    shape_script_eq hlink, h.contents_spliced, List.flatMap_append, List.flatMap_append,
    List.append_assoc]

end SoleInclude

/-- **The text with an included file in place of its include is resolved to the same
lines and faults.**

**Proof sketch.** The script of the entry file has the shape of one that opens the
included file between the scripts of the texts around the line; put in its place
(`Grows.inline`), the script of the included file makes this the shape of the script
of the spliced text. What grows has the same lines and faults and is no higher, so
it is within the bounds. -/
theorem resolveText_of_soleInclude {before line after target : List Char} {inner : String}
    (hlink : r.linkText = false) (h : r.SoleInclude t entry before line after target inner)
    {e : Expansion} (hdone : r.resolveFile t entry = .done e) :
    ∃ e', r.resolveText t (String.ofList (before ++ inner.toList ++ after)) (r.entryName entry) =
        .done e' ∧
      e'.lines.toList.map Line.content = e.lines.toList.map Line.content ∧
      e'.findings.toList.map (fun f => (f.fault, f.context)) =
        e.findings.toList.map fun f => (f.fault, f.context) := by
  obtain ⟨text, F, -, -, htext, hF, rfl⟩ := exists_forest_of_resolveFile_done hdone
  have hfit := within_limits_of_resolveFile_done hdone htext hF
  rw [h.text] at htext
  cases htext
  obtain ⟨G, hG, hFG⟩ := hF.of_shape (h.shape_entryScript hlink
    ⟨String.ofList target, false, r.entryName entry, .unknown⟩)
  obtain ⟨I, hI, hlines, hfindings, hheight⟩ := hG.inline h.file
  obtain ⟨G', hG', hIG⟩ := hI.of_shape (h.shape_spliced hlink _)
  have hrun : r.resolveText t (String.ofList (before ++ inner.toList ++ after))
      (r.entryName entry) = .done (Expansion.extend {} G') := by
    rw [resolveText, expandText_eq_run]
    refine hG'.run_eq_done ?_ ?_
    · rw [← hIG.height]
      have := hFG.height
      omega
    · have hlen : F.lines.length = G'.lines.length := by
        rw [hFG.length_lines, ← hlines, hIG.length_lines]
      have hzero : ({} : Expansion).lines.size = 0 := rfl
      omega
  rw [Expansion.extend_empty] at hrun
  rw [Expansion.extend_empty]
  refine ⟨_, hrun, ?_, ?_⟩
  · exact hIG.lines.symm.trans (hlines ▸ hFG.lines.symm)
  · exact hIG.findings.symm.trans (hfindings ▸ hFG.findings.symm)

/-- What is read from lines, after what was found before, is the same up to places if
the lines have the same contents and the same was found. -/
lemma forget_read_eq {α : Type} [Placed α] {read : List Line → Noted α}
    (hread : ∀ ls ls', forget ls = forget ls' → forget (read ls) = forget (read ls'))
    {ls ls' : List Line} (hls : ls'.map Line.content = ls.map Line.content)
    {fs fs' : List Finding}
    (hfs : fs'.map (fun f => (f.fault, f.context)) = fs.map fun f => (f.fault, f.context)) :
    forget (⟨(read ls').value, fs' ++ (read ls').findings⟩ : Noted α) =
      forget ⟨(read ls).value, fs ++ (read ls).findings⟩ := by
  have hboth := hread ls' ls (forget_lines_eq hls)
  have hvalue : forget (read ls').value = forget (read ls).value := congrArg Noted.value hboth
  have hfindings : forget (read ls').findings = forget (read ls).findings :=
    congrArg Noted.findings hboth
  refine Noted.ext hvalue ?_
  show forget (fs' ++ (read ls').findings) = forget (fs ++ (read ls).findings)
  rw [forget_append, forget_append, forget_findings_eq hfs, hfindings]

/-- **Includes are transparent.** Suppose that a line of an entry file consists of one
include of one file. If the entry file is read as a configuration, then so is the
text with the included file in place of the line, and up to the places in them the
two configurations are the same and the same faults were found in the same order. -/
theorem ofOutcome_of_soleInclude {before line after target : List Char} {inner : String}
    (hlink : r.linkText = false) (h : r.SoleInclude t entry before line after target inner) :
    (∀ c, FarmConfig.ofOutcome (r.resolveFile t entry) = .ok c →
      ∃ c', FarmConfig.ofOutcome (r.resolveText t
          (String.ofList (before ++ inner.toList ++ after)) (r.entryName entry)) = .ok c' ∧
        forget c' = forget c) ∧
    (∀ c, HttpdConfig.ofOutcome (r.resolveFile t entry) = .ok c →
      ∃ c', HttpdConfig.ofOutcome (r.resolveText t
          (String.ofList (before ++ inner.toList ++ after)) (r.entryName entry)) = .ok c' ∧
        forget c' = forget c) := by
  cases hdone : r.resolveFile t entry with
  | failed why e => refine ⟨fun c hc => ?_, fun c hc => ?_⟩ <;> cases hc
  | done e =>
    obtain ⟨e', hdone', hlines, hfindings⟩ := resolveText_of_soleInclude hlink h hdone
    rw [hdone']
    refine ⟨fun c hc => ?_, fun c hc => ?_⟩
    · cases hc
      refine ⟨_, rfl, forget_read_eq (fun ls ls' hls => ?_) hlines hfindings⟩
      rw [← FarmConfig.ofLines_forget, ← FarmConfig.ofLines_forget, hls]
    · cases hc
      exact ⟨_, rfl, forget_read_eq (fun ls ls' => HttpdConfig.forget_ofLines) hlines hfindings⟩

/-- A file whose include opens a block that the file closes, and has an include of its
own. -/
def siteTree : FileTree :=
  ⟨.dir [("repo", .dir [
    ("d.any", .file (some "/farms \x7b\n  $include \"g.any\"\n\x7d \x7d\n")),
    ("g.any", .file (some "/site \x7b\n$include \"h.any\"")),
    ("h.any", .file (some "/retryDelay \"1\""))])], []⟩

/-- The settings under which it is resolved. -/
def siteResolver : Resolver :=
  { dialect := .any, root := "/repo" }

/-- The second line of `d.any` is an include of `g.any`, so `d.any` is read as the same
configuration with `g.any` in its place. -/
theorem ofOutcome_siteTree :
    ∃ c c', FarmConfig.ofOutcome (siteResolver.resolveFile siteTree "d.any") = .ok c ∧
      FarmConfig.ofOutcome (siteResolver.resolveText siteTree
        (String.ofList ("/farms \x7b\n".toList ++ "/site \x7b\n$include \"h.any\"".toList ++
          "\n\x7d \x7d\n".toList)) (siteResolver.entryName "d.any")) = .ok c' ∧
      forget c' = forget c := by
  have hpieces : pieces (Text.strip "  $include \"g.any\"".toList) = [.target "g.any".toList] := by
    decide +kernel
  have halone := cut_pieces (Text.strip "  $include \"g.any\"".toList) (by
    rw [hpieces]
    intro path hpath
    rw [List.mem_singleton] at hpath
    cases hpath
    decide)
  rw [hpieces] at halone
  have hsole : siteResolver.SoleInclude siteTree "d.any" "/farms \x7b\n".toList
      "  $include \"g.any\"".toList "\n\x7d \x7d\n".toList "g.any".toList
      "/site \x7b\n$include \"h.any\"" :=
    { text := by decide +kernel
      front := .inr (by decide)
      noLineEnd := by decide
      back := .newline _
      alone := halone
      named := by decide
      literal := by decide +kernel
      file := by decide +kernel
      folder := fun _ => ⟨[], "d.any", "g.any", by unfold Path.LeadTo; decide +kernel,
        by unfold Path.LeadTo; decide +kernel, by decide⟩
      closed := fun h => by cases h }
  obtain ⟨e, hdone⟩ : ∃ e, siteResolver.resolveFile siteTree "d.any" = .done e :=
    ⟨⟨#[⟨"/farms \x7b", ⟨some "d.any", some 1, none⟩⟩,
      ⟨"/site \x7b", ⟨some "g.any", some 1, some "d.any"⟩⟩,
      ⟨"/retryDelay \"1\"", ⟨some "h.any", some 1, some "g.any"⟩⟩,
      ⟨"\x7d \x7d", ⟨some "d.any", some 3, none⟩⟩], #[]⟩, by decide +kernel⟩
  obtain ⟨c', hc', hforget⟩ := (ofOutcome_of_soleInclude rfl hsole).1 _ (by rw [hdone]; rfl)
  exact ⟨_, c', by rw [hdone]; rfl, hc', hforget⟩

end Resolver

end ProxyLint.Include
