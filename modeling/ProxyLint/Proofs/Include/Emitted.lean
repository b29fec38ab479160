import ProxyLint.Proofs.Include.Grammar
import ProxyLint.Proofs.Include.Limits
import ProxyLint.Proofs.Include.Opened

set_option relaxedAutoImplicit false
set_option autoImplicit false

/-!
# The lines of a resolution

Blank lines and remarks are left out before a line is looked at any further. Between
labels, a line is then cut at its includes, and each piece of text is a line of its own:
trimmed, not empty, and with the place of the whole line. But a remark is looked for at
the front of the whole line only, so that one which stands after an include stays.

## Main definitions

* `ProxyLint.Line.IsProper` — a line with trimmed text and a known place.
* `ProxyLint.Include.StandsIn` — a text stands in a line.
* `ProxyLint.Include.Resolver.FollowsInclude` — a line that stands after an include on its
  logical line.

## Main results

* `ProxyLint.Include.standsIn_of_text_mem_pieces` — a piece of text stands at the front of
  its line or after an include.
* `ProxyLint.Include.Resolver.isProper_of_mem_lines` — the lines of a resolution are proper,
  and none of them is a remark unless it follows an include.
* `ProxyLint.Include.Resolver.remark_after_include` — a remark that does.
-/

namespace ProxyLint

/-- A line with text that neither starts nor ends with a blank, written in a known file at
a line that is counted from 1. -/
structure Line.IsProper (l : Line) : Prop where
  nonempty : l.content ≠ ""
  front : ∀ c, l.content.toList.head? = some c → Text.isBlank c = false
  back : ∀ c, l.content.toList.getLast? = some c → Text.isBlank c = false
  file : ∃ file, l.source.file? = some file
  number : ∃ n, l.source.line? = some n ∧ 1 ≤ n

/-- Trimmed text at a line of a file is a proper line. -/
lemma Line.isProper_of_strip {content : List Char} (hne : content ≠ [])
    (htrim : Text.strip content = content) {n : Nat} (hn : n ≠ 0) (file : String)
    (includedFrom? : Option String) :
    Line.IsProper ⟨String.ofList content, Source.ofLine file n includedFrom?⟩ where
  nonempty := by
    intro hnil
    exact hne (by simpa using congrArg String.toList hnil)
  front c hc := by
    rw [String.toList_ofList, ← htrim] at hc
    exact Text.isBlank_of_head?_strip hc
  back c hc := by
    rw [String.toList_ofList, ← htrim] at hc
    exact Text.isBlank_of_getLast?_strip hc
  file := ⟨file, rfl⟩
  number := ⟨n, if_neg hn, by omega⟩

namespace Include

/-! ### Pieces of text -/

/-- A meaningful line is not empty. -/
lemma ne_nil_of_isMeaningful {cs : List Char} (h : isMeaningful cs = true) : cs ≠ [] := by
  rintro rfl
  cases h

/-- What follows a target is a suffix of the text. -/
lemma HasTarget.isSuffix {cs target rest : List Char} (h : HasTarget cs target rest) :
    rest <:+ cs := by
  cases h with
  | @quoted quoted rest _ =>
    refine (List.suffix_append (quoted ++ ['"']) rest).trans ?_
    rw [List.append_assoc, List.singleton_append]
    exact List.suffix_cons _ _
  | unclosed _ => exact List.nil_suffix
  | bare _ => exact List.nil_suffix

/-- Where a piece of text comes from: it is the line, if that has no include; or it is what
stands before the first include, or a piece of what follows the target of that.

**Proof sketch.** A line without the include token is one piece. Otherwise it is cut at the first
one, and there are no pieces but the text before, the target and those of what follows. -/
lemma text_mem_pieces {cs c : List Char} (h : .text c ∈ pieces cs) :
    (cs ≠ [] ∧ c = cs) ∨
      ∃ before after target rest, cs = before ++ includeToken ++ after ∧
        HasTarget (Text.stripStart after) target rest ∧
        ((c = Text.strip before ∧ c ≠ []) ∨ .text c ∈ pieces (Text.strip rest)) := by
  by_cases hne : cs = []
  · rw [hne, pieces_nil] at h
    cases h
  · cases hbreak : Text.breakOn? includeToken cs with
    | none =>
      rw [pieces_of_none hne hbreak, List.mem_singleton, Piece.text.injEq] at h
      exact .inl ⟨hne, h⟩
    | some cut =>
      obtain ⟨before, after⟩ := cut
      rw [pieces_of_some hne hbreak, List.mem_append, List.mem_cons] at h
      refine .inr ⟨before, after, _, _, (Text.breakOn?_eq_some (by decide) hbreak).1,
        hasTarget_splitTarget _, ?_⟩
      rcases h with h | h | h
      · split at h
        · cases h
        · next hfront =>
          rw [List.mem_singleton, Piece.text.injEq] at h
          subst h
          exact .inl ⟨rfl, by simpa using hfront⟩
      · cases h
      · split at h
        · cases h
        · exact .inr h

/-- A text stands in a trimmed line: it is trimmed itself, is not empty, and is at the front
of the line or follows an include. -/
structure StandsIn (c cs : List Char) : Prop where
  nonempty : c ≠ []
  trimmed : Text.strip c = c
  place : ∃ front, front ++ c <+: cs ∧ (front = [] ∨ includeToken <:+: front)

/-- **A piece of text stands in its line.**

**Proof sketch.** Induction on the length of the line. What is before the first include
starts where the line starts, which is not at a blank; what stands in the rest of the line
follows the include. -/
theorem standsIn_of_text_mem_pieces {cs c : List Char} (htrim : Text.strip cs = cs)
    (h : .text c ∈ pieces cs) : StandsIn c cs := by
  induction hlen : cs.length using Nat.strongRecOn generalizing cs with
  | ind k ih =>
    rcases text_mem_pieces h with ⟨hne, rfl⟩ | ⟨before, after, target, rest, hcs, htarget, hc⟩
    · exact ⟨hne, htrim, [], List.prefix_refl _, .inl rfl⟩
    · rcases hc with ⟨hfront, hne⟩ | hc
      · have hstart : ∀ d, before.head? = some d → Text.isBlank d = false := by
          intro d hd
          refine @Text.isBlank_of_head?_strip cs d ?_
          rw [htrim, hcs, List.append_assoc, List.head?_append, hd]
          rfl
        refine ⟨hne, by rw [hfront, Text.strip_strip], [], ?_, .inl rfl⟩
        rw [hfront, Text.strip_eq_stripEnd hstart, hcs, List.append_assoc]
        exact (Text.stripEnd_isPrefix before).trans (List.prefix_append _ _)
      · obtain ⟨skipped, hskipped⟩ := htarget.isSuffix.trans (Text.stripStart_isSuffix after)
        obtain ⟨blanks, blanks', hblanks⟩ := Text.strip_isInfix rest
        have hshort : (Text.strip rest).length < k := by
          have hcs' := congrArg List.length hcs
          have hskipped' := congrArg List.length hskipped
          have hblanks' := congrArg List.length hblanks
          have htoken : includeToken.length = 8 := rfl
          simp only [List.length_append] at hcs' hskipped' hblanks'
          omega
        obtain ⟨hne, hc', front, ⟨back, hback⟩, -⟩ := ih _ hshort (Text.strip_strip rest) hc rfl
        refine ⟨hne, hc', before ++ includeToken ++ (skipped ++ blanks ++ front),
          ⟨back ++ blanks', ?_⟩, .inr (List.infix_append before includeToken _)⟩
        rw [hcs, ← hskipped, ← hblanks, ← hback]
        simp only [List.append_assoc]

/-! ### Lines of a script -/

/-- There is no line 0, also if the first line stands for an include.

**Proof sketch.** The lines of the text are numbered from 1, and a logical line has the number of
the one that it starts with; a link in the first line changes its text and not its number. -/
lemma ne_zero_of_mem_logicalLines {dialect : Dialect} {linkText : Bool} {text : String}
    {l : Nat × List Char} (hl : l ∈ logicalLines dialect linkText text) : l.1 ≠ 0 := by
  have hnumbered : ∀ l ∈ numberedLines text, l.1 ≠ 0 := fun l hl =>
    (isLogical_logicalLines .any text).ne_zero (by rw [logicalLines_eq]; exact hl)
  obtain ⟨physical, hphysical, hlogical⟩ : ∃ physical : List (Nat × List Char),
      (∀ l ∈ physical, l.1 ≠ 0) ∧
      logicalLines dialect linkText text = joinLines dialect physical := by
    unfold logicalLines
    rcases hlines : numberedLines text with _ | ⟨⟨n, line⟩, rest⟩
    · exact ⟨[], fun l hl => (by cases hl), by cases dialect <;> rfl⟩
    · rw [hlines] at hnumbered
      refine ⟨(n, if linkText then linkLine dialect line else line) :: rest, fun l hl => ?_,
        by cases dialect <;> rfl⟩
      rcases List.mem_cons.1 hl with rfl | hl
      · exact hnumbered (n, line) List.mem_cons_self
      · exact hnumbered l (List.mem_cons_of_mem _ hl)
  rw [hlogical] at hl
  cases dialect with
  | any => exact hphysical l hl
  | httpd =>
    have hjoined := joined_joinContinued (physical.map Prod.swap)
    have hswap : (physical.map Prod.swap).map Prod.swap = physical := by
      rw [List.map_map, Prod.swap_swap_eq, List.map_id]
    rw [hswap] at hjoined
    obtain ⟨line, hline⟩ := hjoined.exists_mem hl
    obtain ⟨l', hl', heq⟩ := List.mem_map.1 hline
    have hnumber : l'.1 = l.1 := congrArg Prod.snd heq
    rw [← hnumber]
    exact hphysical l' hl'

namespace Resolver

variable {r : Resolver} {t : FileTree} {entry : String} {text file : String}
  {includedFrom? : Option String} {content : List Char} {source : Source}

/-- What is done for an include adds no line by itself. -/
lemma emit_notMem_requestScript (q : Request) : .emit content source ∉ r.requestScript t q := by
  intro h
  unfold requestScript at h
  rcases hm : r.matches? t q with _ | _ | ⟨path, paths⟩ <;> rw [hm] at h <;> dsimp only at h
  · simp at h
  · unfold noMatchScript at h
    cases hd : r.dialect <;> rw [hd] at h <;> dsimp only at h <;> split at h <;> simp at h
  · obtain ⟨p, -, hp⟩ := List.mem_flatMap.1 h
    unfold matchScript at hp
    split at hp
    · simp at hp
    · cases hd : r.dialect <;> rw [hd] at hp <;> simp at hp

/-- Looking up a target emits no line. -/
lemma emit_notMem_targetScript {target : List Char} {isOptional : Bool} {place : Source} :
    .emit content source ∉ r.targetScript t target isOptional file place := by
  intro h
  unfold targetScript at h
  dsimp only at h
  split at h
  · simp at h
  · exact emit_notMem_requestScript _ h

/-- Each line of a script is written on a logical line of the text: it stands in that line
between labels, and is that line in the web server's dialect. -/
lemma exists_logicalLine_of_emit_mem
    (h : .emit content source ∈ r.script t text file includedFrom?) :
    ∃ n line, (n, line) ∈ logicalLines r.dialect r.linkText text ∧
      source = Source.ofLine file n includedFrom? ∧ isMeaningful (Text.strip line) = true ∧
      StandsIn content (Text.strip line) ∧ (r.dialect = .httpd → content = Text.strip line) := by
  obtain ⟨⟨n, line⟩, hline, h⟩ := List.mem_flatMap.1 h
  refine ⟨n, line, hline, ?_⟩
  unfold lineScript at h
  dsimp only at h
  split at h
  · cases h
  · next hmeaning =>
    simp only [Bool.not_eq_true, Bool.not_eq_false'] at hmeaning
    have htrim : Text.strip (Text.strip line) = Text.strip line := Text.strip_strip line
    cases hd : r.dialect <;> rw [hd] at h <;> dsimp only at h
    · obtain ⟨p, hp, hemit⟩ := List.mem_flatMap.1 h
      cases p with
      | target target => exact absurd hemit emit_notMem_targetScript
      | text c =>
        rw [pieceScript, List.mem_singleton, Action.emit.injEq] at hemit
        obtain ⟨rfl, rfl⟩ := hemit
        exact ⟨rfl, hmeaning, standsIn_of_text_mem_pieces htrim hp, fun h => by cases h⟩
    · rcases hdir : directive? (Text.strip line) with _ | d <;> rw [hdir] at h <;> dsimp only at h
      · rw [List.mem_singleton, Action.emit.injEq] at h
        obtain ⟨rfl, rfl⟩ := h
        have hne := ne_nil_of_isMeaningful hmeaning
        exact ⟨rfl, hmeaning, ⟨hne, htrim, [], List.prefix_refl _, .inl rfl⟩, fun _ => rfl⟩
      · exact absurd h emit_notMem_targetScript

/-- A line that stands after an include on its logical line in a text of nested labels, which is
read under a name. -/
def FollowsInclude (r : Resolver) (text file : String) (includedFrom? : Option String) (l : Line) :
    Prop :=
  ∃ n line front, (n, line) ∈ logicalLines .any r.linkText text ∧
    l.source = Source.ofLine file n includedFrom? ∧ includeToken <:+: front ∧
    front ++ l.content.toList <+: Text.strip line

/-- The lines of a script are proper, and a remark among them follows an include. -/
lemma isProper_of_emit_mem (h : .emit content source ∈ r.script t text file includedFrom?) :
    Line.IsProper ⟨String.ofList content, source⟩ ∧
      ((String.ofList content).toList.head? = some '#' →
        r.dialect = .any ∧
          r.FollowsInclude text file includedFrom? ⟨String.ofList content, source⟩) := by
  obtain ⟨n, line, hline, rfl, hmeaning, hstands, hhttpd⟩ := exists_logicalLine_of_emit_mem h
  have hn : n ≠ 0 := ne_zero_of_mem_logicalLines hline
  refine ⟨Line.isProper_of_strip hstands.nonempty hstands.trimmed hn file _, fun hremark => ?_⟩
  -- a remark at the front of a line would have been left out
  have hfront : ¬ content <+: Text.strip line := by
    rintro ⟨back, hback⟩
    rw [String.toList_ofList] at hremark
    rw [isMeaningful, ← hback, List.head?_append, hremark] at hmeaning
    simp at hmeaning
  cases hd : r.dialect with
  | httpd => exact absurd (hhttpd hd ▸ List.prefix_refl _) hfront
  | any =>
    obtain ⟨front, hplace, hempty | htoken⟩ := hstands.place
    · rw [hempty] at hplace
      exact absurd hplace hfront
    · rw [hd] at hline
      refine ⟨rfl, n, line, front, hline, rfl, htoken, ?_⟩
      rw [String.toList_ofList]
      exact hplace

/-- Only an expansion that is done has lines. -/
lemma exists_done_of_lines_eq_ok {o : Outcome} {ls : List Line} (h : o.lines = .ok ls) :
    ∃ e, o = .done e ∧ ls = e.lines.toList := by
  cases o with
  | done e =>
    cases h
    exact ⟨e, rfl, rfl⟩
  | failed why e => cases h

/-- The lines of a text and of what it includes are proper, and a remark among them follows
an include in the file that it is written in. -/
lemma isProper_of_grows {F : Forest} (hF : Grows r t (r.script t text file none) F) :
    ∀ l ∈ F.lines, l.IsProper ∧ (l.content.toList.head? = some '#' → r.dialect = .any ∧
      ∃ inner name includedFrom?, r.Opened t text file inner name includedFrom? ∧
        r.FollowsInclude inner name includedFrom? l) := by
  intro l hl
  obtain ⟨inner, name, from?, content, source, hopen, hemit, rfl⟩ :=
    (hF.exists_opened .start (List.Subset.refl _)).1 l hl
  obtain ⟨hproper, hremark⟩ := isProper_of_emit_mem hemit
  refine ⟨hproper, fun hhead => ?_⟩
  obtain ⟨hd, hfollows⟩ := hremark hhead
  exact ⟨hd, inner, name, from?, hopen, hfollows⟩

/-- **The lines of a resolution are proper, and none of them is a remark unless it follows an
include.** This holds of every line that an entry file, or a text, is resolved to, whatever
the dialect, the tree and the bounds: it has text that neither starts nor ends with a blank,
a known file and a line number from 1 on. If its text starts with `#`, then the dialect is
that of nested labels, and the line stands after an include on its logical line, in one of the
files that the resolution has opened: the one that the line is said to be written in.

**Proof sketch.** The resolution has grown a forest, whose lines are the lines of the scripts
of the files that have been opened (`Grows.exists_opened`). Each of them stands in a logical line
that is neither blank nor a remark, at its front or after an include
(`standsIn_of_text_mem_pieces`). -/
theorem isProper_of_mem_lines (r : Resolver) (t : FileTree) :
    (∀ entry ls, (r.resolveFile t entry).lines = .ok ls → ∀ l ∈ ls, l.IsProper ∧
      (l.content.toList.head? = some '#' → r.dialect = .any ∧
        ∃ text, t.read? (Path.join r.root entry) = some text ∧
          ∃ inner name includedFrom?,
            r.Opened t text (r.nameOf (Path.normalize (Path.join r.root entry)))
              inner name includedFrom? ∧
            r.FollowsInclude inner name includedFrom? l)) ∧
    (∀ text file ls, (r.resolveText t text file).lines = .ok ls → ∀ l ∈ ls, l.IsProper ∧
      (l.content.toList.head? = some '#' → r.dialect = .any ∧
        ∃ inner name includedFrom?, r.Opened t text file inner name includedFrom? ∧
          r.FollowsInclude inner name includedFrom? l)) := by
  constructor
  · intro entry ls hok l hl
    obtain ⟨e, hdone, rfl⟩ := exists_done_of_lines_eq_ok hok
    obtain ⟨text, F, -, -, htext, hF, rfl⟩ := exists_forest_of_resolveFile_done hdone
    rw [Expansion.extend_empty] at hl
    obtain ⟨hproper, hremark⟩ := isProper_of_grows hF l hl
    refine ⟨hproper, fun hhead => ?_⟩
    obtain ⟨hd, hfollows⟩ := hremark hhead
    exact ⟨hd, text, htext, hfollows⟩
  · intro text file ls hok l hl
    obtain ⟨e, hdone, rfl⟩ := exists_done_of_lines_eq_ok hok
    rw [resolveText, expandText_eq_run] at hdone
    obtain ⟨F, hF, rfl⟩ := grows_of_run_done hdone
    rw [Expansion.extend_empty] at hl
    exact isProper_of_grows hF l hl

/-- A file with a remark after an include. -/
def remarkTree : FileTree :=
  ⟨.dir [("repo", .dir [
    ("d.any", .file (some "# farms\n  $include \"a.any\" # note\n")),
    ("a.any", .file (some "x"))])], []⟩

/-- The settings under which it is resolved. -/
def remarkResolver : Resolver :=
  { dialect := .any, root := "/repo" }

/-- The remark at the front of a line is left out; the one after the include is a proper
line, which follows an include. -/
theorem isProper_remarkTree :
    Line.IsProper ⟨"x", ⟨some "a.any", some 1, some "d.any"⟩⟩ ∧
    Line.IsProper ⟨"# note", ⟨some "d.any", some 2, none⟩⟩ ∧
    ∃ text, remarkTree.read? (Path.join "/repo" "d.any") = some text ∧
      ∃ inner name includedFrom?,
        remarkResolver.Opened remarkTree text
          (remarkResolver.nameOf (Path.normalize (Path.join "/repo" "d.any")))
          inner name includedFrom? ∧
        remarkResolver.FollowsInclude inner name includedFrom?
          ⟨"# note", ⟨some "d.any", some 2, none⟩⟩ := by
  have hdone : (remarkResolver.resolveFile remarkTree "d.any").lines =
      .ok [⟨"x", ⟨some "a.any", some 1, some "d.any"⟩⟩,
        ⟨"# note", ⟨some "d.any", some 2, none⟩⟩] := by
    decide +kernel
  have hlines := (isProper_of_mem_lines remarkResolver remarkTree).1 "d.any" _ hdone
  obtain ⟨hx, -⟩ := hlines _ List.mem_cons_self
  obtain ⟨hnote, hfollows⟩ := hlines _ (List.mem_cons_of_mem _ List.mem_cons_self)
  exact ⟨hx, hnote, (hfollows (by decide)).2⟩

/-- **A remark that follows an include is a line.** -/
theorem remark_after_include :
    remarkResolver.resolveFile remarkTree "d.any" =
      .done ⟨#[⟨"x", ⟨some "a.any", some 1, some "d.any"⟩⟩,
        ⟨"# note", ⟨some "d.any", some 2, none⟩⟩], #[]⟩ ∧
    remarkResolver.resolveText remarkTree "$include \"a.any\" # note" "d.any" =
      .done ⟨#[⟨"x", ⟨some "a.any", some 1, some "d.any"⟩⟩,
        ⟨"# note", ⟨some "d.any", some 1, none⟩⟩], #[]⟩ ∧
    "# note".toList.head? = some '#' := by
  decide +kernel

end Resolver

end Include

end ProxyLint
