import ProxyLint.Proofs.Any.Remark
import ProxyLint.Proofs.Include.Contents
import ProxyLint.Proofs.Include.Emitted
import ProxyLint.Proofs.Include.Reading

set_option relaxedAutoImplicit false
set_option autoImplicit false

/-!
# Includes and remarks

Two readers look at a line of nested labels. The one that finds its symbols keeps quoted runs
whole and stops at a remark. The one that finds its includes does neither: unless the whole
line is a remark, an include token counts wherever it stands. So a remark at the end of a
line may say anything but an include token, and then the text is read as before.

## Main definitions

* `ProxyLint.Include.Sheltered` — every include token of a line stands in a quoted run or in a
  remark.
* `ProxyLint.Include.TakesRemark` — a line can be given a remark.

## Main results

* `ProxyLint.Include.Resolver.forall_emit_iff` — a line includes nothing exactly if it is
  blank or a remark, or holds no include token.
* `ProxyLint.Include.Resolver.reading_script_append_remark` — a text with one more remark
  looks the same to readers.
* `ProxyLint.Include.Resolver.ofOutcome_append_remark` — both together: what a line includes,
  and that a remark does not change the configuration.
* `ProxyLint.Include.Resolver.sheltered_include` — an include token in a remark, or in a quoted
  run, counts.
-/

namespace ProxyLint.Include

/-! ### Lines without includes -/

/-- A text in which the include token does not occur is one piece. -/
lemma pieces_of_not_isInfix {cs : List Char} (hne : cs ≠ []) (h : ¬ includeToken <:+: cs) :
    pieces cs = [.text cs] :=
  pieces_of_none hne (Text.breakOn?_of_not_infix (by decide) h)

/-- Where an include token stands, there is a target, be it empty. -/
lemma exists_target_mem_pieces {cs : List Char} (h : includeToken <:+: cs) :
    ∃ target, .target target ∈ pieces cs := by
  have hne : cs ≠ [] := by
    rintro rfl
    cases List.infix_nil.1 h
  cases hbreak : Text.breakOn? includeToken cs with
  | none => exact absurd h (Text.breakOn?_eq_none hbreak)
  | some cut =>
    obtain ⟨before, after⟩ := cut
    rw [pieces_of_some hne hbreak]
    exact ⟨_, List.mem_append_right _ List.mem_cons_self⟩

namespace Resolver

variable {r : Resolver} {t : FileTree} {file : String} {includedFrom? : Option String}

/-- Between labels, something is done for every path that an include names. -/
lemma matchScript_ne_nil (hd : r.dialect = .any) (q : Request) (path : String) :
    r.matchScript t q path ≠ [] := by
  unfold matchScript
  rw [hd]
  split <;> simp

/-- Between labels, something is done for every include. -/
lemma targetScript_ne_nil (hd : r.dialect = .any) (target : List Char) (isOptional : Bool)
    (source : Source) : r.targetScript t target isOptional file source ≠ [] := by
  unfold targetScript
  dsimp only
  split
  · simp
  · unfold requestScript
    rcases r.matches? t ⟨String.ofList target, isOptional, file, source⟩ with
      _ | _ | ⟨path, paths⟩ <;> dsimp only
    · simp
    · unfold noMatchScript
      rw [hd]
      dsimp only
      split <;> simp
    · rw [List.flatMap_cons]
      exact fun hnil => matchScript_ne_nil hd _ path (List.append_eq_nil_iff.1 hnil).1

/-- A line that holds no include token is added as it is. -/
lemma lineScript_of_not_isInfix (hd : r.dialect = .any) {n : Nat} {line : List Char}
    (hmeaning : isMeaningful (Text.strip line) = true)
    (h : ¬ includeToken <:+: Text.strip line) :
    r.lineScript t file includedFrom? (n, line) =
      [.emit (Text.strip line) (Source.ofLine file n includedFrom?)] := by
  have hne := ne_nil_of_isMeaningful hmeaning
  simp only [lineScript, hmeaning, hd, pieces_of_not_isInfix hne h, Bool.not_true,
    Bool.false_eq_true, if_false, List.flatMap_singleton, pieceScript]

/-- Blank lines and remarks do nothing. -/
lemma lineScript_of_not_isMeaningful {n : Nat} {line : List Char}
    (h : isMeaningful (Text.strip line) = false) :
    r.lineScript t file includedFrom? (n, line) = [] := by
  simp only [lineScript, h, Bool.not_false, if_true]

/-- **A line includes nothing exactly if it is blank or a remark, or holds no include token**,
wherever that stands. -/
theorem forall_emit_iff (hd : r.dialect = .any) (n : Nat) (line : List Char) :
    (∀ a ∈ r.lineScript t file includedFrom? (n, line),
      ∃ content source, a = .emit content source) ↔
    (isMeaningful (Text.strip line) = true → ¬ includeToken <:+: Text.strip line) := by
  constructor
  · intro h hmeaning hin
    obtain ⟨target, htarget⟩ := exists_target_mem_pieces hin
    obtain ⟨a, as, hscript⟩ := List.exists_cons_of_ne_nil
      (@targetScript_ne_nil r t file hd target false (Source.ofLine file n includedFrom?))
    have ha : a ∈ r.targetScript t target false file (Source.ofLine file n includedFrom?) := by
      rw [hscript]
      exact List.mem_cons_self
    obtain ⟨content, source, rfl⟩ := h a (by
      simp only [lineScript, hmeaning, hd, Bool.not_true, Bool.false_eq_true, if_false]
      exact List.mem_flatMap.2 ⟨_, htarget, ha⟩)
    exact emit_notMem_targetScript ha
  · intro h a ha
    cases hmeaning : isMeaningful (Text.strip line) with
    | false =>
      rw [lineScript_of_not_isMeaningful hmeaning] at ha
      cases ha
    | true =>
      rw [lineScript_of_not_isInfix hd hmeaning (h hmeaning), List.mem_singleton] at ha
      exact ⟨_, _, ha⟩

end Resolver

/-! ### A line with a remark -/

/-- A line can be given a remark: it has no quotes, no references and no include token; and,
unless it is blank or a remark itself, it ends clearly and the remark has no include token
either. -/
structure TakesRemark (line comment : List Char) : Prop where
  noQuote : '"' ∉ line
  noQuote' : '\'' ∉ line
  noReference : ¬ ['$', '{'] <:+: line
  noInclude : ¬ includeToken <:+: line
  endsClearly : isMeaningful (Text.strip line) = true → Any.EndsClearly line
  remark : isMeaningful (Text.strip line) = true → ¬ includeToken <:+: comment

/-- A line is meaningful with a remark if it is so without it. -/
lemma isMeaningful_append_remark (line comment : List Char) :
    isMeaningful (Text.strip (line ++ '#' :: comment)) = isMeaningful (Text.strip line) := by
  by_cases hempty : Text.strip line = []
  · rw [Text.strip_append_cons_of_blank (by decide) line comment hempty, hempty]
    rfl
  · rw [Text.strip_append_cons (by decide) line comment hempty]
    obtain ⟨c, cs, hcs⟩ := List.exists_cons_of_ne_nil hempty
    rw [hcs]
    rfl

namespace Resolver

variable {r : Resolver} {t : FileTree} {file : String} {includedFrom? : Option String}

/-- A line that is given a remark looks the same to readers. -/
lemma reading_lineScript_append_remark (hd : r.dialect = .any) {line comment : List Char}
    (h : TakesRemark line comment) (n : Nat) :
    (r.lineScript t file includedFrom? (n, line ++ '#' :: comment)).map Action.reading =
      (r.lineScript t file includedFrom? (n, line)).map Action.reading := by
  have hsame := isMeaningful_append_remark line comment
  cases hmeaning : isMeaningful (Text.strip line) with
  | false =>
    rw [hmeaning] at hsame
    rw [lineScript_of_not_isMeaningful hsame, lineScript_of_not_isMeaningful hmeaning]
  | true =>
    rw [hmeaning] at hsame
    have hne := ne_nil_of_isMeaningful hmeaning
    have hin : ¬ includeToken <:+: Text.strip line := fun hin =>
      h.noInclude (hin.trans (Text.strip_isInfix line))
    have hin' : ¬ includeToken <:+: Text.strip (line ++ '#' :: comment) := by
      intro hin'
      rcases Text.infix_of_infix_append_cons (by decide) (hin'.trans (Text.strip_isInfix _)) with
        hline | hcomment
      · exact h.noInclude hline
      · exact h.remark hmeaning hcomment
    have hscan := Any.scan_strip_append_remark hne h.noQuote h.noQuote' h.noReference
      (h.endsClearly hmeaning) comment
    rw [lineScript_of_not_isInfix hd hsame hin', lineScript_of_not_isInfix hd hmeaning hin]
    simp only [List.map_singleton, Action.reading, hscan]

/-- What a line does depends on what is left of it after trimming. -/
lemma lineScript_congr {line line' : List Char} (h : Text.strip line = Text.strip line') (n : Nat) :
    r.lineScript t file includedFrom? (n, line) =
      r.lineScript t file includedFrom? (n, line') := by
  simp only [lineScript, h]

end Resolver

/-! ### A text with a remark -/

/-- The first line of what stands before a line end, and the lines after it. -/
lemma exists_lineList_eq {after : List Char} (h : StartsWithLineEnd after) :
    ∃ rest, ∀ cs, '\n' ∉ cs → cs ++ after ≠ [] →
      ∃ line, Text.lineList (cs ++ after) = line :: rest ∧
        Text.stripEnd line = Text.stripEnd cs := by
  cases h with
  | nil =>
    refine ⟨[], fun cs hcs hne => ⟨cs, ?_, rfl⟩⟩
    rw [List.append_nil] at hne ⊢
    exact Text.lineList_eq_singleton hne hcs
  | newline rest =>
    refine ⟨Text.lineList rest, fun cs hcs _ => ?_⟩
    obtain ⟨line, hline, hstrip⟩ := Text.exists_lineList_append_newline hcs
    exact ⟨line, by rw [Text.lineList_append_newline, hline]; rfl, hstrip⟩
  | returnNewline rest =>
    refine ⟨Text.lineList rest, fun cs hcs _ => ?_⟩
    have hcs' : '\n' ∉ cs ++ ['\r'] := by simpa using hcs
    obtain ⟨line, hline, hstrip⟩ := Text.exists_lineList_append_newline hcs'
    have hreturn : Text.stripEnd (cs ++ ['\r']) = Text.stripEnd cs := by
      have hblank : Text.isBlank '\r' = true := by decide
      simp [Text.stripEnd, hblank]
    refine ⟨line, ?_, hstrip.trans hreturn⟩
    rw [← List.singleton_append, ← List.append_assoc, Text.lineList_append_newline, hline]
    rfl

/-- The path upwards at the front of a line that stands for an include. -/
def upwards : List Char :=
  "../".toList

/-- A line that does not start with a path upwards stands for itself. -/
lemma linkLine_eq_self {line : List Char} (h : ¬ upwards <+: Text.strip line)
    (dialect : Dialect) : linkLine dialect line = line := by
  unfold linkLine
  rw [if_neg]
  intro hpre
  obtain ⟨rest, hrest⟩ := List.isPrefixOf_iff_prefix.1 hpre
  refine h ⟨Text.stripEnd rest, ?_⟩
  have hsplit : Text.stripStart line = ['.', '.'] ++ '/' :: rest := hrest.symm
  rw [Text.strip, hsplit, Text.stripEnd_append_cons (by decide)]
  rfl

/-- A remark does not make a path upwards of a line. -/
lemma upwards_of_append_remark {line comment : List Char}
    (h : upwards <+: Text.strip (line ++ '#' :: comment)) : upwards <+: Text.strip line := by
  by_cases hempty : Text.strip line = []
  · rw [Text.strip_append_cons_of_blank (by decide) line comment hempty] at h
    exact absurd (List.cons_prefix_cons.1 h).1 (by decide)
  · rw [Text.strip_append_cons (by decide) line comment hempty] at h
    have hpre := Text.prefix_of_prefix_append_cons (by decide) h
    cases hblanks : Text.blankEnd line with
    | nil => rwa [hblanks, List.append_nil] at hpre
    | cons c blanks =>
      rw [hblanks] at hpre
      refine Text.prefix_of_prefix_append_cons (fun hc => ?_) hpre
      have hblank : Text.isBlank c = true := by
        apply @Text.isBlank_of_mem_blankEnd line
        rw [hblanks]
        exact List.mem_cons_self
      have hnone : upwards.any Text.isBlank = false := by decide
      exact List.any_eq_false.1 hnone c hc hblank

/-- The physical lines of a text of nested labels, the first of which may stand for an
include. -/
def linkFirst (linkText : Bool) : List (List Char) → List (List Char)
  | [] => []
  | line :: rest => (if linkText then linkLine .any line else line) :: rest

/-- In the dialect of farms each line of the text is a logical line, and they are numbered from 1.
-/
lemma logicalLines_any (linkText : Bool) (cs : List Char) :
    logicalLines .any linkText (String.ofList cs) =
      ((linkFirst linkText (Text.lineList cs)).zipIdx 1).map Prod.swap := by
  unfold logicalLines numberedLines
  rw [String.toList_ofList]
  rcases Text.lineList cs with _ | ⟨line, rest⟩
  · rfl
  · rw [linkFirst, List.zipIdx_cons, List.zipIdx_cons]
    rfl

/-- Only the first line of a text may stand for an include. -/
lemma linkFirst_append {linkText : Bool} {ls : List (List Char)} {line : List Char}
    (h : linkText = true → ls = [] → ¬ upwards <+: Text.strip line) (rest : List (List Char)) :
    linkFirst linkText (ls ++ line :: rest) = linkFirst linkText ls ++ line :: rest := by
  cases ls with
  | cons l ls => rfl
  | nil =>
    cases linkText with
    | false => rfl
    | true =>
      show linkLine .any line :: rest = line :: rest
      rw [linkLine_eq_self (h rfl rfl)]

namespace Resolver

variable {r : Resolver} {t : FileTree} {file : String} {includedFrom? : Option String}

/-- The script of a text as readers see it, line by line. -/
lemma reading_script (hd : r.dialect = .any) (cs : List Char) :
    (r.script t (String.ofList cs) file includedFrom?).map Action.reading =
      ((linkFirst r.linkText (Text.lineList cs)).zipIdx 1).flatMap fun l =>
        (r.lineScript t file includedFrom? l.swap).map Action.reading := by
  rw [script, hd, logicalLines_any, List.map_flatMap, List.flatMap_map]

/-- **A text with one more remark looks the same to readers.**

**Proof sketch.** The two texts have the same physical lines with the same numbers, but for
the one that is given the remark, and that one looks the same
(`reading_lineScript_append_remark`). A line that was empty at the end of the text is new, but
nothing else than a remark. -/
theorem reading_script_append_remark (hd : r.dialect = .any)
    {before line comment after : List Char}
    (hfront : before = [] ∨ before.getLast? = some '\n') (hline : '\n' ∉ line)
    (hcomment : '\n' ∉ comment) (hback : StartsWithLineEnd after) (h : TakesRemark line comment)
    (hlink : r.linkText = true → before = [] → ¬ upwards <+: Text.strip line) :
    (r.script t (String.ofList (before ++ (line ++ '#' :: comment ++ after))) file
      includedFrom?).map Action.reading =
    (r.script t (String.ofList (before ++ (line ++ after))) file includedFrom?).map
      Action.reading := by
  obtain ⟨rest, hrest⟩ := exists_lineList_eq hback
  have hbefore : Text.lineList before = [] → before = [] := by
    intro hnil
    by_contra hne
    exact Text.lineList_ne_nil hne hnil
  obtain ⟨new, hnew, hnew'⟩ := hrest (line ++ '#' :: comment) (by simp [hline, hcomment]) (by simp)
  have hlinkNew : r.linkText = true → Text.lineList before = [] →
      ¬ upwards <+: Text.strip new := by
    intro hlinked hnil hup
    rw [Text.strip_congr hnew'] at hup
    exact hlink hlinked (hbefore hnil) (upwards_of_append_remark hup)
  have hsame : ∀ n, (r.lineScript t file includedFrom? (n, new)).map Action.reading =
      (r.lineScript t file includedFrom? (n, line)).map Action.reading := by
    intro n
    rw [lineScript_congr (Text.strip_congr hnew') n]
    exact reading_lineScript_append_remark hd h n
  rw [reading_script hd, reading_script hd, Text.lineList_append hfront,
    Text.lineList_append hfront, hnew, linkFirst_append hlinkNew, List.zipIdx_append,
    List.flatMap_append, List.zipIdx_cons, List.flatMap_cons, Prod.swap_prod_mk, hsame]
  by_cases hempty : line ++ after = []
  · obtain ⟨rfl, rfl⟩ := List.append_eq_nil_iff.1 hempty
    have hrest' : rest = [] := by
      rw [List.nil_append, List.append_nil,
        Text.lineList_eq_singleton (List.cons_ne_nil _ _) (by simpa using hcomment)] at hnew
      exact (List.cons.inj hnew).2.symm
    have hnone : ∀ n, r.lineScript t file includedFrom? (n, []) = [] := fun n =>
      lineScript_of_not_isMeaningful (by decide)
    rw [hrest', hnone]
    simp [Text.lineList]
  · obtain ⟨old, hold, hold'⟩ := hrest line hline hempty
    have hlinkOld : r.linkText = true → Text.lineList before = [] →
        ¬ upwards <+: Text.strip old := by
      intro hlinked hnil
      rw [Text.strip_congr hold']
      exact hlink hlinked (hbefore hnil)
    rw [hold, linkFirst_append hlinkOld, List.zipIdx_append, List.flatMap_append,
      List.zipIdx_cons, List.flatMap_cons, Prod.swap_prod_mk,
      lineScript_congr (Text.strip_congr hold')]

/-- **Includes and remarks.** What counts for a line of nested labels is whether an include
token stands anywhere in it: the line adds lines and does nothing else, so that no file is
included and no include fails, exactly if it is blank or a remark, or holds no include token.

So if a line of a text, not being a path upwards that stands for an include, is given a
remark, then what the text is resolved to is read as the same configuration with the same
findings, or fails for the same reason, provided that the line can be given the remark
(`TakesRemark`): it has no quotes, no references and no include token, and unless it is blank
or a remark itself, there is no include token in the remark, and the last word of the line is
not followed by a blank that is not one of ASCII.

**Proof sketch.** The first part is `forall_emit_iff`. For the second, the scripts of the two
texts look the same to readers (`reading_script_append_remark`), so that the outcomes of
carrying them out do (`reading_run`). -/
theorem ofOutcome_append_remark (hd : r.dialect = .any) :
    (∀ (file : String) (includedFrom? : Option String) (n : Nat) (line : List Char),
      (∀ a ∈ r.lineScript t file includedFrom? (n, line),
        ∃ content source, a = .emit content source) ↔
      (isMeaningful (Text.strip line) = true → ¬ includeToken <:+: Text.strip line)) ∧
    ∀ (file : String) (before line comment after : List Char),
      (before = [] ∨ before.getLast? = some '\n') → '\n' ∉ line → '\n' ∉ comment →
      StartsWithLineEnd after → TakesRemark line comment →
      (r.linkText = true → before = [] → ¬ upwards <+: Text.strip line) →
      FarmConfig.ofOutcome (r.resolveText t
          (String.ofList (before ++ (line ++ '#' :: comment ++ after))) file) =
        FarmConfig.ofOutcome (r.resolveText t (String.ofList (before ++ (line ++ after))) file) ∧
      (r.resolveText t (String.ofList (before ++ (line ++ '#' :: comment ++ after)))
          file).findings =
        (r.resolveText t (String.ofList (before ++ (line ++ after))) file).findings := by
  refine ⟨fun file includedFrom? n line => forall_emit_iff hd n line, ?_⟩
  intro file before line comment after hfront hline hcomment hback h hlink
  refine ofOutcome_eq_of_reading ?_
  rw [resolveText, expandText_eq_run, resolveText, expandText_eq_run]
  exact reading_run _ (reading_script_append_remark hd hfront hline hcomment hback h hlink) rfl

/-- A repository with one file. -/
def noteTree : FileTree :=
  ⟨.dir [("repo", .dir [("a.any", .file (some "/ignoreUrlParams \x7b \x7d"))])], []⟩

/-- The settings under which it is resolved. -/
def noteResolver : Resolver :=
  { dialect := .any, root := "/repo" }

/-- A line that is a remark includes nothing, and a remark behind a line between other lines
does not change the configuration. -/
theorem ofOutcome_noteTree :
    (∀ a ∈ noteResolver.lineScript noteTree "d.any" none (1, "# $include \"m.any\"".toList),
      ∃ content source, a = .emit content source) ∧
    FarmConfig.ofOutcome (noteResolver.resolveText noteTree
        "$include \"a.any\"\n/name x # it's $\x7blate\x7d\r\n/farms" "d.any") =
      FarmConfig.ofOutcome (noteResolver.resolveText noteTree
        "$include \"a.any\"\n/name x \r\n/farms" "d.any") := by
  obtain ⟨hincludes, hremark⟩ := ofOutcome_append_remark (r := noteResolver) (t := noteTree) rfl
  refine ⟨(hincludes _ _ _ _).2 (by decide), ?_⟩
  have htakes : TakesRemark "/name x ".toList " it's $\x7blate\x7d".toList := by
    refine ⟨by decide, by decide, by decide, by decide, fun _ => ?_, fun _ => by decide⟩
    refine .inr (.inr fun c hc => ?_)
    have hspace : (Text.blankEnd "/name x ".toList).head? = some ' ' := by decide
    cases hspace.symm.trans hc
    decide
  exact (hremark "d.any" "$include \"a.any\"\n".toList _ _ "\r\n/farms".toList
    (.inr (by decide)) (by decide) (by decide) (.returnNewline _) htakes (by decide)).1

end Resolver

/-! ### Include tokens that stand in a quoted run or in a remark -/

/-- A symbol shows no include token: if there is one, it stands between quotes. -/
def ShowsNoInclude : Any.Symbol → Prop
  | .label name => ¬ includeToken <:+: name.toList
  | .value text =>
    includeToken <:+: text.toList →
      text.toList.head? = some '"' ∨ text.toList.head? = some '\''
  | .opening => True
  | .closing => True

instance : DecidablePred ShowsNoInclude
  | .label name => inferInstanceAs (Decidable (¬ includeToken <:+: name.toList))
  | .value text => inferInstanceAs (Decidable (includeToken <:+: text.toList →
      text.toList.head? = some '"' ∨ text.toList.head? = some '\''))
  | .opening => .isTrue trivial
  | .closing => .isTrue trivial

/-- Every include token of a line stands in a quoted run that is closed, or in a remark: no
symbol of the line shows one, nor does the run that lacks its closing quote. -/
def Sheltered (line : List Char) : Prop :=
  (∀ s ∈ (Any.scan line).symbols, ShowsNoInclude s) ∧
    ∀ run ∈ (Any.scan line).unmatched?, ¬ includeToken <:+: run

instance : DecidablePred Sheltered :=
  fun _ => inferInstanceAs (Decidable (_ ∧ _))

namespace Resolver

/-- **An include token in a remark, or in a quoted run, counts.** So a remark can make a text
fail. Apart from that, a blank that is not one of ASCII becomes a part of the label before it
when a remark follows. -/
theorem sheltered_include :
    (Sheltered "/name \"$include m.any\"".toList ∧
      (noteResolver.resolveText noteTree "/name \"$include m.any\"" "d.any").lines =
        .error (.notFound "m.any\"" "d.any" 1)) ∧
    (Sheltered "/name x # $include \"m.any\"".toList ∧
      (noteResolver.resolveText noteTree "/name x # $include \"m.any\"" "d.any").lines =
        .error (.notFound "m.any" "d.any" 1) ∧
      (noteResolver.resolveText noteTree "/name x " "d.any").lines =
        .ok [⟨"/name x", ⟨some "d.any", some 1, none⟩⟩]) ∧
    (FarmConfig.ofOutcome (noteResolver.resolveText noteTree "/name\u00a0#" "d.any")).map
        (·.findings) ≠
      (FarmConfig.ofOutcome (noteResolver.resolveText noteTree "/name\u00a0" "d.any")).map
        (·.findings) := by
  decide +kernel

end Resolver

end ProxyLint.Include
