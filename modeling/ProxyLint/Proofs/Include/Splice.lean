import ProxyLint.Proofs.Include.Grammar
import ProxyLint.Proofs.Include.Limits
import ProxyLint.Proofs.Include.Opened
import ProxyLint.Proofs.Path.Order

set_option relaxedAutoImplicit false
set_option autoImplicit false

/-!
# Splicing

What an expansion is, said without the code that computes it. A file contributes
pieces of its own text and, where its includes stand, the files that they name; to
splice is to put what these files contribute, and so on, in their places. Every
piece of text carries the name of its file, the number of its line and the name of
the file whose include has brought it in.

## Main definitions

* `ProxyLint.Include.Share` — a piece of text, or an included file.
* `ProxyLint.Include.Resolver.Finds`, `ProxyLint.Include.Resolver.StandsFor` — the
  paths that a target names, and the files that a path stands for.
* `ProxyLint.Include.Resolver.LineGives`, `ProxyLint.Include.Resolver.TextGives` —
  what a logical line and what the text of a file contribute.
* `ProxyLint.Include.Resolver.Splices` — contributions are spliced into lines.

## Main results

* `ProxyLint.Include.Grows.splices` — the lines of a forest are spliced from its
  script.
* `ProxyLint.Include.Resolver.resolveFile_splices` — the lines of an entry file are
  spliced from its text.
-/

namespace ProxyLint.Include

/-! ### Contributions -/

/-- What the members of a list give, one after the other. -/
inductive InOrder {α β : Type} (R : α → List β → Prop) : List α → List β → Prop where
  | nil : InOrder R [] []
  | cons {a : α} {as : List α} {bs bs' : List β} :
    R a bs → InOrder R as bs' → InOrder R (a :: as) (bs ++ bs')

/-- One contribution of a file. -/
inductive Share where
  /-- A piece of text, and where it is written. -/
  | text (content : List Char) (source : Source)
  /-- An included file. -/
  | file (path : String)

namespace Resolver

variable (r : Resolver) (t : FileTree)

/-- The existing paths that a target names which is written in a file. A target
without wildcards names one path, and only the web server puts up with one that
does not exist; one with wildcards names what a search finds, in path order. -/
inductive Finds (file target : String) : List String → Prop where
  | literal {full : String} :
    Glob.isPattern target = false →
    full = Path.normalize (Path.join (r.baseOf file) target) → t.contains full = true →
    Finds file target [full]
  | missing {full : String} :
    Glob.isPattern target = false →
    full = Path.normalize (Path.join (r.baseOf file) target) → t.contains full = false →
    r.dialect = .httpd → Finds file target []
  | pattern {full : String} {p : Glob.Pattern} {paths : List String} :
    Glob.isPattern target = true →
    full = Path.normalize (Path.join (r.baseOf file) target) → Glob.read? full = some p →
    paths.Perm (Glob.search t p.components (if p.absolute then "/" else ".")) →
    paths.Pairwise (fun a b => Path.le a b = true) → Finds file target paths

/-- The files that an existing path stands for: itself or, if it is a directory of
the web server, the regular files below it in path order. -/
inductive StandsFor (path : String) : List String → Prop where
  | file : t.isDir path = false → StandsFor path [path]
  | directory {files : List String} :
    r.dialect = .httpd → t.isDir path = true →
    files.Perm ((t.below path).filterMap fun (p, isDirectory) =>
      if isDirectory then none else some p) →
    files.Pairwise (fun a b => Path.le a b = true) → StandsFor path files

/-- What an include of a target contributes. -/
inductive TargetGives (file target : String) : List Share → Prop where
  | intro {paths files : List String} :
    r.Finds t file target paths → InOrder (r.StandsFor t) paths files →
    TargetGives file target (files.map .file)

/-- What a piece of a line of nested labels contributes. -/
inductive PieceGives (file : String) (source : Source) : Piece → List Share → Prop where
  | text {content : List Char} : PieceGives file source (.text content) [.text content source]
  | target {path : List Char} {ss : List Share} :
    r.TargetGives t file (String.ofList path) ss → PieceGives file source (.target path) ss

/-- What a numbered logical line of a file contributes; `includedFrom?` is the file
whose include has brought the file in. -/
inductive LineGives (file : String) (includedFrom? : Option String) :
    Nat × List Char → List Share → Prop where
  | blank {n : Nat} {line : List Char} :
    Text.strip line = [] → LineGives file includedFrom? (n, line) []
  | comment {n : Nat} {line : List Char} :
    (Text.strip line).head? = some '#' → LineGives file includedFrom? (n, line) []
  | labels {n : Nat} {line : List Char} {ps : List Piece} {ss : List Share} :
    r.dialect = .any → Text.strip line ≠ [] → (Text.strip line).head? ≠ some '#' →
    Cut (Text.strip line) ps →
    InOrder (r.PieceGives t file ⟨some file, some n, includedFrom?⟩) ps ss →
    LineGives file includedFrom? (n, line) ss
  | directive {n : Nat} {line target : List Char} {ss : List Share} :
    r.dialect = .httpd → Text.strip line ≠ [] → (Text.strip line).head? ≠ some '#' →
    IsDirective (Text.strip line) target → r.TargetGives t file (String.ofList target) ss →
    LineGives file includedFrom? (n, line) ss
  | plain {n : Nat} {line : List Char} :
    r.dialect = .httpd → Text.strip line ≠ [] → (Text.strip line).head? ≠ some '#' →
    (∀ target, ¬ IsDirective (Text.strip line) target) →
    LineGives file includedFrom? (n, line)
      [.text (Text.strip line) ⟨some file, some n, includedFrom?⟩]

/-- What the text of a file contributes, logical line by logical line. -/
inductive TextGives (file : String) (includedFrom? : Option String) (text : String) :
    List Share → Prop where
  | intro {ls : List (Nat × List Char)} {ss : List Share} :
    IsLogical r.dialect text ls → InOrder (r.LineGives t file includedFrom?) ls ss →
    TextGives file includedFrom? text ss

/-- The contributions of a file are spliced into lines, from left to right and depth
first: an included file is replaced by its own contributions, spliced in turn. -/
inductive Splices : String → List Share → List Line → Prop where
  | nil {file : String} : Splices file [] []
  | text {file : String} {content : List Char} {source : Source} {ss : List Share}
      {ls : List Line} :
    Splices file ss ls →
    Splices file (.text content source :: ss) (⟨String.ofList content, source⟩ :: ls)
  | file {file path text : String} {inside ss : List Share} {ls ls' : List Line} :
    t.read? path = some text → r.TextGives t (r.nameOf path) (some file) text inside →
    Splices (r.nameOf path) inside ls → Splices file ss ls' →
    Splices file (.file path :: ss) (ls ++ ls')

end Resolver

/-! ### Scripts contribute as the grammar says -/

section Order

variable {α β γ : Type} {R : α → List β → Prop}

/-- Lists that are made in order member by member are in order. -/
lemma InOrder.flatMap {f : α → List β} {as : List α} (h : ∀ a ∈ as, R a (f a)) :
    InOrder R as (as.flatMap f) := by
  induction as with
  | nil => exact .nil
  | cons a as ih =>
    exact .cons (h a List.mem_cons_self) (ih fun b hb => h b (List.mem_cons_of_mem a hb))

/-- What is given in order can be chosen member by member. -/
lemma InOrder.exists_map {f : α → List γ} {g : β → γ} {as : List α}
    (h : ∀ a ∈ as, ∃ bs, R a bs ∧ f a = bs.map g) :
    ∃ bs, InOrder R as bs ∧ as.flatMap f = bs.map g := by
  induction as with
  | nil => exact ⟨[], .nil, rfl⟩
  | cons a as ih =>
    obtain ⟨bs, hbs, hf⟩ := h a List.mem_cons_self
    obtain ⟨bs', hbs', hf'⟩ := ih fun b hb => h b (List.mem_cons_of_mem a hb)
    exact ⟨bs ++ bs', .cons hbs hbs', by rw [List.flatMap_cons, hf, hf', List.map_append]⟩

end Order

/-- What an action contributes. -/
def Action.share? : Action → Option Share
  | .emit content source => some (.text content source)
  | .enter path _ => some (.file path)
  | .report _ => none
  | .stop _ => none

/-- A script that goes to its end never gives up. -/
def NeverStops (as : List Action) : Prop :=
  ∀ why, Action.stop why ∉ as

/-- If a script never stops, neither do its parts. -/
lemma NeverStops.of_mem_flatMap {α : Type} {f : α → List Action} {as : List α}
    (h : NeverStops (as.flatMap f)) {a : α} (ha : a ∈ as) : NeverStops (f a) :=
  fun why hmem => h why (List.mem_flatMap.2 ⟨a, ha, hmem⟩)

/-- A script that grows never gives up. -/
lemma Grows.neverStops {r : Resolver} {t : FileTree} {as : List Action} {F : Forest}
    (h : Grows r t as F) : NeverStops as := by
  induction h with
  | nil => exact fun why hmem => by cases hmem
  | emit _ ih => exact fun why hmem => ih why (by simpa using hmem)
  | report _ ih => exact fun why hmem => ih why (by simpa using hmem)
  | enter _ _ _ _ ih => exact fun why hmem => ih why (by simpa using hmem)

namespace Resolver

variable {r : Resolver} {t : FileTree} {file : String} {includedFrom? : Option String}

/-- A path that does not make a script give up stands for the files it opens. -/
lemma exists_standsFor {q : Request} {path : String} (h : NeverStops (r.matchScript t q path)) :
    ∃ files, r.StandsFor t path files ∧
      r.matchScript t q path = files.map fun f => .enter f q := by
  unfold matchScript at h ⊢
  cases hdir : t.isDir path with
  | false => exact ⟨[path], .file hdir, rfl⟩
  | true =>
    cases hd : r.dialect with
    | any => exact absurd (by simp [hdir, hd]) (h (.isDirectory q.target q.file q.line))
    | httpd =>
      exact ⟨t.filesBelow path, .directory hd hdir (Path.perm_sort _) (Path.pairwise_sort _), rfl⟩

/-- Of an include that names nothing, only the web server goes on without wildcards. -/
lemma dialect_of_noMatch {q : Request} (h : NeverStops (r.noMatchScript q))
    (hpattern : Glob.isPattern q.target = false) : r.dialect = .httpd := by
  cases hd : r.dialect with
  | httpd => rfl
  | any =>
    have hstop : .stop (.notFound q.target q.file q.line) ∈ r.noMatchScript q := by
      simp [noMatchScript, hd, hpattern]
    exact absurd hstop (h _)

/-- The paths that an include names are found as its target says, unless the script
gives up. -/
lemma finds_of_matches? {q : Request} {paths : List String}
    (h : NeverStops (r.requestScript t q)) (hm : r.matches? t q = some paths) :
    r.Finds t q.file q.target paths := by
  have hm' := hm
  simp only [matches?] at hm'
  cases hpattern : Glob.isPattern q.target with
  | true =>
    simp only [hpattern, if_true] at hm'
    obtain ⟨p, hp, hpaths⟩ := Option.map_eq_some_iff.1 hm'
    rw [← hpaths]
    exact .pattern hpattern rfl hp (Path.perm_sort _) (Path.pairwise_sort _)
  | false =>
    simp only [hpattern, Bool.false_eq_true, if_false] at hm'
    cases hfull : t.contains (r.lookupPath q) with
    | true =>
      simp only [hfull, if_true] at hm'
      cases hm'
      exact .literal hpattern rfl hfull
    | false =>
      simp only [hfull, Bool.false_eq_true, if_false] at hm'
      cases hm'
      rw [requestScript, hm] at h
      exact .missing hpattern rfl hfull (dialect_of_noMatch h hpattern)

/-- Files that are entered give their contents. -/
lemma filterMap_share?_enter (files : List String) (q : Request) :
    (files.map fun f => Action.enter f q).filterMap Action.share? = files.map Share.file := by
  rw [List.filterMap_map, ← List.filterMap_eq_map]
  rfl

/-- If nothing is found and that is no reason to stop, nothing is given. -/
lemma filterMap_share?_noMatch {q : Request} (h : NeverStops (r.noMatchScript q)) :
    (r.noMatchScript q).filterMap Action.share? = [] := by
  rw [List.filterMap_eq_nil_iff]
  intro a ha
  rcases report_or_stop_of_mem_noMatchScript ha with ⟨f, rfl⟩ | ⟨why, rfl⟩
  · rfl
  · exact absurd ha (h why)

/-- The files that an include opens are those of its target. -/
lemma targetGives_requestScript {q : Request} (h : NeverStops (r.requestScript t q)) :
    r.TargetGives t q.file q.target ((r.requestScript t q).filterMap Action.share?) := by
  cases hm : r.matches? t q with
  | none => exact absurd (by simp [requestScript, hm]) (h (.invalidPattern q.target))
  | some paths =>
    have hfinds := finds_of_matches? h hm
    cases paths with
    | nil =>
      rw [requestScript, hm] at h ⊢
      rw [filterMap_share?_noMatch h]
      exact .intro hfinds .nil
    | cons path paths =>
      rw [requestScript, hm] at h ⊢
      obtain ⟨files, hfiles, heq⟩ := InOrder.exists_map
        fun p hp => exists_standsFor (h.of_mem_flatMap hp)
      dsimp only
      rw [heq, filterMap_share?_enter]
      exact .intro hfinds hfiles

/-- A target gives the files that it names. -/
lemma targetGives_targetScript {target : List Char} {isOptional : Bool} {source : Source}
    (h : NeverStops (r.targetScript t target isOptional file source)) :
    target ≠ [] ∧ r.TargetGives t file (String.ofList target)
      ((r.targetScript t target isOptional file source).filterMap Action.share?) := by
  unfold targetScript at h ⊢
  dsimp only at h ⊢
  by_cases hempty : target = []
  · rw [if_pos (by simpa using hempty)] at h
    exact absurd List.mem_cons_self (h _)
  · rw [if_neg (by simpa using hempty)] at h ⊢
    exact ⟨hempty, targetGives_requestScript h⟩

/-- What a line does to an expansion is what it contributes.

**Proof sketch.** By the dialect, and by what the line is: blank lines and remarks give nothing, a
line of farms gives what its pieces give, and a line of directives is an include or stands for
itself. -/
lemma lineGives_lineScript {n : Nat} {line : List Char} (hn : n ≠ 0)
    (h : NeverStops (r.lineScript t file includedFrom? (n, line))) :
    r.LineGives t file includedFrom? (n, line)
      ((r.lineScript t file includedFrom? (n, line)).filterMap Action.share?) := by
  have hsource : Source.ofLine file n includedFrom? = ⟨some file, some n, includedFrom?⟩ := by
    rw [Source.ofLine, if_neg hn]
  unfold lineScript at h ⊢
  dsimp only at h ⊢
  rw [hsource] at h ⊢
  by_cases hblank : Text.strip line = []
  · rw [if_pos (by simp [isMeaningful, hblank])]
    exact .blank hblank
  by_cases hcomment : (Text.strip line).head? = some '#'
  · rw [if_pos (by simp [isMeaningful, hcomment])]
    exact .comment hcomment
  rw [if_neg (by simp [isMeaningful, hblank, hcomment])] at h ⊢
  cases hd : r.dialect with
  | any =>
    simp only [hd] at h ⊢
    have hpiece : ∀ p ∈ pieces (Text.strip line),
        r.PieceGives t file ⟨some file, some n, includedFrom?⟩ p
          ((r.pieceScript t file ⟨some file, some n, includedFrom?⟩ p).filterMap
            Action.share?) := by
      intro p hp
      have hp' := h.of_mem_flatMap hp
      cases p with
      | text content => exact .text
      | target path => exact .target (targetGives_targetScript hp').2
    have hfull : ∀ path, .target path ∈ pieces (Text.strip line) → path ≠ [] :=
      fun path hp => (targetGives_targetScript (h.of_mem_flatMap hp)).1
    rw [List.filterMap_flatMap]
    exact .labels hd hblank hcomment (cut_pieces _ hfull) (.flatMap hpiece)
  | httpd =>
    simp only [hd] at h ⊢
    cases hdir : directive? (Text.strip line) with
    | none =>
      refine .plain hd hblank hcomment fun target htarget => ?_
      obtain ⟨isOptional, hsome⟩ := exists_directive?_of_isDirective htarget
      rw [hdir] at hsome
      cases hsome
    | some d =>
      simp only [hdir] at h
      exact .directive hd hblank hcomment (isDirective_of_directive? hdir)
        (targetGives_targetScript h).2

/-- What the script of a file does to an expansion is what its text contributes. -/
theorem textGives_script {text : String} (hlink : r.linkText = false)
    (h : NeverStops (r.script t text file includedFrom?)) :
    r.TextGives t file includedFrom? text
      ((r.script t text file includedFrom?).filterMap Action.share?) := by
  have hlogical := isLogical_logicalLines r.dialect text
  unfold script at h ⊢
  rw [hlink] at h ⊢
  rw [List.filterMap_flatMap]
  refine .intro hlogical (.flatMap fun l hl => ?_)
  exact lineGives_lineScript (hlogical.ne_zero hl) (h.of_mem_flatMap hl)

end Resolver

/-! ### Forests are spliced -/

/-- **The lines of a forest are spliced from its script.**

**Proof sketch.** Induction on the growth. A line is a contribution of the file; an
included file grows from its own script, which is what its text contributes. -/
theorem Grows.splices {r : Resolver} {t : FileTree} {as : List Action} {F : Forest}
    (h : Grows r t as F) (hlink : r.linkText = false) {file : String}
    (hfile : ∀ path q, .enter path q ∈ as → q.file = file) :
    r.Splices t file (as.filterMap Action.share?) F.lines := by
  induction h generalizing file with
  | nil => exact .nil
  | emit _ ih => exact .text (ih fun path q hq => hfile path q (List.mem_cons_of_mem _ hq))
  | report _ ih => exact ih fun path q hq => hfile path q (List.mem_cons_of_mem _ hq)
  | @enter path text q as F G htext hin _ ihin ih =>
    have hq : q.file = file := hfile path q List.mem_cons_self
    have hgives := Resolver.textGives_script hlink hin.neverStops
    rw [hq] at hgives ihin
    exact .file htext hgives (ihin fun p q' hq' => Resolver.file_of_enter_mem_script hq')
      (ih fun p q' hq' => hfile p q' (List.mem_cons_of_mem _ hq'))

namespace Resolver

variable {r : Resolver} {t : FileTree} {entry : String}

/-- **The lines of an entry file are spliced from its text.** If the resolution of an
entry file gives lines, they are what its text contributes with every included file
spliced in. Nobody includes the entry file, and its name is that of its path in
normal form.

**Proof sketch.** The resolution has grown a forest from the script of the entry
file (`exists_forest_of_resolveFile_done`), whose lines are spliced from the script
(`Grows.splices`), which is what the text contributes (`textGives_script`). -/
theorem resolveFile_splices {ls : List Line} (hlink : r.linkText = false)
    (h : (r.resolveFile t entry).lines = .ok ls) :
    ∃ text ss, t.read? (Path.join r.root entry) = some text ∧
      r.TextGives t (r.nameOf (Path.normalize (Path.join r.root entry))) none text ss ∧
      r.Splices t (r.nameOf (Path.normalize (Path.join r.root entry))) ss ls := by
  cases hdone : r.resolveFile t entry with
  | failed why e => rw [hdone] at h; cases h
  | done e =>
    rw [hdone] at h
    cases h
    obtain ⟨text, F, -, -, htext, hF, rfl⟩ := exists_forest_of_resolveFile_done hdone
    rw [Expansion.extend_empty]
    exact ⟨text, _, htext, textGives_script hlink hF.neverStops,
      hF.splices hlink fun path q hq => file_of_enter_mem_script hq⟩

/-- A file with text around two includes, one of which is a pattern that finds a file
which includes another. -/
def farmTree : FileTree :=
  ⟨.dir [("repo", .dir [
    ("d.any", .file (some "# farms\n/farms \x7b $include \"p*.any\" /c $include \"q.any\" \x7d\n")),
    ("p.any", .file (some "\n  $include \"q.any\" y")),
    ("q.any", .file (some "w"))])], []⟩

/-- The settings under which it is resolved. -/
def farmResolver : Resolver :=
  { dialect := .any, root := "/repo" }

/-- The lines of `d.any`, each with the file it was written in, and how they are
spliced. -/
theorem resolveFile_farmTree_splices :
    ∃ text ss, farmTree.read? (Path.join "/repo" "d.any") = some text ∧
      farmResolver.TextGives farmTree
        (farmResolver.nameOf (Path.normalize (Path.join "/repo" "d.any"))) none text ss ∧
      farmResolver.Splices farmTree
        (farmResolver.nameOf (Path.normalize (Path.join "/repo" "d.any"))) ss
        [⟨"/farms \x7b", ⟨some "d.any", some 2, none⟩⟩,
          ⟨"w", ⟨some "q.any", some 1, some "p.any"⟩⟩,
          ⟨"y", ⟨some "p.any", some 2, some "d.any"⟩⟩,
          ⟨"/c", ⟨some "d.any", some 2, none⟩⟩,
          ⟨"w", ⟨some "q.any", some 1, some "d.any"⟩⟩,
          ⟨"\x7d", ⟨some "d.any", some 2, none⟩⟩] := by
  have hdone : farmResolver.resolveFile farmTree "d.any" =
      .done ⟨#[⟨"/farms \x7b", ⟨some "d.any", some 2, none⟩⟩,
        ⟨"w", ⟨some "q.any", some 1, some "p.any"⟩⟩,
        ⟨"y", ⟨some "p.any", some 2, some "d.any"⟩⟩,
        ⟨"/c", ⟨some "d.any", some 2, none⟩⟩,
        ⟨"w", ⟨some "q.any", some 1, some "d.any"⟩⟩,
        ⟨"\x7d", ⟨some "d.any", some 2, none⟩⟩], #[]⟩ := by
    decide +kernel
  exact resolveFile_splices rfl (by rw [hdone]; rfl)

end Resolver

end ProxyLint.Include
