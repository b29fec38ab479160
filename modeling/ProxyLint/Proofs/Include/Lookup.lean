import ProxyLint.Proofs.Include.Limits
import ProxyLint.Proofs.Path.Raw
import ProxyLint.Proofs.Path.Relative

set_option relaxedAutoImplicit false
set_option autoImplicit false

/-!
# Where includes are looked up

Between labels, a target is looked up from the folder of the file that holds it. The
folder is not carried along: it is found from the name of the file, which is joined to
the repository again. So everything rests on the name to lead back to the file. It does
if the file is opened under a path that starts with the parts of the repository, whatever
follows them, or under one that starts at the root. It does not if a relative path has
left the repository, since it is then joined to the repository once more; nor if a
backslash in it has been taken for a slash.

## Main definitions

* `ProxyLint.Include.Resolver.IsTraceable` — the paths whose names lead back to them.
* `ProxyLint.Include.Resolver.Asks` — the includes that a text of nested labels asks for.

## Main results

* `ProxyLint.Include.Resolver.IsTraceable.stack_join_nameOf` — the name of a traceable path
  leads back to it.
* `ProxyLint.Include.Resolver.lookupPath_of_reaches` — the includes of an open file are
  looked up from its folder.
* `ProxyLint.Include.Resolver.lookup_outside_repository` — not so for a file that is reached
  through a `..`.
-/

namespace ProxyLint.Include

namespace Resolver

variable {r : Resolver} {t : FileTree} {entry : String}

/-! ### Names that lead back -/

/-- A path whose name leads back to it: it starts with the parts of the repository, or at
the root, and no backslash in it is taken for a slash. -/
structure IsTraceable (r : Resolver) (path : String) : Prop where
  place : Path.parts (Path.normalize r.root) <+: Path.parts path ∨ Path.isAbsolute path = true
  plain : '\\' ∉ ((Path.relativeTo? (Path.normalize r.root) path).getD path).toList

/-- A name without backslashes is the path as seen from the repository, or the path. -/
lemma nameOf_eq_getD {path : String}
    (h : '\\' ∉ ((Path.relativeTo? (Path.normalize r.root) path).getD path).toList) :
    r.nameOf path = (Path.relativeTo? (Path.normalize r.root) path).getD path :=
  RawPath.nameFrom_bytes_eq_getD h

namespace IsTraceable

variable {path : String}

/-- The name of a traceable path is the path as seen from the repository, or, if it starts
at the root, the path itself. -/
lemma nameOf_cases (h : r.IsTraceable path) :
    Path.relativeTo? (Path.normalize r.root) path = some (r.nameOf path) ∨
      Path.isAbsolute path = true ∧ r.nameOf path = path := by
  have hname := nameOf_eq_getD h.plain
  cases hrel : Path.relativeTo? (Path.normalize r.root) path with
  | some rel =>
    rw [hrel, Option.getD_some] at hname
    exact .inl (congrArg some hname.symm)
  | none =>
    rw [hrel, Option.getD_none] at hname
    rcases h.place with hpre | habs
    · obtain ⟨rel, hsome⟩ := Path.exists_relativeTo?_of_isPrefix hpre
      rw [hrel] at hsome
      cases hsome
    · exact .inr ⟨habs, hname⟩

/-- **The name of a traceable path leads back to it.** -/
theorem stack_join_nameOf (h : r.IsTraceable path) :
    Path.stack (Path.join r.root (r.nameOf path)) = Path.stack path := by
  rcases h.nameOf_cases with hrel | ⟨habs, hname⟩
  · exact Path.stack_join_relativeTo? hrel
  · rw [hname, Path.join_of_isAbsolute r.root habs]

/-- The name of a file ends in the name at the end of its path. -/
lemma fileName?_nameOf (h : r.IsTraceable path) {n : String}
    (hn : Path.fileName? path = some n) (hroot : Path.stack path ≠ Path.stack r.root) :
    Path.fileName? (r.nameOf path) = some n := by
  rcases h.nameOf_cases with hrel | ⟨-, hname⟩
  · obtain ⟨ps, hps⟩ := Path.fileName?_eq_some_iff.1 hn
    obtain ⟨hparts, -⟩ := Path.parts_of_relativeTo? hrel
    rw [Path.fileName?_eq_some_iff]
    rcases List.eq_nil_or_concat (Path.parts (r.nameOf path)) with hnil | ⟨qs, q, hqs⟩
    · -- the path would be that of the repository
      refine absurd ?_ hroot
      rw [hnil, List.append_nil] at hparts
      rw [← Path.stack_normalize r.root, Path.stack, hparts]
      rfl
    · rw [hqs, List.concat_eq_append] at hparts ⊢
      rw [hps, ← List.append_assoc] at hparts
      obtain ⟨-, hq⟩ := List.append_inj' hparts rfl
      exact ⟨qs, by rw [hq]⟩
  · rw [hname, hn]

/-- The includes of a file start at the folder around it. -/
lemma stack_baseOf (hd : r.dialect = .any) (h : r.IsTraceable path) {n : String}
    (hn : Path.fileName? path = some n) (hroot : Path.stack path ≠ Path.stack r.root) :
    Path.stack (r.baseOf (r.nameOf path)) =
      Path.stack ((Path.parent? (Path.normalize path)).getD "") := by
  have hbase : r.baseOf (r.nameOf path) =
      (Path.parent? (Path.join r.root (r.nameOf path))).getD "" := by
    simp only [baseOf, hd]
  rw [hbase]
  refine Path.stack_parent_congr (Path.fileName?_join r.root (h.fileName?_nameOf hn hroot))
    (Path.fileName?_normalize hn) ?_
  rw [h.stack_join_nameOf, Path.stack_normalize]

end IsTraceable

/-- A file does not lie where the repository lies. -/
lemma stack_ne_of_isFile {path : String} (hroot : t.isDir r.root = true)
    (hfile : t.isFile path = true) : Path.stack path ≠ Path.stack r.root := by
  intro hstack
  obtain ⟨place, hplace⟩ := t.exists_locate?_of_isFile hfile
  cases hloc : t.locate? r.root with
  | none =>
    rw [FileTree.isDir, FileTree.find?, hloc] at hroot
    cases hroot
  | some place' =>
    have hsame : place' = place := by
      rw [t.locate?_eq_placeOf hplace, t.locate?_eq_placeOf hloc, hstack]
    have hdir := t.isDir_eq_false_of_isFile hfile
    rw [FileTree.isDir, FileTree.find?, hplace, ← hsame, ← hloc] at hdir
    rw [FileTree.isDir, FileTree.find?, hdir] at hroot
    cases hroot

/-! ### What a text asks for -/

/-- The includes that a text of nested labels asks for: the targets between the pieces of
its logical lines that are neither blank nor remarks. -/
inductive Asks (r : Resolver) (text file : String) (includedFrom? : Option String) :
    Request → Prop where
  | intro {n : Nat} {line target : List Char} :
    (n, line) ∈ logicalLines .any r.linkText text → isMeaningful (Text.strip line) = true →
    .target target ∈ pieces (Text.strip line) → target ≠ [] →
    Asks r text file includedFrom?
      ⟨String.ofList target, false, file, Source.ofLine file n includedFrom?⟩

/-- What a member of a list gives is a part of what the list gives. -/
lemma infix_flatMap_of_mem {α β : Type} {f : α → List β} {a : α} {as : List α} (h : a ∈ as) :
    f a <:+: as.flatMap f := by
  obtain ⟨front, back, rfl⟩ := List.append_of_mem h
  rw [List.flatMap_append, List.flatMap_cons, ← List.append_assoc]
  exact List.infix_append _ _ _

/-- What is done for an include that a text asks for is a part of its script. -/
lemma Asks.infix_script (hd : r.dialect = .any) {text file : String}
    {includedFrom? : Option String} {q : Request} (h : r.Asks text file includedFrom? q) :
    r.requestScript t q <:+: r.script t text file includedFrom? := by
  cases h with
  | @intro n line target hline hmeaning htarget hne =>
    have hpiece : r.pieceScript t file (Source.ofLine file n includedFrom?) (.target target) =
        r.requestScript t
          ⟨String.ofList target, false, file, Source.ofLine file n includedFrom?⟩ := by
      rw [pieceScript, targetScript]
      exact if_neg (by simpa using hne)
    have hscript : r.lineScript t file includedFrom? (n, line) =
        (pieces (Text.strip line)).flatMap
          (r.pieceScript t file (Source.ofLine file n includedFrom?)) := by
      simp only [lineScript, hmeaning, hd, Bool.not_true, Bool.false_eq_true, if_false]
    rw [← hpiece]
    refine (infix_flatMap_of_mem htarget).trans ?_
    rw [← hscript, script, hd]
    exact infix_flatMap_of_mem hline

/-- A text asks for targets in the name of its file. -/
lemma Asks.file_eq {text file : String} {includedFrom? : Option String} {q : Request}
    (h : r.Asks text file includedFrom? q) : q.file = file := by
  cases h
  rfl

/-! ### Open files -/

/-- The repository of a resolution that gets anywhere is a directory. -/
lemma isDir_root_of_reaches {s : Moment} (h : Reaches r t entry s) : t.isDir r.root = true := by
  induction h with
  | start hroot _ _ => exact hroot
  | act _ _ ih => exact ih
  | enter _ _ ih => exact ih

/-- At every moment of a resolution, what is left to do in the innermost file is the end of
its script, and its path ends in a name. -/
lemma innermost_of_reaches {s : Moment} (h : Reaches r t entry s) {p : String}
    {outer : List String} (hopen : s.opened = p :: outer) :
    ∃ (path text : String) (includedFrom? : Option String),
      Path.normalize path = Path.normalize p ∧ t.read? path = some text ∧
      s.todo <:+ r.script t text (r.nameOf p) includedFrom? ∧
      ∃ n, Path.fileName? p = some n := by
  induction h with
  | @start text hroot hfile htext =>
    obtain ⟨rfl, -⟩ := List.cons.inj hopen
    obtain ⟨n, hn⟩ := t.exists_fileName?_of_isFile hfile
    refine ⟨_, text, none, ?_, htext, List.suffix_refl _, n, Path.fileName?_normalize hn⟩
    exact Path.normalize_eq_iff.2 (Path.stack_normalize _).symm
  | act _ _ ih =>
    obtain ⟨path, text, from?, hpath, htext, htodo, hn⟩ := ih hopen
    exact ⟨path, text, from?, hpath, htext, (List.suffix_cons _ _).trans htodo, hn⟩
  | @enter opened depth path text q as e _ htext _ =>
    obtain ⟨rfl, -⟩ := List.cons.inj hopen
    exact ⟨path, text, some q.file, rfl, htext, List.suffix_refl _,
      t.exists_fileName?_of_isFile (t.isFile_of_read? htext)⟩

/-- **The includes of an open file are looked up from its folder.** At every moment of a
resolution, what is left to do in the innermost file is the end of the script of its text,
and what is done for each include that the text asks for is a part of that script. If the
file is open under a traceable path `p`, then the path or pattern that is looked up for an
include is its target, seen from the folder around the normal form of `p`, in normal form.

**Proof sketch.** The includes start at the folder around the name of the file, joined to
the repository. This leads back to `p` (`IsTraceable.stack_join_nameOf`) and ends in the
same name, so the folders around the two have the same normal form
(`Path.stack_parent_congr`), and a target is looked up at the same path from both
(`Path.normalize_join_congr`). -/
theorem lookupPath_of_reaches (hd : r.dialect = .any) {s : Moment} (h : Reaches r t entry s)
    {p : String} {outer : List String} (hopen : s.opened = p :: outer) (hp : r.IsTraceable p) :
    ∃ (path text : String) (includedFrom? : Option String),
      Path.normalize path = Path.normalize p ∧ t.read? path = some text ∧
      s.todo <:+ r.script t text (r.nameOf p) includedFrom? ∧
      ∀ q, r.Asks text (r.nameOf p) includedFrom? q →
        r.requestScript t q <:+: r.script t text (r.nameOf p) includedFrom? ∧
        r.lookupPath q =
          Path.normalize (Path.join ((Path.parent? (Path.normalize p)).getD "") q.target) := by
  obtain ⟨path, text, from?, hpath, htext, htodo, n, hn⟩ := innermost_of_reaches h hopen
  refine ⟨path, text, from?, hpath, htext, htodo, fun q hq => ⟨hq.infix_script hd, ?_⟩⟩
  have hroot : Path.stack p ≠ Path.stack r.root := by
    rw [← Path.normalize_eq_iff.1 hpath]
    exact stack_ne_of_isFile (isDir_root_of_reaches h) (t.isFile_of_read? htext)
  rw [lookupPath, hq.file_eq]
  exact Path.normalize_join_congr (hp.stack_baseOf hd hn hroot) q.target

/-! ### A file outside the repository -/

/-- A repository whose entry file includes a file beside the repository, which includes its
neighbour; `here` is the current directory. -/
def sharedTree (here : List String) : FileTree :=
  ⟨.dir [("w", .dir [
    ("repo", .dir [("d.any", .file (some "$include \"../shared/a.any\""))]),
    ("shared", .dir [
      ("a.any", .file (some "$include \"b.any\"")),
      ("b.any", .file (some "x"))])])], here⟩

/-- The settings under which it is resolved. -/
def sharedResolver (root : String) : Resolver :=
  { dialect := .any, root }

/-- Seen from the repository, every relative path starts with its parts, of which there are
none: the neighbour is looked up beside the file that includes it. -/
theorem lookupPath_sharedTree :
    Reaches (sharedResolver ".") (sharedTree ["w", "repo"]) "d.any"
      ⟨["../shared/a.any", "d.any"], 49,
        [.enter "../shared/b.any"
          ⟨"b.any", false, "../shared/a.any", ⟨some "../shared/a.any", some 1, some "d.any"⟩⟩],
        {}⟩ ∧
    (sharedResolver ".").IsTraceable "../shared/a.any" ∧
    ∃ (path text : String) (includedFrom? : Option String),
      Path.normalize path = Path.normalize "../shared/a.any" ∧
      (sharedTree ["w", "repo"]).read? path = some text ∧
      [Action.enter "../shared/b.any"
        ⟨"b.any", false, "../shared/a.any", ⟨some "../shared/a.any", some 1, some "d.any"⟩⟩] <:+
          (sharedResolver ".").script (sharedTree ["w", "repo"]) text
            ((sharedResolver ".").nameOf "../shared/a.any") includedFrom? ∧
      ∀ q, (sharedResolver ".").Asks text ((sharedResolver ".").nameOf "../shared/a.any")
          includedFrom? q →
        (sharedResolver ".").requestScript (sharedTree ["w", "repo"]) q <:+:
          (sharedResolver ".").script (sharedTree ["w", "repo"]) text
            ((sharedResolver ".").nameOf "../shared/a.any") includedFrom? ∧
        (sharedResolver ".").lookupPath q =
          Path.normalize
            (Path.join ((Path.parent? (Path.normalize "../shared/a.any")).getD "") q.target) := by
  have h₀ : Reaches (sharedResolver ".") (sharedTree ["w", "repo"]) "d.any"
      ⟨[Path.normalize (Path.join "." "d.any")], 49 + 1,
        (sharedResolver ".").entryScript (sharedTree ["w", "repo"]) "d.any"
          "$include \"../shared/a.any\"", {}⟩ :=
    .start (by decide +kernel) (by decide +kernel) (by decide +kernel)
  have hpath : Path.normalize (Path.join "." "d.any") = "d.any" := by decide +kernel
  have hscript₀ : (sharedResolver ".").entryScript (sharedTree ["w", "repo"]) "d.any"
      "$include \"../shared/a.any\"" =
      [.enter "../shared/a.any"
        ⟨"../shared/a.any", false, "d.any", ⟨some "d.any", some 1, none⟩⟩] := by
    decide +kernel
  rw [hpath, hscript₀] at h₀
  have hread : (sharedTree ["w", "repo"]).read? "../shared/a.any" = some "$include \"b.any\"" := by
    decide +kernel
  have h₁ := h₀.enter hread
  have hscript₁ : (sharedResolver ".").script (sharedTree ["w", "repo"]) "$include \"b.any\""
      ((sharedResolver ".").nameOf "../shared/a.any") (some "d.any") =
      [.enter "../shared/b.any"
        ⟨"b.any", false, "../shared/a.any", ⟨some "../shared/a.any", some 1, some "d.any"⟩⟩] := by
    decide +kernel
  rw [hscript₁] at h₁
  have htraceable : (sharedResolver ".").IsTraceable "../shared/a.any" :=
    ⟨.inl (by decide +kernel), by decide +kernel⟩
  exact ⟨h₁, htraceable, lookupPath_of_reaches rfl h₁ rfl htraceable⟩

/-- **A file that is reached through a `..` need not include its neighbours.** Seen from the
directory around the repository, the name of the file is joined to the repository, and its
neighbour is looked up below the repository, where it is not found. -/
theorem lookup_outside_repository :
    (∃ depth todo e q,
      Reaches (sharedResolver "repo") (sharedTree ["w"]) "d.any"
        ⟨["shared/a.any", "repo/d.any"], depth, todo, e⟩ ∧
      (sharedTree ["w"]).read? "shared/a.any" = some "$include \"b.any\"" ∧
      (sharedResolver "repo").Asks "$include \"b.any\""
        ((sharedResolver "repo").nameOf "shared/a.any") (some "d.any") q ∧
      Path.isAbsolute q.target = false ∧
      (sharedResolver "repo").lookupPath q = "repo/shared/b.any" ∧
      Path.normalize (Path.join ((Path.parent? (Path.normalize "shared/a.any")).getD "")
        q.target) = "shared/b.any") ∧
    (sharedTree ["w"]).read? "shared/b.any" = some "x" ∧
    (sharedResolver "repo").resolveFile (sharedTree ["w"]) "d.any" =
      .failed (.notFound "b.any" "shared/a.any" 1) {} := by
  refine ⟨?_, by decide +kernel, by decide +kernel⟩
  have h₀ : Reaches (sharedResolver "repo") (sharedTree ["w"]) "d.any"
      ⟨[Path.normalize (Path.join "repo" "d.any")], 49 + 1,
        (sharedResolver "repo").entryScript (sharedTree ["w"]) "d.any"
          "$include \"../shared/a.any\"", {}⟩ :=
    .start (by decide +kernel) (by decide +kernel) (by decide +kernel)
  have hpath : Path.normalize (Path.join "repo" "d.any") = "repo/d.any" := by decide +kernel
  have hscript₀ : (sharedResolver "repo").entryScript (sharedTree ["w"]) "d.any"
      "$include \"../shared/a.any\"" =
      [.enter "shared/a.any"
        ⟨"../shared/a.any", false, "d.any", ⟨some "d.any", some 1, none⟩⟩] := by
    decide +kernel
  rw [hpath, hscript₀] at h₀
  have hread : (sharedTree ["w"]).read? "shared/a.any" = some "$include \"b.any\"" := by
    decide +kernel
  have hasks : (sharedResolver "repo").Asks "$include \"b.any\""
      ((sharedResolver "repo").nameOf "shared/a.any") (some "d.any")
      ⟨String.ofList "b.any".toList, false, _, _⟩ :=
    @Asks.intro _ _ _ _ 1 "$include \"b.any\"".toList _ (by decide +kernel) (by decide +kernel)
      (by decide +kernel) (by decide)
  exact ⟨_, _, _, _, h₀.enter hread, hread, hasks, by decide +kernel, by decide +kernel,
    by decide +kernel⟩

end Resolver

end ProxyLint.Include
