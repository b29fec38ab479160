import ProxyLint.Proofs.Glob.Search
import ProxyLint.Proofs.Include.Shape
import ProxyLint.Proofs.Path.Raw

set_option relaxedAutoImplicit false
set_option autoImplicit false

/-!
# Renamed repositories

The name of the repository is a part of every path that is looked up, and of every pattern. It
is taken off again where a file is named. So a repository that is renamed should be resolved to
the same lines, from the same places, with the same faults.

This holds as long as the repository is not left, and as long as its name is not taken for a
pattern: whether an include is a pattern is decided by its target alone, but then the wildcards
in the whole path are active, those in the name of the repository too.

## Main definitions

* `ProxyLint.Include.Resolver.targets` — the targets of the includes of a text.
* `ProxyLint.Include.Resolver.Stays` — a target that leads nowhere but inside the repository.
* `ProxyLint.Include.Opens` — the files that are opened from an entry file on.
* `ProxyLint.Include.Moved` — actions on twins.

## Main results

* `ProxyLint.Include.Resolver.moved_script` — the script of a file in a renamed repository.
* `ProxyLint.Include.Resolver.agree_expandFile` — an included file is expanded alike.
* `ProxyLint.Include.Resolver.resolveFile_renamed` — a renamed repository is resolved to the same
  lines and faults.
* `ProxyLint.Include.Resolver.renamed_with_wildcards` — not so if the name holds wildcards.
-/

namespace ProxyLint.Include

open ProxyLint.Path

/-! ### Targets -/

namespace Resolver

variable (r : Resolver)

/-- The targets of the includes of a logical line. -/
def lineTargets (line : Nat × List Char) : List (List Char) :=
  let content := Text.strip line.2
  if !isMeaningful content then []
  else
    match r.dialect with
    | .any => (pieces content).filterMap fun
      | .text _ => none
      | .target path => some path
    | .httpd => (directive? content).toList.map Directive.target

/-- The targets of the includes of a text, without those that are empty. -/
def targets (text : String) : List String :=
  (((logicalLines r.dialect r.linkText text).flatMap r.lineTargets).filter
    fun target => !target.isEmpty).map String.ofList

/-- The directory that the includes of a file start at, as it is seen from the repository. -/
def seenBase (file : String) : String :=
  match r.dialect with
  | .any => (parent? file).getD ""
  | .httpd => r.serverRoot?.getD ""

/-- The fields of what an include looks up, as they are seen from the repository. -/
def seenFields (file target : String) : List String :=
  (stack (join (r.seenBase file) target)).reverse.map Part.text

/-- A target that leads nowhere but inside the repository. -/
structure Stays (file target : String) : Prop where
  /-- The folder of the file is known from its name. -/
  named : r.dialect = .any → (fileName? file).isSome = true
  /-- The target is not absolute, and does not climb out of the repository. -/
  descends : Descends (join (r.seenBase file) target)
  /-- If it is a pattern, it fits nothing outside the repository. -/
  search : Glob.isPattern target = true →
    (((r.seenFields file target).mapM Glob.component?).map Glob.mergeDeep).all
      (Glob.staysInside 0) = true

variable {r}

/-- The base of an include is inside the repository.

**Proof sketch.** The base is the folder around the file or the folder of the server, as seen from
the repository. Neither starts at the root or has a step up, so that its parts are put on the name
of the repository. -/
lemma Stays.stack_baseOf {file target : String} (h : r.Stays file target) (hroot : IsName r.root) :
    stack (r.baseOf file) = stack (r.seenBase file) ++ [.name r.root] := by
  have hbase := h.descends.of_join.1
  have hnamed := h.named
  unfold baseOf
  unfold seenBase at hbase ⊢
  cases hd : r.dialect with
  | any =>
    simp only [hd] at hbase ⊢
    obtain ⟨n, hn⟩ := Option.isSome_iff_exists.1 (hnamed hd)
    -- the folder around the file is the file's own stack without its name
    have hfile : Descends file := by
      have hstack := stack_parent hn
      refine ⟨?_, ?_⟩ <;> rw [hstack, List.mem_cons, not_or]
      · exact ⟨nofun, hbase.root_notMem⟩
      · exact ⟨nofun, hbase.up_notMem⟩
    have hstack := hfile.stack_join_name hroot
    rw [stack_parent hn, stack_parent (fileName?_join r.root hn)] at hstack
    exact (List.cons.inj hstack).2
  | httpd =>
    simp only [hd] at hbase ⊢
    cases hdir : r.serverRoot? with
    | none =>
      rw [stack, hroot.parts]
      rfl
    | some dir =>
      rw [hdir] at hbase
      exact hbase.stack_join_name hroot

/-- What is looked up is inside the repository. -/
lemma Stays.lookupPath_eq {q : Request} (h : r.Stays q.file q.target) (hroot : IsName r.root) :
    r.lookupPath q = within r.root (r.seenFields q.file q.target) :=
  h.descends.normalize_join_eq_within (h.stack_baseOf hroot)

/-- The name of a file inside the repository depends on its fields only. -/
lemma nameOf_twins {other path path' : String} {k : Nat} (hroot : IsName r.root)
    (hother : IsName other) (h : Twins r.root other k path path') :
    ({ r with root := other } : Resolver).nameOf path' = r.nameOf path := by
  obtain ⟨fs, hfs, -, rfl, rfl⟩ := h
  rw [nameOf, nameOf, RawPath.nameFrom_bytes, RawPath.nameFrom_bytes]
  rw [hroot.normalize, hother.normalize, relativeTo?_within hroot hfs.slash_notMem,
    relativeTo?_within hother hfs.slash_notMem]
  rfl

end Resolver

/-! ### Scripts -/

/-- Actions that do the same, on twins. -/
inductive Moved (root root' : String) : Action → Action → Prop where
  | emit (content : List Char) (source : Source) :
    Moved root root' (.emit content source) (.emit content source)
  | report (finding : Finding) : Moved root root' (.report finding) (.report finding)
  | stop (why : Failure) : Moved root root' (.stop why) (.stop why)
  | enter {path path' : String} (q : Request) :
    Twins root root' 0 path path' → Moved root root' (.enter path q) (.enter path' q)

namespace Resolver

/-- The actions for an include that names nothing. -/
lemma moved_noMatchScript (r : Resolver) (other : String) (q : Request) :
    List.Forall₂ (Moved r.root other) (r.noMatchScript q)
      (({ r with root := other } : Resolver).noMatchScript q) := by
  unfold noMatchScript
  cases r.dialect with
  | any =>
    dsimp only
    split
    · exact .cons (.report _) .nil
    · exact .cons (.stop _) .nil
  | httpd =>
    dsimp only
    split
    · exact .nil
    · exact .cons (.report _) .nil

section Scripts

variable {r : Resolver} {t t' : FileTree} {other : String} {d : Node}
  (h : t.Holds r.root d) (h' : t'.Holds other d) (hlegal : d.isLegal = true)
include h h' hlegal

/-- An include of the renamed repository names twins. -/
lemma twins_matches? {q : Request} (hstays : r.Stays q.file q.target)
    (hplain : Glob.isPattern q.target = true →
      Glob.isPattern r.root = false ∧ Glob.isPattern other = false) :
    Option.Rel (List.Forall₂ (Twins r.root other 0)) (r.matches? t q)
      (({ r with root := other } : Resolver).matches? t' q) := by
  have hstays' : ({ r with root := other } : Resolver).Stays q.file q.target :=
    ⟨hstays.named, hstays.descends, hstays.search⟩
  have hlookup := hstays.lookupPath_eq h.isName
  have hlookup' : ({ r with root := other } : Resolver).lookupPath q =
      within other (r.seenFields q.file q.target) := hstays'.lookupPath_eq h'.isName
  have hinside : Inside (r.seenFields q.file q.target) := hstays.descends.inside
  simp only [matches?]
  rw [hlookup, hlookup']
  cases hpattern : Glob.isPattern q.target with
  | true =>
    obtain ⟨hroot, hother⟩ := hplain hpattern
    exact Glob.twins_expand? h h' hlegal hinside hroot hother (hstays.search hpattern)
  | false =>
    have htwins : Twins r.root other 0 (within r.root (r.seenFields q.file q.target))
        (within other (r.seenFields q.file q.target)) :=
      ⟨_, hinside, Nat.zero_le _, rfl, rfl⟩
    rw [if_neg Bool.false_ne_true, if_neg Bool.false_ne_true, htwins.contains_eq h h']
    split
    · exact .some (.cons htwins .nil)
    · exact .some .nil

/-- The actions for twins. -/
lemma moved_matchScript (q : Request) {path path' : String}
    (hpaths : Twins r.root other 0 path path') :
    List.Forall₂ (Moved r.root other) (r.matchScript t q path)
      (({ r with root := other } : Resolver).matchScript t' q path') := by
  unfold matchScript
  rw [hpaths.isDir_eq h h']
  split
  · exact .cons (.enter q hpaths) .nil
  · cases r.dialect with
    | any => exact .cons (.stop _) .nil
    | httpd =>
      refine List.rel_map ?_ (Twins.filesBelow h h' hlegal hpaths)
      exact fun file file' hfiles => .enter q hfiles

/-- The actions for an include. -/
lemma moved_requestScript {q : Request} (hstays : r.Stays q.file q.target)
    (hplain : Glob.isPattern q.target = true →
      Glob.isPattern r.root = false ∧ Glob.isPattern other = false) :
    List.Forall₂ (Moved r.root other) (r.requestScript t q)
      (({ r with root := other } : Resolver).requestScript t' q) := by
  have hmatches := twins_matches? h h' hlegal hstays hplain
  unfold requestScript
  revert hmatches
  generalize r.matches? t q = found
  generalize ({ r with root := other } : Resolver).matches? t' q = found'
  intro hmatches
  cases hmatches with
  | none => exact .cons (.stop _) .nil
  | some hpaths =>
    cases hpaths with
    | nil => exact moved_noMatchScript r other q
    | cons hpath hpaths =>
      refine List.rel_flatMap (.cons hpath hpaths) ?_
      exact fun path path' htwins => moved_matchScript h h' hlegal q htwins

/-- The actions for an include whose target may be missing. -/
lemma moved_targetScript {target : List Char} (isOptional : Bool) (file : String) (source : Source)
    (hstays : target ≠ [] → r.Stays file (String.ofList target))
    (hplain : target ≠ [] → Glob.isPattern (String.ofList target) = true →
      Glob.isPattern r.root = false ∧ Glob.isPattern other = false) :
    List.Forall₂ (Moved r.root other) (r.targetScript t target isOptional file source)
      (({ r with root := other } : Resolver).targetScript t' target isOptional file source) := by
  unfold targetScript
  dsimp only
  split
  · exact .cons (.stop _) .nil
  · next hne =>
    have htarget : target ≠ [] := by simpa using hne
    exact moved_requestScript h h' hlegal (hstays htarget) (hplain htarget)

/-- **The script of a file in a renamed repository** does the same, on twins.

**Proof sketch.** Line by line. What a line emits is the same text, and each target of the text
stays inside the repository, so that it is looked up at twins (`moved_targetScript`). -/
theorem moved_script {text file : String} (includedFrom? : Option String)
    (hstays : ∀ target ∈ r.targets text, r.Stays file target)
    (hplain : ∀ target ∈ r.targets text, Glob.isPattern target = true →
      Glob.isPattern r.root = false ∧ Glob.isPattern other = false) :
    List.Forall₂ (Moved r.root other) (r.script t text file includedFrom?)
      (({ r with root := other } : Resolver).script t' text file includedFrom?) := by
  refine forall₂_flatMap fun line hline => ?_
  have hmem : ∀ target ∈ r.lineTargets line, target ≠ [] →
      String.ofList target ∈ r.targets text := by
    intro target htarget hne
    refine List.mem_map_of_mem (List.mem_filter.2 ⟨List.mem_flatMap.2 ⟨line, hline, htarget⟩, ?_⟩)
    simpa using hne
  have htargetScript : ∀ target ∈ r.lineTargets line, ∀ isOptional source,
      List.Forall₂ (Moved r.root other) (r.targetScript t target isOptional file source)
        (({ r with root := other } : Resolver).targetScript t' target isOptional file source) :=
    fun target htarget isOptional source => moved_targetScript h h' hlegal isOptional file source
      (fun hne => hstays _ (hmem target htarget hne))
      (fun hne => hplain _ (hmem target htarget hne))
  unfold lineTargets at htargetScript
  unfold lineScript
  dsimp only at htargetScript ⊢
  split
  · exact .nil
  · next hmeaning =>
    rw [if_neg hmeaning] at htargetScript
    cases hd : r.dialect with
    | any =>
      simp only [hd] at htargetScript ⊢
      refine forall₂_flatMap fun piece hpiece => ?_
      cases piece with
      | text content => exact .cons (.emit content _) .nil
      | target path =>
        exact htargetScript path (List.mem_filterMap.2 ⟨_, hpiece, rfl⟩) false _
    | httpd =>
      simp only [hd] at htargetScript ⊢
      cases hdirective : directive? (Text.strip line.2) with
      | none => exact .cons (.emit _ _) .nil
      | some directive =>
        rw [hdirective] at htargetScript
        exact htargetScript directive.target (by simp) directive.isOptional _

end Scripts

end Resolver

/-! ### Runs -/

/-- Two outcomes that are equal, or both failures after the same expansion. -/
inductive Outcome.Agree : Outcome → Outcome → Prop where
  | done (e : Expansion) : Agree (.done e) (.done e)
  | failed (why why' : Failure) (e : Expansion) : Agree (.failed why e) (.failed why' e)

/-- Each outcome agrees with itself. -/
lemma Outcome.Agree.refl (o : Outcome) : o.Agree o := by
  cases o with
  | done e => exact .done e
  | failed why e => exact .failed why why e

/-- Outcomes that agree agree after steps that do. -/
lemma Outcome.Agree.andThen {o o' : Outcome} {f g : Step} (h : o.Agree o')
    (hnext : ∀ e, (f e).Agree (g e)) : (o.andThen f).Agree (o'.andThen g) := by
  cases h with
  | done e => exact hnext e
  | failed why why' e => exact .failed why why' e

/-- Outcomes that agree are finished together, with the same result. -/
lemma Outcome.Agree.done_iff {o o' : Outcome} (h : o.Agree o') (e : Expansion) :
    o = .done e ↔ o' = .done e := by
  cases h with
  | done e' => exact Iff.rfl
  | failed why why' e' => exact ⟨nofun, nofun⟩

/-- The files that are opened from an entry file on, each with its text and its name. -/
inductive Opens (r : Resolver) (t : FileTree) (entry : String) : String → String → Prop where
  | entry {text : String} :
    t.read? (join r.root entry) = some text →
    Opens r t entry text (r.nameOf (normalize (join r.root entry)))
  | included {text file path text' : String} {q : Request} :
    Opens r t entry text file → .enter path q ∈ r.script t text file none →
    t.read? path = some text' → Opens r t entry text' (r.nameOf path)

/-- Whoever includes a file, it opens the same files. -/
lemma Opens.of_mem_script {r : Resolver} {t : FileTree} {entry text file path text' : String}
    {includedFrom? : Option String} {q : Request} (h : Opens r t entry text file)
    (hmem : .enter path q ∈ r.script t text file includedFrom?)
    (hread : t.read? path = some text') : Opens r t entry text' (r.nameOf path) := by
  have hsame : (r.script t text file none).map Action.shape =
      (r.script t text file includedFrom?).map Action.shape :=
    Resolver.shape_script (.refl file) text
  have hshape : Shape.enter path ∈ (r.script t text file none).map Action.shape := by
    rw [hsame]
    exact List.mem_map_of_mem (f := Action.shape) hmem
  obtain ⟨a, ha, hshape⟩ := List.mem_map.1 hshape
  cases a with
  | enter path' q' =>
    cases hshape
    exact h.included ha hread
  | emit | report | stop => cases hshape

namespace Resolver

section Runs

variable {r : Resolver} {t t' : FileTree} {entry other : String} {d : Node}

/-- Moved actions are carried out alike if the files that they open are expanded alike. -/
lemma agree_forEach {expandFile expandFile' : String → Request → Step} {as as' : List Action}
    (hmoved : List.Forall₂ (Moved r.root other) as as')
    (hfiles : ∀ path path' q, .enter path q ∈ as → Twins r.root other 0 path path' →
      ∀ e, (expandFile path q e).Agree (expandFile' path' q e)) (e : Expansion) :
    (forEach (r.perform expandFile) as e).Agree
      (forEach (({ r with root := other } : Resolver).perform expandFile') as' e) := by
  induction hmoved generalizing e with
  | nil => exact .done e
  | @cons a a' as as' ha _ ih =>
    rw [forEach_cons, forEach_cons]
    refine Outcome.Agree.andThen ?_ (ih fun path path' q hmem =>
      hfiles path path' q (List.mem_cons_of_mem a hmem))
    cases ha with
    | emit content source => exact .refl _
    | report finding => exact .refl _
    | stop why => exact .refl _
    | enter q htwins => exact hfiles _ _ q List.mem_cons_self htwins e

variable (h : t.Holds r.root d) (h' : t'.Holds other d) (hlegal : d.isLegal = true)
  (hstays : ∀ text file, Opens r t entry text file →
    ∀ target ∈ r.targets text, r.Stays file target)
  (hplain : ∀ text file, Opens r t entry text file →
    ∀ target ∈ r.targets text, Glob.isPattern target = true →
      Glob.isPattern r.root = false ∧ Glob.isPattern other = false)
include h h' hlegal hstays hplain

/-- **An included file is expanded alike.**

**Proof sketch.** Induction on how many files may be open. The file has the same text and the
same name, so its script does the same on twins; and the files that it opens are expanded alike
with one file fewer left to open. -/
theorem agree_expandFile (depth : Nat) {path path' : String} (q : Request)
    (htwins : Twins r.root other 0 path path')
    (hopens : ∀ text, t.read? path = some text → Opens r t entry text (r.nameOf path))
    (e : Expansion) :
    (r.expandFile t depth path q e).Agree
      (({ r with root := other } : Resolver).expandFile t' depth path' q e) := by
  induction depth generalizing path path' q e with
  | zero => exact .failed _ _ e
  | succ depth ih =>
    have hread := htwins.read?_eq h h'
    cases htext : t.read? path with
    | none =>
      rw [htext] at hread
      rw [expandFile, expandFile, htext, ← hread]
      exact .failed _ _ e
    | some text =>
      have hopen := hopens text htext
      rw [htext] at hread
      rw [r.expandFile_succ t htext, expandFile_succ _ t' hread.symm,
        nameOf_twins h.isName h'.isName htwins]
      refine agree_forEach
        (moved_script h h' hlegal (some q.file) (hstays _ _ hopen) (hplain _ _ hopen)) ?_ e
      intro path path' q' hmem htwins e
      exact ih q' htwins (fun text' htext' => hopen.of_mem_script hmem htext') e

end Runs

/-- **A renamed repository is resolved to the same lines and faults**, in both dialects. Two trees
hold the same directory in the current folder, each under a name of its own, which is then the
whole root of the repository. The includes that are met name nothing outside it, and if one of
them is a pattern, neither of the two names holds wildcards. Then one of the two is resolved to
lines if and only if the other is, and the lines, their sources and the faults are the same.

**Proof sketch.** The roots differ in the one component that is taken off again where a file is
named, so that what is looked up in the two trees are twins (`Twins`). Scripts of twins are alike
(`moved_script`), and so is what the files in them expand to (`agree_expandFile`). -/
theorem resolveFile_renamed {r : Resolver} {t t' : FileTree} {entry other : String}
    (hroot : IsName r.root) (hother : IsName other) (hsame : t.find? r.root = t'.find? other)
    (hlegal : ∀ d, t.find? r.root = some d → d.isLegal = true) (hentry : Descends entry)
    (hstays : ∀ text file, Opens r t entry text file →
      ∀ target ∈ r.targets text, r.Stays file target)
    (hplain : ∀ text file, Opens r t entry text file →
      ∀ target ∈ r.targets text, Glob.isPattern target = true →
        Glob.isPattern r.root = false ∧ Glob.isPattern other = false) (e : Expansion) :
    r.resolveFile t entry = .done e ↔
      ({ r with root := other } : Resolver).resolveFile t' entry = .done e := by
  refine Outcome.Agree.done_iff ?_ e
  cases hfind : t.find? r.root with
  | none =>
    simp only [resolveFile, FileTree.isDir, ← hsame, hfind]
    exact .failed _ _ {}
  | some d =>
    have h : t.Holds r.root d := ⟨hroot, hfind⟩
    have h' : t'.Holds other d := ⟨hother, hsame.symm.trans hfind⟩
    have hdir : t'.isDir other = t.isDir r.root := (Twins.start.isDir_eq h h').symm
    have hpath : t'.find? (join other entry) = t.find? (join r.root entry) := by
      obtain ⟨hwithin, hup⟩ := hentry.join_eq_within hroot
      rw [hwithin, (hentry.join_eq_within hother).1,
        h.find?_within (fun f => Text.slash_notMem_of_mem_fields) hup,
        h'.find?_within (fun f => Text.slash_notMem_of_mem_fields) hup]
    have htwins : Twins r.root other 0 (normalize (join r.root entry))
        (normalize (join other entry)) :=
      ⟨_, hentry.inside, Nat.zero_le _, hentry.normalize_join_name hroot,
        hentry.normalize_join_name hother⟩
    have hfile : t'.isFile (join other entry) = t.isFile (join r.root entry) := by
      rw [FileTree.isFile, hpath, FileTree.isFile]
    have hread : t'.read? (join other entry) = t.read? (join r.root entry) := by
      rw [FileTree.read?, hpath, FileTree.read?]
    simp only [resolveFile]
    rw [hdir, hfile, hread]
    split
    · exact .failed _ _ {}
    · split
      · exact .failed _ _ {}
      · split
        · exact .failed _ _ {}
        · next text htext =>
          have hopen : Opens r t entry text _ := .entry htext
          rw [nameOf_twins hroot hother htwins]
          simp only [resolveText]
          rw [expandText_eq_run, expandText_eq_run]
          refine agree_forEach
            (moved_script h h' (hlegal d hfind) none (hstays _ _ hopen) (hplain _ _ hopen)) ?_ {}
          intro path path' q hmem htwins
          exact agree_expandFile h h' (hlegal d hfind) hstays hplain r.limits.depth q htwins
            fun text' htext' => hopen.of_mem_script hmem htext'

/-! ### A repository with a pattern -/

instance (r : Resolver) (file target : String) : Decidable (r.Stays file target) :=
  decidable_of_iff
    ((r.dialect = .any → (fileName? file).isSome = true) ∧
      Descends (join (r.seenBase file) target) ∧
      (Glob.isPattern target = true →
        (((r.seenFields file target).mapM Glob.component?).map Glob.mergeDeep).all
          (Glob.staysInside 0) = true))
    ⟨fun h => ⟨h.1, h.2.1, h.2.2⟩, fun h => ⟨h.named, h.descends, h.search⟩⟩

/-- Whether the scripts of files, given by their texts and names, open no other files. -/
def isClosed (r : Resolver) (t : FileTree) (files : List (String × String)) : Bool :=
  files.all fun f => (r.script t f.1 f.2 none).all fun
    | .enter path _ => (t.read? path).all fun text => files.contains (text, r.nameOf path)
    | _ => true

/-- From one of these files on, no other files are opened. -/
lemma mem_of_isClosed {r : Resolver} {t : FileTree} {entry text file : String}
    {files : List (String × String)}
    (hentry : (t.read? (join r.root entry)).all
      (fun text => files.contains (text, r.nameOf (normalize (join r.root entry)))) = true)
    (hclosed : r.isClosed t files = true) (h : Opens r t entry text file) :
    (text, file) ∈ files := by
  induction h with
  | entry hread =>
    rw [hread] at hentry
    simpa using hentry
  | included _ hmem hread ih =>
    have hfile := List.all_eq_true.1 (List.all_eq_true.1 hclosed _ ih) _ hmem
    dsimp only at hfile
    rw [hread] at hfile
    simpa using hfile

/-- A repository whose entry file includes all files of a folder, one of which includes a file of
the repository. -/
def movedRepository : Node :=
  .dir [("d.any", .file (some "$include \"conf/*.inc\"")),
    ("conf", .dir [("a.inc", .file (some "x\n$include \"../b.inc\""))]),
    ("b.inc", .file (some "y"))]

/-- The tree that holds it under a name. -/
def movedTree (root : String) : FileTree :=
  ⟨.dir [(root, movedRepository)], []⟩

/-- The repository is found under whatever name it has. -/
lemma find?_movedTree {root : String} (hroot : IsName root) :
    (movedTree root).find? root = some movedRepository :=
  (FileTree.Holds.single hroot movedRepository).find?_eq

/-- The settings under which it is resolved. -/
def movedResolver (root : String) : Resolver :=
  { dialect := .any, root }

/-- The lines of the repository. -/
def movedLines : Expansion :=
  ⟨#[⟨"x", ⟨some "conf/a.inc", some 1, some "d.any"⟩⟩,
    ⟨"y", ⟨some "b.inc", some 1, some "conf/a.inc"⟩⟩], #[]⟩

/-- Its texts and names. -/
def movedFiles : List (String × String) :=
  [("$include \"conf/*.inc\"", "d.any"), ("x\n$include \"../b.inc\"", "conf/a.inc"),
    ("y", "b.inc")]

/-- The repository is resolved alike under the names `repo` and `site`. -/
theorem resolveFile_movedTree :
    (movedResolver "repo").resolveFile (movedTree "repo") "d.any" = .done movedLines ∧
      (movedResolver "site").resolveFile (movedTree "site") "d.any" = .done movedLines := by
  have hrepo : (movedResolver "repo").resolveFile (movedTree "repo") "d.any" =
      .done movedLines := by
    decide +kernel
  have hclosed : (movedResolver "repo").isClosed (movedTree "repo") movedFiles = true := by
    decide +kernel
  have hstays : ∀ f ∈ movedFiles, ∀ target ∈ (movedResolver "repo").targets f.1,
      (movedResolver "repo").Stays f.2 target := by
    decide +kernel
  have hopens : ∀ text file, Opens (movedResolver "repo") (movedTree "repo") "d.any" text file →
      ∀ target ∈ (movedResolver "repo").targets text,
        (movedResolver "repo").Stays file target :=
    fun text file h => hstays (text, file) (mem_of_isClosed (by decide +kernel) hclosed h)
  have hsame : (movedTree "repo").find? "repo" = (movedTree "site").find? "site" := by
    rw [find?_movedTree (by decide), find?_movedTree (by decide)]
  have hlegal : ∀ d, (movedTree "repo").find? "repo" = some d → d.isLegal = true := by
    intro d hd
    rw [find?_movedTree (by decide)] at hd
    cases hd
    decide
  have hplain : Glob.isPattern "repo" = false ∧ Glob.isPattern "site" = false := by decide +kernel
  have hiff := resolveFile_renamed (r := movedResolver "repo") (show IsName "repo" by decide)
    (show IsName "site" by decide) hsame hlegal (show Descends "d.any" by decide +kernel) hopens
    (fun _ _ _ _ _ _ => hplain) movedLines
  exact ⟨hrepo, hiff.1 hrepo⟩

/-- **A name with wildcards is taken for a pattern.** The repository is resolved under the name
`repo`, but under the name `r[x]` its folder is looked for in `rx`, and nothing is found. -/
theorem renamed_with_wildcards :
    IsName "repo" ∧ IsName "r[x]" ∧
      (movedTree "repo").find? "repo" = (movedTree "r[x]").find? "r[x]" ∧
      (∀ f ∈ movedFiles, ∀ target ∈ (movedResolver "repo").targets f.1,
        (movedResolver "repo").Stays f.2 target) ∧
      (movedResolver "repo").resolveFile (movedTree "repo") "d.any" = .done movedLines ∧
      (movedResolver "r[x]").resolveFile (movedTree "r[x]") "d.any" =
        .done ⟨#[], #[⟨.anyIncludeNoMatch, "$include \"conf/*.inc\" matched no files",
          ⟨some "d.any", some 1, none⟩⟩]⟩ := by
  refine ⟨by decide, by decide, ?_, by decide +kernel, by decide +kernel, by decide +kernel⟩
  rw [find?_movedTree (by decide), find?_movedTree (by decide)]

end Resolver

end ProxyLint.Include
