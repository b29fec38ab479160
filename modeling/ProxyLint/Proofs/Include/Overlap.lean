import ProxyLint.Proofs.Glob.Expand
import ProxyLint.Proofs.Include.Script

set_option relaxedAutoImplicit false
set_option autoImplicit false

/-!
# The files that a directive includes

A directive of the web server's dialect names files and directories, and a directory stands for the
regular files below it. So the files it includes are those at or below what it names. A file is
included once for each path it lies at or below: more than once if two of them overlap, as they can
for a pattern with `**`, which names a directory and what is in it.

## Main definitions

* `ProxyLint.Include.Resolver.includedFiles` — the files that a directive includes, in order.
* `ProxyLint.Include.Resolver.Names` — what a directive names.
* `ProxyLint.Include.Overlap` — two paths that stand for a common file.

## Main results

* `ProxyLint.Include.Resolver.expandRequest_eq_includedFiles` — a directive expands these files.
* `ProxyLint.Include.Resolver.mem_places_includedFiles_iff` — they are the files at or below what it
  names.
* `ProxyLint.Include.Resolver.nodup_includedFiles_iff` — each is included once if and only if no two
  paths overlap.
* `ProxyLint.Include.Resolver.included_once_iff` — all of this together.
* `ProxyLint.Include.Resolver.included_twice` — a file need not be included once.
-/

namespace ProxyLint.Include

open ProxyLint.Path

/-- Two paths that stand for a common file: one that lies at or below both. -/
def Overlap (t : FileTree) (a b : String) : Prop :=
  ∃ place text qa qb, t.root.at? place = some (.file text) ∧
    t.locate? a = some qa ∧ t.locate? b = some qb ∧ qa <+: place ∧ qb <+: place

/-- Paths that are apart do not overlap. -/
lemma not_overlap_of_apart {t : FileTree} {a b : String} (h : Glob.Apart t a b) :
    ¬ Overlap t a b := by
  rintro ⟨place, text, qa, qb, -, ha, hb, hqa, hqb⟩
  have hapart := h qa qb ha hb
  rcases List.prefix_or_prefix_of_prefix hqa hqb with hunder | hunder
  · exact hapart.1 hunder
  · exact hapart.2 hunder

namespace Resolver

variable (r : Resolver) (t : FileTree)

/-- The files that a directive includes, in order. -/
def includedFiles (q : Request) : List String :=
  ((r.matches? t q).getD []).flatMap t.filesAt

/-- What a directive names: where its pattern leads, or where its path does. -/
def Names (q : Request) (place : List String) : Prop :=
  if Glob.isPattern q.target then Glob.PatternLeadsTo t (r.lookupPath q) place
  else t.locate? (r.lookupPath q) = some place

/-- A directive that names one path, or a pattern of one level. -/
def NamesOneLevel (q : Request) : Prop :=
  Glob.isPattern q.target = true →
    ∃ p, Glob.read? (r.lookupPath q) = some p ∧ p.isLevel = true

variable {r t} {q : Request} {paths : List String}

/-- **A directive expands the files that it includes**, in order. -/
theorem expandRequest_eq_includedFiles (hd : r.dialect = .httpd)
    (h : r.matches? t q = some paths) (expandFile : String → Request → Step) :
    r.expandRequest t expandFile q =
      if paths = [] then r.noMatch q
      else forEach (fun file => expandFile file q) (r.includedFiles t q) := by
  have hmatch : ∀ path, r.expandMatch t expandFile q path =
      forEach (fun file => expandFile file q) (t.filesAt path) := by
    intro path
    unfold expandMatch FileTree.filesAt
    cases t.isDir path with
    | true => rw [hd]; rfl
    | false => exact (forEach_singleton (fun file => expandFile file q) path).symm
  have hfiles : r.includedFiles t q = paths.flatMap t.filesAt := by
    rw [includedFiles, h, Option.getD_some]
  unfold expandRequest
  rw [h, hfiles]
  cases paths with
  | nil => rfl
  | cons path paths =>
    rw [if_neg (List.cons_ne_nil _ _)]
    exact forEach_flatMap hmatch (path :: paths)

section Places

variable (htidy : t.root.isTidy = true) (hhere : t.isDir "." = true)
  (h : r.matches? t q = some paths)
include htidy hhere h

/-- The paths that a directive stands for lead to what it names, and to all of it.

**Proof sketch.** A pattern stands for what it leads to (`Glob.places_of_expand?`); any other path
stands for itself, if there is something. -/
lemma places_of_matches? :
    (∀ p ∈ paths, ∃ place, t.locate? p = some place ∧ r.Names t q place) ∧
      ∀ place, r.Names t q place → ∃ p ∈ paths, t.locate? p = some place := by
  unfold matches? at h
  dsimp only at h
  split at h
  · next hpattern =>
    have hnames : r.Names t q = Glob.PatternLeadsTo t (r.lookupPath q) :=
      funext fun place => if_pos hpattern
    rw [hnames]
    exact Glob.places_of_expand? htidy hhere h
  · next hpattern =>
    have hnames : r.Names t q = fun place => t.locate? (r.lookupPath q) = some place :=
      funext fun place => if_neg hpattern
    rw [hnames]
    cases hlocate : t.locate? (r.lookupPath q) with
    | none =>
      have hcontains : t.contains (r.lookupPath q) = false := by
        rw [FileTree.contains, FileTree.find?, hlocate]
        rfl
      rw [hcontains, if_neg Bool.false_ne_true] at h
      cases h
      exact ⟨fun p hp => (List.not_mem_nil hp).elim, fun place hplace => by cases hplace⟩
    | some place =>
      obtain ⟨n, hn⟩ := FileTree.exists_at?_of_locate? hlocate
      have hcontains : t.contains (r.lookupPath q) = true := by
        rw [FileTree.contains, FileTree.find?, hlocate, Option.bind_some, hn]
        rfl
      rw [hcontains, if_pos rfl] at h
      cases h
      constructor
      · intro p hp
        obtain rfl := List.mem_singleton.1 hp
        exact ⟨place, hlocate, rfl⟩
      · rintro _ ⟨⟩
        exact ⟨_, List.mem_singleton_self _, hlocate⟩

/-- **The files that a directive includes** are the regular files at or below what it names. -/
theorem mem_places_includedFiles_iff {place : List String} :
    some place ∈ (r.includedFiles t q).map t.locate? ↔
      (∃ text, t.root.at? place = some (.file text)) ∧
        ∃ named, r.Names t q named ∧ named <+: place := by
  obtain ⟨hpaths, hnamed⟩ := places_of_matches? htidy hhere h
  rw [includedFiles, h, Option.getD_some, List.map_flatMap, List.mem_flatMap]
  constructor
  · rintro ⟨p, hp, hmem⟩
    obtain ⟨named, hlocate, hnames⟩ := hpaths p hp
    obtain ⟨hfile, hunder⟩ := (FileTree.mem_places_filesAt_iff htidy hlocate).1 hmem
    exact ⟨hfile, named, hnames, hunder⟩
  · rintro ⟨hfile, named, hnames, hunder⟩
    obtain ⟨p, hp, hlocate⟩ := hnamed named hnames
    exact ⟨p, hp, (FileTree.mem_places_filesAt_iff htidy hlocate).2 ⟨hfile, hunder⟩⟩

/-- Whatever a directive includes is a regular file. -/
lemma isFile_of_mem_includedFiles {file : String} (hfile : file ∈ r.includedFiles t q) :
    t.isFile file = true := by
  obtain ⟨hpaths, -⟩ := places_of_matches? htidy hhere h
  rw [includedFiles, h, Option.getD_some] at hfile
  obtain ⟨p, hp, hmem⟩ := List.mem_flatMap.1 hfile
  obtain ⟨named, hlocate, -⟩ := hpaths p hp
  obtain ⟨place, text, hplace, htext⟩ := FileTree.exists_file_of_mem_filesAt htidy hlocate hmem
  rw [FileTree.isFile, FileTree.find?, hplace, Option.bind_some, htext]
  rfl

/-- **Each file is included once** if and only if no two of the paths overlap. -/
theorem nodup_includedFiles_iff : ((r.includedFiles t q).map t.locate?).Nodup ↔
    paths.Pairwise fun a b => ¬ Overlap t a b := by
  obtain ⟨hpaths, -⟩ := places_of_matches? htidy hhere h
  rw [includedFiles, h, Option.getD_some, List.map_flatMap, List.nodup_flatMap]
  have hnodup : ∀ p ∈ paths, ((t.filesAt p).map t.locate?).Nodup := by
    intro p hp
    obtain ⟨named, hlocate, -⟩ := hpaths p hp
    exact FileTree.nodup_filesAt htidy hlocate
  rw [and_iff_right hnodup]
  refine List.Pairwise.iff_of_mem fun {a b} ha hb => ?_
  obtain ⟨qa, hqa, -⟩ := hpaths a ha
  obtain ⟨qb, hqb, -⟩ := hpaths b hb
  constructor
  · rintro hdisjoint ⟨place, text, qa', qb', htext, hqa', hqb', hunder, hunder'⟩
    exact hdisjoint ((FileTree.mem_places_filesAt_iff htidy hqa').2 ⟨⟨text, htext⟩, hunder⟩)
      ((FileTree.mem_places_filesAt_iff htidy hqb').2 ⟨⟨text, htext⟩, hunder'⟩)
  · intro hoverlap q? hmem hmem'
    obtain ⟨file, hfile, rfl⟩ := List.mem_map.1 hmem
    obtain ⟨place, text, hplace, htext⟩ := FileTree.exists_file_of_mem_filesAt htidy hqa hfile
    rw [hplace] at hmem hmem'
    exact hoverlap ⟨place, text, qa, qb, htext, hqa, hqb,
      ((FileTree.mem_places_filesAt_iff htidy hqa).1 hmem).2,
      ((FileTree.mem_places_filesAt_iff htidy hqb).1 hmem').2⟩

/-- The paths that a directive of one level stands for do not overlap. -/
lemma pairwise_not_overlap (hlevel : r.NamesOneLevel q) :
    paths.Pairwise fun a b => ¬ Overlap t a b := by
  unfold matches? at h
  dsimp only at h
  split at h
  · next hpattern =>
    obtain ⟨p, hp, hp'⟩ := hlevel hpattern
    exact (Glob.pairwise_apart_expand? htidy hhere hp hp' h).imp not_overlap_of_apart
  · split at h
    · cases h
      exact List.pairwise_singleton _ _
    · cases h
      exact List.Pairwise.nil

end Places

/-- **Which files a directive includes, and how often.**

For the web server's dialect, a tree without links and a directive that can be looked up, the
directive expands the files `includedFiles` in order, or reports that there are none. These are the
regular files at or below what it names. Each of them is included once exactly if no file lies at or
below two of the paths that the directive stands for, and this is so whenever it names a single
path or a pattern without `**` and without components that fit `.` or `..`. -/
theorem included_once_iff (r : Resolver) (t : FileTree) (q : Request) {paths : List String}
    (hd : r.dialect = .httpd) (htidy : t.root.isTidy = true) (hhere : t.isDir "." = true)
    (h : r.matches? t q = some paths) :
    (∀ expandFile : String → Request → Step, r.expandRequest t expandFile q =
      if paths = [] then r.noMatch q
      else forEach (fun file => expandFile file q) (r.includedFiles t q)) ∧
    (∀ file ∈ r.includedFiles t q, t.isFile file = true) ∧
    (∀ place, some place ∈ (r.includedFiles t q).map t.locate? ↔
      (∃ text, t.root.at? place = some (.file text)) ∧
        ∃ named, r.Names t q named ∧ named <+: place) ∧
    (((r.includedFiles t q).map t.locate?).Nodup ↔
      paths.Pairwise fun a b => ¬ Overlap t a b) ∧
    (r.NamesOneLevel q → ((r.includedFiles t q).map t.locate?).Nodup) := by
  refine ⟨fun expandFile => expandRequest_eq_includedFiles hd h expandFile,
    fun file hfile => isFile_of_mem_includedFiles htidy hhere h hfile,
    fun place => mem_places_includedFiles_iff htidy hhere h,
    nodup_includedFiles_iff htidy hhere h, fun hlevel => ?_⟩
  exact (nodup_includedFiles_iff htidy hhere h).2 (pairwise_not_overlap htidy hhere h hlevel)

/-! ### Files in a directory that is matched as well -/

/-- A directory with a directory in it that holds a file. -/
def nestedTree (target : String) : FileTree :=
  ⟨.dir [("repo", .dir [
    ("httpd.conf", .file (some ("Include " ++ target ++ "\n"))),
    ("conf.d", .dir [("sub", .dir [("a.conf", .file (some "Listen 80\n"))])])])], []⟩

/-- The settings under which it is resolved. -/
def nestedResolver : Resolver :=
  { dialect := .httpd, root := "repo" }

/-- An include of a pattern in the entry file. -/
def nestedRequest (target : String) : Request :=
  ⟨target, false, "httpd.conf", .ofLine "httpd.conf" 1 none⟩

/-- The pattern `conf.d/*` names the inner directory, and includes the file in it once. -/
theorem included_once_of_star :
    nestedResolver.matches? (nestedTree "conf.d/*") (nestedRequest "conf.d/*") =
        some ["repo/conf.d/sub"] ∧
      nestedResolver.includedFiles (nestedTree "conf.d/*") (nestedRequest "conf.d/*") =
        ["repo/conf.d/sub/a.conf"] ∧
      nestedResolver.NamesOneLevel (nestedRequest "conf.d/*") ∧
      ((nestedResolver.includedFiles (nestedTree "conf.d/*") (nestedRequest "conf.d/*")).map
        (nestedTree "conf.d/*").locate?).Nodup := by
  have hmatches : nestedResolver.matches? (nestedTree "conf.d/*") (nestedRequest "conf.d/*") =
      some ["repo/conf.d/sub"] := by decide +kernel
  have hlevel : nestedResolver.NamesOneLevel (nestedRequest "conf.d/*") :=
    fun _ => ⟨⟨false, [.literal "repo", .literal "conf.d", .wild [.many]]⟩, by decide +kernel,
      by decide +kernel⟩
  obtain ⟨-, -, -, -, hnodup⟩ := included_once_iff nestedResolver (nestedTree "conf.d/*")
    (nestedRequest "conf.d/*") rfl (by decide +kernel) (by decide +kernel) hmatches
  exact ⟨hmatches, by decide +kernel, hlevel, hnodup hlevel⟩

/-- The pattern `conf.d/**/*` names the inner directory and the file in it. -/
lemma matches?_nestedTree_deep :
    nestedResolver.matches? (nestedTree "conf.d/**/*") (nestedRequest "conf.d/**/*") =
      some ["repo/conf.d/sub", "repo/conf.d/sub/a.conf"] := by
  have hpattern : Glob.isPattern (nestedRequest "conf.d/**/*").target = true := by decide +kernel
  have hread : Glob.read? (nestedResolver.lookupPath (nestedRequest "conf.d/**/*")) =
      some ⟨false, [.literal "repo", .literal "conf.d", .deep, .wild [.many]]⟩ := by decide +kernel
  have hsearch : Glob.search (nestedTree "conf.d/**/*")
      [.literal "repo", .literal "conf.d", .deep, .wild [.many]] "." =
        ["repo/conf.d/sub", "repo/conf.d/sub/a.conf"] := by decide +kernel
  -- the sort is not evaluated: the paths are in order already
  have hsort : Path.sort ["repo/conf.d/sub", "repo/conf.d/sub/a.conf"] =
      ["repo/conf.d/sub", "repo/conf.d/sub/a.conf"] :=
    List.mergeSort_of_pairwise (by decide +kernel)
  rw [matches?, if_pos hpattern, Glob.expand?, hread, Option.map_some, if_neg Bool.false_ne_true,
    hsearch, hsort]

/-- So the file is included twice. -/
lemma includedFiles_nestedTree_deep :
    nestedResolver.includedFiles (nestedTree "conf.d/**/*") (nestedRequest "conf.d/**/*") =
      ["repo/conf.d/sub/a.conf", "repo/conf.d/sub/a.conf"] := by
  rw [includedFiles, matches?_nestedTree_deep]
  decide +kernel

/-- The entry file is resolved as its only include. -/
lemma resolveFile_nestedTree_deep :
    nestedResolver.resolveFile (nestedTree "conf.d/**/*") "httpd.conf" =
      nestedResolver.expandRequest (nestedTree "conf.d/**/*")
        (nestedResolver.expandFile (nestedTree "conf.d/**/*") 50)
        (nestedRequest "conf.d/**/*") {} := by
  have hroot : (nestedTree "conf.d/**/*").isDir nestedResolver.root = true := by decide +kernel
  have hfile : (nestedTree "conf.d/**/*").isFile
      (Path.join nestedResolver.root "httpd.conf") = true := by decide +kernel
  have hread : (nestedTree "conf.d/**/*").read? (Path.join nestedResolver.root "httpd.conf") =
      some "Include conf.d/**/*\n" := by decide +kernel
  have hscript : nestedResolver.script (nestedTree "conf.d/**/*") "Include conf.d/**/*\n"
      "httpd.conf" none =
        nestedResolver.requestScript (nestedTree "conf.d/**/*") (nestedRequest "conf.d/**/*") := by
    have hlines : logicalLines nestedResolver.dialect nestedResolver.linkText
        "Include conf.d/**/*\n" = [(1, "Include conf.d/**/*".toList)] := by decide +kernel
    have hmeaningful : isMeaningful (Text.strip "Include conf.d/**/*".toList) = true := by
      decide +kernel
    have hdirective : directive? (Text.strip "Include conf.d/**/*".toList) =
        some ⟨false, "conf.d/**/*".toList⟩ := by decide +kernel
    rw [script, hlines, List.flatMap_singleton]
    unfold lineScript
    dsimp only
    rw [hmeaningful, hdirective]
    rfl
  have hname : nestedResolver.nameOf
      (Path.normalize (Path.join nestedResolver.root "httpd.conf")) = "httpd.conf" := by
    decide +kernel
  rw [resolveFile_eq_run _ _ hroot hfile hread, entryScript, hname, hscript,
    expandRequest_eq_forEach]
  rfl

/-- **A file need not be included once.** The pattern `conf.d/**/*` names the inner directory and
the file in it, and the lines of the file are read twice. -/
theorem included_twice :
    let t := nestedTree "conf.d/**/*"
    let q := nestedRequest "conf.d/**/*"
    t.root.isTidy = true ∧
      nestedResolver.matches? t q = some ["repo/conf.d/sub", "repo/conf.d/sub/a.conf"] ∧
      ¬ ((nestedResolver.includedFiles t q).map t.locate?).Nodup ∧
      nestedResolver.resolveFile t "httpd.conf" =
        .done ⟨#[⟨"Listen 80", .ofLine "conf.d/sub/a.conf" 1 (some "httpd.conf")⟩,
          ⟨"Listen 80", .ofLine "conf.d/sub/a.conf" 1 (some "httpd.conf")⟩], #[]⟩ := by
  intro t q
  refine ⟨by decide +kernel, matches?_nestedTree_deep, ?_, ?_⟩
  · rw [includedFiles_nestedTree_deep]
    simp
  · rw [resolveFile_nestedTree_deep, expandRequest, matches?_nestedTree_deep]
    decide +kernel

end Resolver

end ProxyLint.Include
