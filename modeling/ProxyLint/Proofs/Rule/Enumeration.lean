import Mathlib.Data.List.Sort
import ProxyLint.Proofs.FileTree.Place
import ProxyLint.Proofs.Path.Relative
import ProxyLint.Proofs.Text.Bytes
import ProxyLint.Rule.Gathering

set_option relaxedAutoImplicit false
set_option autoImplicit false

/-!
# Rules are loaded in the order of names

Later rules override earlier ones, so the order of the sources matters. It is the order of their
names: neither the order in which paths are given nor the order in which a folder lists its files
has any influence. For a folder this follows from what its rule files come to: the one list of them
in which the names ascend.

## Main definitions

* `ProxyLint.HasJsonExtension` — a file name with the extension `json`, in any letter case.
* `ProxyLint.Gathering.ListsRuleFiles` — the rule files of a folder in the byte order of their
  names.

## Main results

* `ProxyLint.RuleList.load_eq_of_perm` — the order of the given paths does not matter.
* `ProxyLint.Gathering.exists_listsRuleFiles` — what the rule files of a folder come to.
* `ProxyLint.Gathering.addFolder_eq_of_sameContents` — nor does the order of a folder.
* `ProxyLint.Gathering.loading_ignores_enumeration` — all of this together.
-/

namespace ProxyLint

open ProxyLint.Path

/-! ### Rule file names -/

/-- A file name with the extension `json`, in any letter case. A name that only starts with a dot
has no extension. -/
def HasJsonExtension (name : String) : Prop :=
  ∃ stem ext, stem ≠ "" ∧ name = stem ++ "." ++ ext ∧ Text.lower ext = "json"

/-- The extension of a name is what follows its last dot, if something stands before that.

**Proof sketch.** The name is read from its end: what stands behind the last dot is what can be
taken without meeting one, and something is left in front of the dot. -/
lemma Path.extension?_eq_some_iff {name ext : String} (h : IsName name) :
    extension? name = some ext ↔
      ∃ stem, stem ≠ "" ∧ name = stem ++ "." ++ ext ∧ '.' ∉ ext.toList := by
  have hname : fileName? name = some name := fileName?_eq_some_iff.2 ⟨[], h.parts⟩
  have hnotDot : ∀ {cs : List Char}, '.' ∉ cs → ∀ c ∈ cs, (c != '.') = true := by
    intro cs hcs c hc
    rw [bne_iff_ne]
    rintro rfl
    exact hcs hc
  rw [extension?, hname, Option.bind_some]
  dsimp only
  constructor
  · intro hext
    split at hext
    · next x y rest hdrop =>
      cases hext
      have hback := List.takeWhile_append_dropWhile (p := (· != '.')) (l := name.toList.reverse)
      have hx : x = '.' := by
        have hhead := List.head?_dropWhile_not (· != '.') name.toList.reverse
        rw [hdrop] at hhead
        simpa using hhead
      subst hx
      rw [hdrop] at hback
      refine ⟨String.ofList (y :: rest).reverse, ?_, ?_, ?_⟩
      · rw [Ne, String.ofList_eq_empty_iff]
        simp
      · rw [← String.toList_inj, ← List.reverse_inj]
        calc name.toList.reverse
          _ = name.toList.reverse.takeWhile (· != '.') ++ '.' :: y :: rest := hback.symm
          _ = _ := by simp
      · rw [String.toList_ofList, List.mem_reverse]
        intro hmem
        have := List.mem_takeWhile_imp hmem
        simp at this
    · cases hext
  · rintro ⟨stem, hstem, rfl, hdot⟩
    have hback : (stem ++ "." ++ ext).toList.reverse =
        ext.toList.reverse ++ '.' :: stem.toList.reverse := by
      simp
    have hreverse : '.' ∉ ext.toList.reverse := by simpa using hdot
    have hall := hnotDot hreverse
    rw [hback, List.dropWhile_append_of_pos hall, List.takeWhile_append_of_pos hall]
    obtain ⟨c, cs, hcs⟩ := List.exists_cons_of_ne_nil
      (show stem.toList.reverse ≠ [] by simpa using hstem)
    rw [hcs]
    simp

/-- A name has the extension of rule files if it ends in it, in any letter case, behind something.
-/
lemma hasJsonExtension_iff {name : String} (h : IsName name) :
    ((extension? name).any fun ext => Text.sameLetters ext "json") = true ↔
      HasJsonExtension name := by
  have hsame : ∀ ext, Text.sameLetters ext "json" = true ↔ Text.lower ext = "json" := by
    intro ext
    rw [Text.sameLetters, beq_iff_eq]
    exact Iff.rfl
  rw [Option.any_eq_true]
  constructor
  · rintro ⟨ext, hext, hjson⟩
    obtain ⟨stem, hstem, hname, -⟩ := (extension?_eq_some_iff h).1 hext
    exact ⟨stem, ext, hstem, hname, (hsame ext).1 hjson⟩
  · rintro ⟨stem, ext, hstem, hname, hjson⟩
    have hdot : '.' ∉ ext.toList := by
      intro hmem
      have hlower : '.' ∈ (Text.lower ext).toList := by
        rw [Text.lower, String.toList_ofList]
        exact List.mem_map.2 ⟨'.', hmem, rfl⟩
      rw [hjson] at hlower
      revert hlower
      decide
    exact ⟨ext, (extension?_eq_some_iff h).2 ⟨stem, hstem, hname, hdot⟩, (hsame ext).2 hjson⟩

namespace Gathering

/-! ### Sorting by names -/

/-- Paths are ordered by their file names, those without one first. -/
lemma nameLe_iff {a b : String} :
    nameLe a b = true ↔ ∀ x, fileName? a = some x → ∃ y, fileName? b = some y ∧ x ≤ y := by
  unfold nameLe
  cases ha : fileName? a with
  | none => simp
  | some x =>
    cases hb : fileName? b with
    | none => simp
    | some y =>
      rw [Bool.not_eq_true', decide_eq_false_iff_not, not_lt]
      constructor
      · rintro hxy _ ⟨⟩
        exact ⟨y, rfl, hxy⟩
      · intro h
        obtain ⟨_, ⟨⟩, hxy⟩ := h x rfl
        exact hxy

/-- The order by file names is transitive. -/
lemma nameLe_trans {a b c : String} (h : nameLe a b = true) (h' : nameLe b c = true) :
    nameLe a c = true := by
  rw [nameLe_iff] at h h' ⊢
  intro x hx
  obtain ⟨y, hy, hxy⟩ := h x hx
  obtain ⟨z, hz, hyz⟩ := h' y hy
  exact ⟨z, hz, hxy.trans hyz⟩

/-- Any two paths can be ordered by their file names. -/
lemma nameLe_total (a b : String) : nameLe a b = true ∨ nameLe b a = true := by
  rw [nameLe_iff, nameLe_iff]
  cases ha : fileName? a with
  | none => exact .inl (by simp)
  | some x =>
    cases hb : fileName? b with
    | none => exact .inr (by simp)
    | some y => simpa using LinearOrder.le_total x y

/-- Only paths with one file name are tied. -/
lemma fileName?_eq_of_nameLe {a b : String} (h : nameLe a b = true) (h' : nameLe b a = true) :
    fileName? a = fileName? b := by
  rw [nameLe_iff] at h h'
  cases ha : fileName? a with
  | none =>
    cases hb : fileName? b with
    | none => rfl
    | some y =>
      obtain ⟨x, hx, -⟩ := h' y hb
      rw [ha] at hx
      cases hx
  | some x =>
    obtain ⟨y, hy, hxy⟩ := h x ha
    obtain ⟨z, hz, hyz⟩ := h' y hy
    rw [ha] at hz
    cases hz
    rw [hy, le_antisymm hxy hyz]

/-- Sorted paths come in the order of their file names. -/
lemma pairwise_mergeSort_nameLe (paths : List String) :
    (paths.mergeSort nameLe).Pairwise fun a b => nameLe a b = true := by
  apply List.pairwise_mergeSort
  · intro a b c hab hbc
    exact nameLe_trans hab hbc
  · intro a b
    rw [Bool.or_eq_true]
    exact nameLe_total a b

/-- Paths with different file names are sorted into one list, in whatever order they are given. -/
lemma mergeSort_nameLe_eq_of_perm {paths paths' : List String} (h : paths.Perm paths')
    (hnames : (paths.map fileName?).Nodup) :
    paths.mergeSort nameLe = paths'.mergeSort nameLe := by
  refine List.Perm.eq_of_pairwise ?_ (pairwise_mergeSort_nameLe paths)
    (pairwise_mergeSort_nameLe paths') ?_
  · intro a b ha hb hab hba
    have ha : a ∈ paths := List.mem_mergeSort.1 ha
    have hb : b ∈ paths := h.mem_iff.2 (List.mem_mergeSort.1 hb)
    exact List.inj_on_of_nodup_map hnames ha hb (fileName?_eq_of_nameLe hab hba)
  · calc (paths.mergeSort nameLe).Perm paths := List.mergeSort_perm paths nameLe
      _ |>.Perm paths' := h
      _ |>.Perm (paths'.mergeSort nameLe) := (List.mergeSort_perm paths' nameLe).symm

end Gathering

/-- **The order of the given paths does not matter** if their file names differ. -/
theorem RuleList.load_eq_of_perm (l : RuleList) (t : FileTree) {paths paths' : List String}
    (h : paths.Perm paths') (hnames : (paths.map fileName?).Nodup) :
    l.load t paths = l.load t paths' := by
  rw [load, load, Gathering.mergeSort_nameLe_eq_of_perm h hnames]

/-! ### The rule files of a folder -/

/-- The text of a file. -/
def Node.text? : Node → Option String
  | .file text => text
  | .dir _ => none

namespace Gathering

/-- The names and the texts of the regular files directly inside a folder that have the extension
`json`, in the byte order of their names. -/
structure ListsRuleFiles (d : Node) (files : List (String × Option String)) : Prop where
  sorted : files.Pairwise fun a b => Text.bytes a.1 < Text.bytes b.1
  mem_iff : ∀ name text?, (name, text?) ∈ files ↔
    (name, Node.file text?) ∈ d.entries ∧ HasJsonExtension name

/-- Merges texts one after the other, each under its name. -/
def addTexts (g : Gathering) (files : List (String × Option String)) : Gathering :=
  files.foldl (fun g file => g.addText file.1 file.2) g

/-- There is at most one such list. -/
lemma ListsRuleFiles.unique {d d' : Node} {files files' : List (String × Option String)}
    (h : ListsRuleFiles d files) (h' : ListsRuleFiles d' files')
    (hd : ∀ name text?,
      (name, Node.file text?) ∈ d.entries ↔ (name, Node.file text?) ∈ d'.entries) :
    files = files' := by
  have hmem : ∀ file, file ∈ files ↔ file ∈ files' := by
    rintro ⟨name, text?⟩
    rw [h.mem_iff, h'.mem_iff, hd]
  have : Std.Irrefl fun a b : String × Option String => Text.bytes a.1 < Text.bytes b.1 :=
    ⟨fun _ => List.lt_irrefl _⟩
  have : Std.Antisymm fun a b : String × Option String => Text.bytes a.1 < Text.bytes b.1 :=
    ⟨fun _ _ hab hba => absurd hba (List.lt_asymm hab)⟩
  exact h.sorted.eq_of_mem_iff h'.sorted hmem

variable {t : FileTree} {folder : String} {d : Node}

/-- A rule file of a folder is merged under its name, with its text. -/
lemma addFile_join (hd : t.find? folder = some d) (htidy : d.isTidy = true) {name : String}
    {text? : Option String} (h : (name, Node.file text?) ∈ d.entries) (g : Gathering) :
    g.addFile t (join folder name) = g.addText name text? := by
  have hname : IsName name := (Node.tidy_of_mem_entries htidy h).1
  have hfile : fileName? (join folder name) = some name :=
    fileName?_join folder (fileName?_eq_some_iff.2 ⟨[], hname.parts⟩)
  have hread : t.read? (join folder name) = text? := by
    rw [FileTree.read?, FileTree.find?_join_name hd hname, (Node.child?_eq_some_iff htidy).2 h]
  rw [addFile, originOf, hfile, hread]
  rfl

/-- Whether an entry of a folder is a rule file. -/
def isRuleFile (e : String × Node) : Bool :=
  !e.2.isDir && (extension? e.1).any fun ext => Text.sameLetters ext "json"

/-- The order of entries by their names. -/
def entryLe (a b : String × Node) : Bool :=
  !decide (b.1 < a.1)

/-- The rule files among the entries of a folder, in the order of their names. -/
def ruleEntries (d : Node) : List (String × Node) :=
  (d.entries.filter isRuleFile).mergeSort entryLe

/-- Entries are ordered by their names. -/
lemma entryLe_iff {a b : String × Node} : entryLe a b = true ↔ a.1 ≤ b.1 := by
  rw [entryLe, Bool.not_eq_true', decide_eq_false_iff_not, not_lt]

section Entries

variable (htidy : d.isTidy = true)
include htidy

/-- The rule files of a folder are its files with the extension. -/
lemma mem_ruleEntries {name : String} {n : Node} :
    (name, n) ∈ ruleEntries d ↔
      (∃ text?, n = .file text?) ∧ (name, n) ∈ d.entries ∧ HasJsonExtension name := by
  rw [ruleEntries, List.mem_mergeSort, List.mem_filter, isRuleFile, Bool.and_eq_true]
  constructor
  · rintro ⟨hmem, hfile, hjson⟩
    have hname := (Node.tidy_of_mem_entries htidy hmem).1
    cases n with
    | file text? => exact ⟨⟨text?, rfl⟩, hmem, (hasJsonExtension_iff hname).1 hjson⟩
    | dir es => cases hfile
  · rintro ⟨⟨text?, rfl⟩, hmem, hjson⟩
    have hname := (Node.tidy_of_mem_entries htidy hmem).1
    exact ⟨hmem, rfl, (hasJsonExtension_iff hname).2 hjson⟩

/-- The rule files of a folder come in the order of the bytes of their names. -/
lemma pairwise_ruleEntries :
    (ruleEntries d).Pairwise fun a b => Text.bytes a.1 < Text.bytes b.1 := by
  have hle : (ruleEntries d).Pairwise fun a b => entryLe a b = true := by
    apply List.pairwise_mergeSort
    · intro a b c hab hbc
      rw [entryLe_iff] at hab hbc ⊢
      exact hab.trans hbc
    · intro a b
      rw [Bool.or_eq_true, entryLe_iff, entryLe_iff]
      exact LinearOrder.le_total a.1 b.1
  have hnodup : ((ruleEntries d).map Prod.fst).Nodup := by
    have hperm := (List.mergeSort_perm (d.entries.filter isRuleFile) entryLe).map Prod.fst
    rw [ruleEntries, hperm.nodup_iff]
    exact (Node.nodup_entries htidy).sublist (List.filter_sublist.map Prod.fst)
  refine (hle.and (List.pairwise_map.1 hnodup)).imp ?_
  rintro a b ⟨hab, hne⟩
  exact Text.bytes_lt_bytes_iff.2 (lt_of_le_of_ne (entryLe_iff.1 hab) hne)

/-- What is listed of a folder are its rule files with their texts. -/
lemma listsRuleFiles_ruleEntries :
    ListsRuleFiles d ((ruleEntries d).map fun e => (e.1, e.2.text?)) := by
  refine ⟨List.pairwise_map.2 (pairwise_ruleEntries htidy), fun name text? => ?_⟩
  rw [List.mem_map]
  constructor
  · rintro ⟨⟨name, n⟩, he, ⟨⟩⟩
    obtain ⟨⟨text?, rfl⟩, hmem, hjson⟩ := (mem_ruleEntries htidy).1 he
    exact ⟨hmem, hjson⟩
  · rintro ⟨hmem, hjson⟩
    exact ⟨_, (mem_ruleEntries htidy).2 ⟨⟨text?, rfl⟩, hmem, hjson⟩, rfl⟩

/-- The paths of the rule files are in the order of their names. -/
lemma ruleFiles?_eq (hd : t.find? folder = some d) :
    ruleFiles? t folder = some ((ruleEntries d).map fun e => join folder e.1) := by
  have hname : ∀ e ∈ d.entries.filter isRuleFile, fileName? (join folder e.1) = some e.1 := by
    intro e he
    have hname := (Node.tidy_of_mem_entries htidy (List.mem_of_mem_filter he)).1
    exact fileName?_join folder (fileName?_eq_some_iff.2 ⟨[], hname.parts⟩)
  have hsort : ((d.entries.filter isRuleFile).map fun e => join folder e.1).mergeSort nameLe =
      (ruleEntries d).map fun e => join folder e.1 := by
    refine (List.map_mergeSort fun a ha b hb => ?_).symm
    rw [nameLe, hname a ha, hname b hb]
    rfl
  rw [ruleFiles?, hd, Option.map_some, ← hsort]
  rfl

/-- **What the rule files of a folder come to.** -/
theorem exists_listsRuleFiles (hd : t.find? folder = some d) :
    ∃ files, ListsRuleFiles d files ∧ ∀ g : Gathering, g.addFolder t folder = g.addTexts files := by
  refine ⟨_, listsRuleFiles_ruleEntries htidy, fun g => ?_⟩
  rw [addFolder, ruleFiles?_eq htidy hd, addTexts]
  dsimp only
  rw [List.foldl_map, List.foldl_map]
  refine List.foldl_ext _ _ _ ?_
  rintro g ⟨name, n⟩ he
  obtain ⟨⟨text?, rfl⟩, hmem, -⟩ := (mem_ruleEntries htidy).1 he
  exact addFile_join hd htidy hmem g

end Entries

/-! ### Trees that hold the same -/

section Trees

variable {t' : FileTree} (htidy : t.root.isTidy = true) (htidy' : t'.root.isTidy = true)
  (h : t.SameContents t')
include htidy htidy' h

/-- **The order in which a folder lists its files does not matter.** -/
theorem addFolder_eq_of_sameContents (g : Gathering) (folder : String) :
    g.addFolder t folder = g.addFolder t' folder := by
  have hrel := h.find?_rel folder
  cases hd : t.find? folder with
  | none =>
    cases hd' : t'.find? folder with
    | none => rw [addFolder, addFolder, ruleFiles?, ruleFiles?, hd, hd']; rfl
    | some d' => rw [hd, hd'] at hrel; cases hrel
  | some d =>
    cases hd' : t'.find? folder with
    | none => rw [hd, hd'] at hrel; cases hrel
    | some d' =>
      have hdTidy := FileTree.isTidy_find? htidy hd
      have hdTidy' := FileTree.isTidy_find? htidy' hd'
      obtain ⟨files, hfiles, hadd⟩ := exists_listsRuleFiles hdTidy hd
      obtain ⟨files', hfiles', hadd'⟩ := exists_listsRuleFiles hdTidy' hd'
      have hsame : files = files' := by
        refine hfiles.unique hfiles' fun name text? => ?_
        rw [← Node.child?_eq_some_iff hdTidy, ← Node.child?_eq_some_iff hdTidy']
        exact Node.Alike.eq_file_iff (h.child?_rel hd hd' name)
      rw [hadd, hadd', hsame]

/-- The same rules are gathered from a path in two trees with the same contents. -/
lemma addPath_eq_of_sameContents (g : Gathering) (path : String) :
    g.addPath t path = g.addPath t' path := by
  rw [addPath, addPath, h.isDir_eq, addFolder_eq_of_sameContents htidy htidy' h, addFile, addFile,
    h.read?_eq]

end Trees

/-- **Loading rules does not depend on any order of enumeration.**

Paths with different file names can be given in every order. The folders can be listed in every
order: two trees that hold the same give the same rules and the same skipped sources. A folder comes
to the regular files directly inside it with the extension `json`, in the byte order of their names,
each merged under its name. -/
theorem loading_ignores_enumeration :
    (∀ (l : RuleList) (t : FileTree) (paths paths' : List String), paths.Perm paths' →
      (paths.map fileName?).Nodup → l.load t paths = l.load t paths') ∧
    (∀ t t' : FileTree, t.root.isTidy = true → t'.root.isTidy = true → t.SameContents t' →
      (∀ (g : Gathering) (folder : String), g.addFolder t folder = g.addFolder t' folder) ∧
      ∀ (l : RuleList) (paths : List String), l.load t paths = l.load t' paths) ∧
    ∀ (t : FileTree) (folder : String), t.root.isTidy = true →
      match t.find? folder with
      | some d => ∃ files, ListsRuleFiles d files ∧
          ∀ g : Gathering, g.addFolder t folder = g.addTexts files
      | none => ∀ g : Gathering,
          g.addFolder t folder = { g with skipped := g.skipped ++ [folder] } := by
  refine ⟨fun l t paths paths' => l.load_eq_of_perm t, fun t t' htidy htidy' h => ⟨?_, ?_⟩,
    fun t folder htidy => ?_⟩
  · exact addFolder_eq_of_sameContents htidy htidy' h
  · intro l paths
    have hpath :
        (fun (g : Gathering) path => g.addPath t path) = fun g path => g.addPath t' path := by
      funext g path
      exact addPath_eq_of_sameContents htidy htidy' h g path
    rw [RuleList.load, RuleList.load, hpath]
  · cases hd : t.find? folder with
    | none =>
      intro g
      rw [addFolder, ruleFiles?, hd]
      rfl
    | some d => exact exists_listsRuleFiles (FileTree.isTidy_find? htidy hd) hd

/-- Two rule files that give one rule, of which the second one counts. -/
def rivalFiles : List (String × Node) :=
  [("20-later.json",
      .file (some "\x7b\"rules\": [\x7b\"id\": \"a\", \"element\": \"farm\"\x7d]\x7d")),
    ("10-first.JSON",
      .file (some "\x7b\"rules\": [\x7b\"id\": \"a\", \"element\": \"farm.cache\"\x7d]\x7d"))]

/-- A tree with a folder of rule files. -/
def treeOfFolder (files : List (String × Node)) : FileTree :=
  ⟨.dir [("rules", .dir files), ("own.json", .file (some "\x7b\x7d"))], []⟩

/-- The two rule files can be listed in both orders, and the folder can be given before or after
another file. -/
theorem loading_of_rivalFiles :
    let t := treeOfFolder rivalFiles
    let t' := treeOfFolder rivalFiles.reverse
    (t.root.isTidy = true ∧ t'.root.isTidy = true ∧ t.SameContents t') ∧
      (["rules", "own.json"].map fileName?).Nodup ∧
      (∀ g : Gathering, g.addFolder t "rules" = g.addFolder t' "rules") ∧
      ∀ l : RuleList, l.load t ["rules", "own.json"] = l.load t ["own.json", "rules"] := by
  intro t t'
  have htidy : t.root.isTidy = true := by decide
  have htidy' : t'.root.isTidy = true := by decide
  have hsame : t.SameContents t' := by
    have hfiles : Node.HoldsSame (.dir rivalFiles) (.dir rivalFiles.reverse) :=
      Node.holdsSame_of_perm (List.reverse_perm rivalFiles).symm (by decide)
    exact ⟨rfl, hfiles.inside [] "rules" [("own.json", .file (some "\x7b\x7d"))]⟩
  have hnames : (["rules", "own.json"].map fileName?).Nodup := by decide
  obtain ⟨hpaths, htrees, -⟩ := loading_ignores_enumeration
  refine ⟨⟨htidy, htidy', hsame⟩, hnames, ?_, ?_⟩
  · intro g
    exact (htrees t t' htidy htidy' hsame).1 g "rules"
  · intro l
    exact hpaths l t _ _ (List.Perm.swap _ _ []) hnames

end Gathering

end ProxyLint
