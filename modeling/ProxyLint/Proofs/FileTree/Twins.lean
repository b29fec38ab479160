import Mathlib.Data.List.Forall2
import ProxyLint.Proofs.FileTree.Walk
import ProxyLint.Proofs.Path.Inside
import ProxyLint.Proofs.Path.Order

set_option relaxedAutoImplicit false
set_option autoImplicit false

/-!
# The same directory under two names

Two file trees hold the same directory, each under a name of its own. A path inside one of them
has a twin inside the other, with the same fields. Twins lead to the same files and directories,
and they are listed in the same order, as long as they do not climb out of the directory.

## Main definitions

* `ProxyLint.Node.isLegal` — everything below a node has a name that a file can have.
* `ProxyLint.FileTree.Holds` — a tree holds a directory under a name.
* `ProxyLint.Twins` — two paths with the same fields inside two directories.

## Main results

* `ProxyLint.FileTree.Holds.find?_within` — what a path inside a directory leads to.
* `ProxyLint.Twins.find?_eq` — twins lead to the same node.
* `ProxyLint.Twins.filesBelow` — the files below twins are twins, in the same order.
-/

namespace ProxyLint

open ProxyLint.Path

/-! ### Nodes below nodes -/

namespace Node

mutual

/-- Whether everything below a node has a name that a file can have. -/
def isLegal : Node → Bool
  | .file _ => true
  | .dir es => areLegal es

/-- Whether entries of a directory, and everything below them, have such names. -/
def areLegal : List (String × Node) → Bool
  | [] => true
  | (name, n) :: rest => decide (IsName name) && n.isLegal && areLegal rest

end

/-- Entries are legal if each has a name and is legal. -/
lemma areLegal_iff {es : List (String × Node)} :
    areLegal es = true ↔ ∀ e ∈ es, IsName e.1 ∧ e.2.isLegal = true := by
  induction es with
  | nil => simp [areLegal]
  | cons e es ih => simp [areLegal, ih, and_assoc]

/-- The entries of a legal directory are legal. -/
lemma legal_of_mem_entries {n : Node} (h : n.isLegal = true) {e : String × Node}
    (he : e ∈ n.entries) : IsName e.1 ∧ e.2.isLegal = true := by
  cases n with
  | file text => cases he
  | dir es =>
    rw [isLegal, areLegal_iff] at h
    exact h e he

/-- What is looked up stands in the list. -/
lemma mem_of_lookup {es : List (String × Node)} {name : String} {m : Node}
    (h : es.lookup name = some m) : ∃ e ∈ es, e.2 = m := by
  induction es with
  | nil => cases h
  | cons e es ih =>
    obtain ⟨key, value⟩ := e
    rw [List.lookup_cons] at h
    split at h
    · cases h
      exact ⟨_, List.mem_cons_self, rfl⟩
    · obtain ⟨e, he, hm⟩ := ih h
      exact ⟨e, List.mem_cons_of_mem _ he, hm⟩

/-- Whatever is below a legal node is legal. -/
lemma isLegal_at? {n m : Node} {names : List String} (h : n.isLegal = true)
    (hm : n.at? names = some m) : m.isLegal = true := by
  induction names generalizing n with
  | nil =>
    cases hm
    exact h
  | cons name names ih =>
    rw [at?] at hm
    cases hchild : n.child? name with
    | none =>
      rw [hchild] at hm
      cases hm
    | some c =>
      rw [hchild] at hm
      obtain ⟨e, he, rfl⟩ := mem_of_lookup hchild
      exact ih (legal_of_mem_entries h he).2 hm

/-- A way down is taken step by step. -/
lemma at?_append (n : Node) (as bs : List String) :
    n.at? (as ++ bs) = (n.at? as).bind fun m => m.at? bs := by
  induction as generalizing n with
  | nil => rfl
  | cons a as ih =>
    rw [List.cons_append, at?, at?]
    cases n.child? a with
    | none => rfl
    | some c => exact ih c

end Node

/-! ### Walks inside a directory -/

namespace FileTree

variable {t : FileTree} {d : Node}

/-- A step inside a directory is a step of the tree that consists of the directory, unless it
leads out of it. -/
lemma step_append {base : List String} (hbase : t.root.at? base = some d) {place : List String}
    {piece : String} (h : piece = ".." → place ≠ []) :
    t.step (base ++ place) piece = (step ⟨d, []⟩ place piece).map (base ++ ·) := by
  unfold step
  rw [Node.at?_append, hbase, Option.bind_some]
  rcases d.at? place with _ | text | es
  · rfl
  · rfl
  · dsimp only
    split
    · rfl
    · split
      · next hup =>
        rw [List.dropLast_append_of_ne_nil (h (beq_iff_eq.1 hup))]
        rfl
      · split
        · rw [Option.map_some, List.append_assoc]
        · rfl

/-- A step on paper, inside a directory, is a step on the stack of the names that lead there. -/
lemma collapse_map_name {place : List String} {f : String} {p : Part}
    (hp : Part.ofInner? f = some p) (h : p = .up → place ≠ []) :
    collapse (place.reverse.map Part.name) p = (move place p).reverse.map Part.name := by
  cases p with
  | root | here =>
    unfold Part.ofInner? at hp
    split at hp
    · cases hp
    · split at hp <;> cases hp
  | name n => simp [collapse, move]
  | up =>
    obtain ⟨names, n, rfl⟩ := (List.eq_nil_or_concat place).resolve_left (h rfl)
    simp [collapse, move]

/-- A walk inside a directory is a walk of the tree that consists of the directory.

**Proof sketch.** Induction on the fields. A step inside the directory is a step of the tree that
consists of it (`step_append`), unless it is a step up from the directory itself; then a `..` would
stay on the stack. -/
lemma foldlM_step_append {base : List String} (hbase : t.root.at? base = some d)
    {fs place : List String}
    (h : .up ∉ (fs.filterMap Part.ofInner?).foldl collapse (place.reverse.map Part.name)) :
    fs.foldlM t.step (base ++ place) = (fs.foldlM (step ⟨d, []⟩) place).map (base ++ ·) := by
  induction fs generalizing place with
  | nil => rfl
  | cons f fs ih =>
    -- a `..` in the directory itself would stay at the bottom of the stack
    have hup : Part.ofInner? f = some .up → place ≠ [] := by
      rintro hf rfl
      have hmem : .up ∈ (fs.filterMap Part.ofInner?).foldl collapse [.up] :=
        mem_foldl_collapse (fun n hn => by cases hn) List.mem_cons_self
      apply h
      rw [List.filterMap_cons, hf]
      exact hmem
    have hstep : t.step (base ++ place) f = (step ⟨d, []⟩ place f).map (base ++ ·) := by
      refine step_append hbase ?_
      rintro rfl
      exact hup rfl
    rw [List.foldlM_cons, List.foldlM_cons, hstep]
    cases hplace : step ⟨d, []⟩ place f with
    | none => rfl
    | some next =>
      refine ih ?_
      rw [step_eq_some _ hplace]
      rw [List.filterMap_cons] at h
      cases hf : Part.ofInner? f with
      | none =>
        rw [hf] at h
        exact h
      | some p =>
        rw [hf, List.foldl_cons, collapse_map_name hf (by rintro rfl; exact hup hf)] at h
        exact h

/-- A word without a slash is looked for in the current directory. -/
lemma locate?_word (t : FileTree) {word : String} (hne : word ≠ "") (hslash : '/' ∉ word.toList) :
    t.locate? word = t.step t.here word := by
  have hempty : word.isEmpty = false := String.isEmpty_eq_false_iff.2 hne
  rw [locate?, hempty, if_neg Bool.false_ne_true, isAbsolute_eq_false_of_slash_notMem hslash,
    if_neg Bool.false_ne_true, Text.fields_eq_singleton hslash]
  exact bind_pure _

/-- So is a name. -/
lemma locate?_name (t : FileTree) {root : String} (hroot : IsName root) :
    t.locate? root = t.step t.here root :=
  t.locate?_word hroot.ne_empty hroot.slash_notMem

/-- A tree holds a directory, or a file, under a name in its current directory. -/
structure Holds (t : FileTree) (root : String) (d : Node) : Prop where
  isName : IsName root
  find?_eq : t.find? root = some d

namespace Holds

variable {root : String}

/-- Where the directory is. -/
lemma locate?_eq (h : t.Holds root d) :
    t.step t.here root = some (t.here ++ [root]) ∧ t.root.at? (t.here ++ [root]) = some d := by
  obtain ⟨place, hplace, hd⟩ := Option.bind_eq_some_iff.1 h.find?_eq
  rw [t.locate?_name h.isName] at hplace
  have hmove := t.step_eq_some hplace
  rw [h.isName.ofInner?] at hmove
  change place = t.here ++ [root] at hmove
  subst hmove
  exact ⟨hplace, hd⟩

/-- A tree that consists of one directory. -/
lemma single (hroot : IsName root) (d : Node) : Holds ⟨.dir [(root, d)], []⟩ root d := by
  have hstep : step ⟨.dir [(root, d)], []⟩ [] root = some [root] := by
    simp [step, Node.at?, hroot.ne_empty, hroot.ne_dot, hroot.ne_dots]
  refine ⟨hroot, ?_⟩
  rw [find?, locate?_name _ hroot, hstep]
  simp [Node.at?, Node.child?, Node.entries]

/-- **What a path inside a directory leads to** depends on the directory only. -/
theorem find?_within (h : t.Holds root d) {fs : List String}
    (hslash : ∀ f ∈ fs, '/' ∉ f.toList) (hup : .up ∉ trail fs) :
    t.find? (within root fs) = (fs.foldlM (step ⟨d, []⟩) []).bind d.at? := by
  obtain ⟨hstep, hroot⟩ := h.locate?_eq
  have hlocate : t.locate? (within root fs) =
      (fs.foldlM (step ⟨d, []⟩) []).map (t.here ++ [root] ++ ·) := by
    rw [locate?, isEmpty_within h.isName hslash, if_neg Bool.false_ne_true,
      isAbsolute_within h.isName hslash, if_neg Bool.false_ne_true,
      fields_within h.isName hslash, List.foldlM_cons, hstep]
    have hwalk : fs.foldlM t.step (t.here ++ [root] ++ []) =
        (fs.foldlM (step ⟨d, []⟩) []).map (t.here ++ [root] ++ ·) := foldlM_step_append hroot hup
    rw [List.append_nil] at hwalk
    exact hwalk
  rw [find?, hlocate]
  cases fs.foldlM (step ⟨d, []⟩) [] with
  | none => rfl
  | some place =>
    rw [Option.map_some, Option.bind_some, Option.bind_some, Node.at?_append, hroot]
    rfl

end Holds

end FileTree

/-! ### Twins -/

/-- Two paths with the same fields inside two directories, which lead at least so many steps into
them. -/
def Twins (root root' : String) (k : Nat) (path path' : String) : Prop :=
  ∃ fs, Inside fs ∧ k ≤ (trail fs).length ∧ path = within root fs ∧ path' = within root' fs

namespace Twins

variable {t t' : FileTree} {root root' path path' : String} {d : Node} {k : Nat}

/-- Twins that stay inside a directory stay inside a larger part of it. -/
lemma mono {k' : Nat} (h : Twins root root' k path path') (hk : k' ≤ k) :
    Twins root root' k' path path' := by
  obtain ⟨fs, hfs, hdepth, hpath⟩ := h
  exact ⟨fs, hfs, hk.trans hdepth, hpath⟩

/-- The directories themselves. -/
lemma start : Twins root root' 0 root root' :=
  ⟨[], .nil, Nat.zero_le _, rfl, rfl⟩

/-- Twins with one more name. -/
lemma name (h : Twins root root' k path path') (hroot : IsName root) (hroot' : IsName root')
    {f : String} (hf : IsName f) : Twins root root' (k + 1) (join path f) (join path' f) := by
  obtain ⟨fs, hfs, hdepth, rfl, rfl⟩ := h
  refine ⟨fs ++ [f], hfs.name hf, ?_, join_within hroot hfs hf.slash_notMem,
    join_within hroot' hfs hf.slash_notMem⟩
  rw [Inside.trail_name hf, List.length_cons]
  omega

/-- Twins with a `.`, or with a `..` that does not lead out of the directory. -/
lemma dots (h : Twins root root' k path path') (hroot : IsName root) (hroot' : IsName root')
    (hk : 0 < k) {f : String} (hf : f = "." ∨ f = "..") :
    Twins root root' (k - 1) (join path f) (join path' f) := by
  obtain ⟨fs, hfs, hdepth, rfl, rfl⟩ := h
  have hslash : '/' ∉ f.toList := by
    rcases hf with rfl | rfl <;> decide
  have hnext : Inside (fs ++ [f]) ∧ k - 1 ≤ (trail (fs ++ [f])).length := by
    rcases hf with rfl | rfl
    · obtain ⟨hinside, htrail⟩ := hfs.here
      exact ⟨hinside, by rw [htrail]; omega⟩
    · obtain ⟨hinside, htrail⟩ := hfs.up (List.ne_nil_of_length_pos (by omega))
      exact ⟨hinside, by rw [htrail, List.length_tail]; omega⟩
  exact ⟨fs ++ [f], hnext.1, hnext.2, join_within hroot hfs hslash, join_within hroot' hfs hslash⟩

section Trees

variable (h : t.Holds root d) (h' : t'.Holds root' d) (hpaths : Twins root root' k path path')
include h h' hpaths

/-- **Twins lead to the same node.** -/
theorem find?_eq : t.find? path = t'.find? path' := by
  obtain ⟨fs, hfs, -, rfl, rfl⟩ := hpaths
  rw [h.find?_within hfs.slash_notMem hfs.up_notMem, h'.find?_within hfs.slash_notMem hfs.up_notMem]

/-- Twins are directories together. -/
lemma isDir_eq : t.isDir path = t'.isDir path' := by
  rw [FileTree.isDir, FileTree.isDir, hpaths.find?_eq h h']

/-- Twins are there together. -/
lemma contains_eq : t.contains path = t'.contains path' := by
  rw [FileTree.contains, FileTree.contains, hpaths.find?_eq h h']

/-- Twins have the same text. -/
lemma read?_eq : t.read? path = t'.read? path' := by
  rw [FileTree.read?, FileTree.read?, hpaths.find?_eq h h']

/-- Twins hold the same names. -/
lemma names_eq : t.names path = t'.names path' := by
  rw [FileTree.names, FileTree.names, hpaths.find?_eq h h']

end Trees

/-- What lies inside a legal directory is legal. -/
lemma isLegal (h : t.Holds root d) (hlegal : d.isLegal = true)
    (hpaths : Twins root root' k path path') {m : Node} (hm : t.find? path = some m) :
    m.isLegal = true := by
  obtain ⟨fs, hfs, -, rfl, rfl⟩ := hpaths
  rw [h.find?_within hfs.slash_notMem hfs.up_notMem] at hm
  obtain ⟨place, -, hm⟩ := Option.bind_eq_some_iff.1 hm
  exact Node.isLegal_at? hlegal hm

/-- So is what a legal directory holds. -/
lemma isName_of_mem_names (h : t.Holds root d) (hlegal : d.isLegal = true)
    (hpaths : Twins root root' k path path') {n : String} (hn : n ∈ t.names path) : IsName n := by
  unfold FileTree.names at hn
  split at hn
  · next m hm =>
    obtain ⟨e, he, rfl⟩ := List.mem_map.1 hn
    exact (Node.legal_of_mem_entries (hpaths.isLegal h hlegal hm) he).1
  · cases hn

/-- Twins that lead into their directories end in the same name. -/
lemma fileName?_eq (h : Twins root root' (k + 1) path path') (hroot : IsName root)
    (hroot' : IsName root') : fileName? path = fileName? path' := by
  obtain ⟨fs, hfs, hdepth, rfl, rfl⟩ := h
  have hne : fs.filterMap Part.ofInner? ≠ [] := by
    intro hnil
    rw [trail, hnil] at hdepth
    simp at hdepth
  rw [fileName?, fileName?, parts_within hroot hfs.slash_notMem,
    parts_within hroot' hfs.slash_notMem, List.getLast?_cons_of_ne_nil hne,
    List.getLast?_cons_of_ne_nil hne]

end Twins

/-! ### Lists of twins -/

/-- What the members of a list stand for, one after the other. -/
lemma forall₂_flatMap {α β γ : Type} {R : β → γ → Prop} {f : α → List β} {g : α → List γ}
    {as : List α} (h : ∀ a ∈ as, List.Forall₂ R (f a) (g a)) :
    List.Forall₂ R (as.flatMap f) (as.flatMap g) := by
  induction as with
  | nil => exact .nil
  | cons a as ih =>
    rw [List.flatMap_cons, List.flatMap_cons]
    exact List.rel_append (h a List.mem_cons_self)
      (ih fun b hb => h b (List.mem_cons_of_mem a hb))

/-- Entries of two listings: twins, and both are directories or none is. -/
def TwinEntries (root root' : String) (k : Nat) (x y : String × Bool) : Prop :=
  Twins root root' k x.1 y.1 ∧ x.2 = y.2

section Lists

variable {root root' : String} {k : Nat} {path path' : String}

mutual

/-- What is listed below a legal node, from two places, is listed in the same order. -/
lemma Node.twins_contents (hroot : IsName root) (hroot' : IsName root') (m : Node)
    (hm : m.isLegal = true) {k : Nat} {path path' : String} (h : Twins root root' k path path') :
    List.Forall₂ (TwinEntries root root' (k + 1)) (m.contents path) (m.contents path') := by
  match m with
  | .file _ => exact .nil
  | .dir es => exact Node.twins_contentsOf hroot hroot' es hm h

/-- So are the entries of a directory. -/
lemma Node.twins_contentsOf (hroot : IsName root) (hroot' : IsName root')
    (es : List (String × Node)) (hes : Node.areLegal es = true) {k : Nat} {path path' : String}
    (h : Twins root root' k path path') :
    List.Forall₂ (TwinEntries root root' (k + 1)) (Node.contentsOf path es)
      (Node.contentsOf path' es) := by
  match es with
  | [] => exact .nil
  | (name, n) :: rest =>
    rw [Node.areLegal, Bool.and_eq_true, Bool.and_eq_true, decide_eq_true_eq] at hes
    have hname := h.name hroot hroot' hes.1.1
    have hbelow := (Node.twins_contents hroot hroot' n hes.1.2 hname).imp
      fun x y hxy => (⟨hxy.1.mono (by omega), hxy.2⟩ : TwinEntries root root' (k + 1) x y)
    exact .cons ⟨hname, rfl⟩
      (List.rel_append hbelow (Node.twins_contentsOf hroot hroot' rest hes.2 h))

end

/-- **Twins are in the same order.** -/
theorem Twins.sort (hroot : IsName root) (hroot' : IsName root') {ps ps' : List String}
    (h : List.Forall₂ (Twins root root' k) ps ps') :
    List.Forall₂ (Twins root root' k) (Path.sort ps) (Path.sort ps') := by
  obtain ⟨rows, hrows, rfl, rfl⟩ : ∃ rows : List (List String),
      (∀ fs ∈ rows, Inside fs ∧ k ≤ (trail fs).length) ∧ ps = rows.map (within root) ∧
        ps' = rows.map (within root') := by
    induction h with
    | nil => exact ⟨[], by simp⟩
    | cons hp _ ih =>
      obtain ⟨fs, hfs, hdepth, rfl, rfl⟩ := hp
      obtain ⟨rows, hrows, rfl, rfl⟩ := ih
      exact ⟨fs :: rows, by simpa using ⟨⟨hfs, hdepth⟩, hrows⟩, rfl, rfl⟩
  have hsort : ∀ r, IsName r → Path.sort (rows.map (within r)) =
      (rows.mergeSort fun fs gs =>
        partsLe (fs.filterMap Part.ofInner?) (gs.filterMap Part.ofInner?)).map (within r) := by
    intro r hr
    refine (List.map_mergeSort fun fs hfs gs hgs => ?_).symm
    exact (le_within hr (hrows fs hfs).1.slash_notMem (hrows gs hgs).1.slash_notMem).symm
  rw [hsort root hroot, hsort root' hroot', List.forall₂_map_left_iff, List.forall₂_map_right_iff,
    List.forall₂_same]
  intro fs hfs
  obtain ⟨hinside, hdepth⟩ := hrows fs (List.mem_mergeSort.1 hfs)
  exact ⟨fs, hinside, hdepth, rfl, rfl⟩

variable {t t' : FileTree} {d : Node} (h : t.Holds root d) (h' : t'.Holds root' d)
  (hlegal : d.isLegal = true) (hpaths : Twins root root' k path path')
include h h' hlegal hpaths

/-- What lies below twins. -/
lemma Twins.below :
    List.Forall₂ (TwinEntries root root' (k + 1)) (t.below path) (t'.below path') := by
  rw [FileTree.below, FileTree.below, ← hpaths.find?_eq h h']
  cases hm : t.find? path with
  | none => exact .nil
  | some m => exact Node.twins_contents h.isName h'.isName m (hpaths.isLegal h hlegal hm) hpaths

/-- **The files below twins are twins, in the same order.** -/
theorem Twins.filesBelow :
    List.Forall₂ (Twins root root' 0) (t.filesBelow path) (t'.filesBelow path') := by
  refine Twins.sort h.isName h'.isName ?_
  refine List.rel_filterMap ?_ (Twins.below h h' hlegal hpaths)
  rintro ⟨p, isDirectory⟩ ⟨p', _⟩ ⟨htwins, rfl⟩
  cases isDirectory with
  | true => exact .none
  | false => exact .some (htwins.mono (Nat.zero_le _))

end Lists

end ProxyLint
