import Mathlib.Data.List.Count
import Mathlib.Data.List.Nodup
import ProxyLint.Proofs.FileTree.Place
import ProxyLint.Proofs.Path.Relative

set_option relaxedAutoImplicit false
set_option autoImplicit false

/-!
# What lies below a directory

The walk through a directory lists every file and every directory below it, each once. It lists
paths, and a place may have many paths, so the listing is compared with one of names: the chains of
names that lead from the directory to what is below it.

## Main definitions

* `ProxyLint.Node.chains` — the chains of names that lead to what is below a node.
* `ProxyLint.FileTree.LeadsInto` — a path that names of a directory can be added to.
* `ProxyLint.FileTree.filesAt` — the regular files that a path stands for.

## Main results

* `ProxyLint.Node.mem_chains_iff`, `ProxyLint.Node.nodup_chains` — the chains lead to everything
  below a node, each to something else.
* `ProxyLint.FileTree.map_seen_contents` — what is listed below a node are the chains.
* `ProxyLint.FileTree.count_filesAt` — a file is listed once if it lies at or below the path.
-/

namespace ProxyLint

open ProxyLint.Path

/-! ### Chains of names -/

namespace Node

mutual

/-- The chains of names that lead from a node to what is below it, each with whether that is a
directory. -/
def chains : Node → List (List String × Bool)
  | .file _ => []
  | .dir es => chainsOf es

/-- The chains of names that lead to entries of a directory, and to what is below them. -/
def chainsOf : List (String × Node) → List (List String × Bool)
  | [] => []
  | (name, n) :: rest =>
    ([name], n.isDir) :: (n.chains.map fun c => (name :: c.1, c.2)) ++ chainsOf rest

end

mutual

/-- The chains lead to everything below a tidy node. -/
lemma mem_chains_iff (n : Node) (h : n.isTidy = true) {names : List String} {b : Bool} :
    (names, b) ∈ n.chains ↔ names ≠ [] ∧ ∃ m, n.at? names = some m ∧ m.isDir = b := by
  match n with
  | .file text =>
    rw [chains]
    cases names with
    | nil => simp
    | cons name rest => simp [at?, child?, entries]
  | .dir es =>
    obtain ⟨hnames, hes⟩ := isTidy_dir_iff.1 h
    rw [chains, mem_chainsOf_iff es hes]
    constructor
    · rintro ⟨name, rest, rfl, c, hc, m, hm, rfl⟩
      refine ⟨List.cons_ne_nil _ _, m, ?_, rfl⟩
      rw [at?, (child?_eq_some_iff h).2 hc]
      exact hm
    · rintro ⟨hne, m, hm, rfl⟩
      obtain ⟨name, rest, rfl⟩ := List.exists_cons_of_ne_nil hne
      rw [at?] at hm
      cases hchild : (Node.dir es).child? name with
      | none => rw [hchild] at hm; cases hm
      | some c =>
        rw [hchild] at hm
        exact ⟨name, rest, rfl, c, (child?_eq_some_iff h).1 hchild, m, hm, rfl⟩

/-- Those of a list of entries lead to the entries and to what is below them. -/
lemma mem_chainsOf_iff (es : List (String × Node))
    (h : ∀ e ∈ es, IsName e.1 ∧ e.2.isTidy = true) {names : List String} {b : Bool} :
    (names, b) ∈ chainsOf es ↔ ∃ name rest, names = name :: rest ∧ ∃ c, (name, c) ∈ es ∧
      ∃ m, c.at? rest = some m ∧ m.isDir = b := by
  match es with
  | [] => simp [chainsOf]
  | (name, n) :: es =>
    have hn := (h (name, n) List.mem_cons_self).2
    have hes : ∀ e ∈ es, IsName e.1 ∧ e.2.isTidy = true :=
      fun e he => h e (List.mem_cons_of_mem _ he)
    rw [chainsOf, List.cons_append, List.mem_cons, List.mem_append, List.mem_map,
      mem_chainsOf_iff es hes]
    constructor
    · rintro (heq | ⟨⟨names, b⟩, hc, heq⟩ | ⟨name', rest, rfl, c, hc, hm⟩)
      · cases heq
        exact ⟨name, [], rfl, n, List.mem_cons_self, n, rfl, rfl⟩
      · cases heq
        obtain ⟨-, m, hm, hb⟩ := (mem_chains_iff n hn).1 hc
        exact ⟨name, names, rfl, n, List.mem_cons_self, m, hm, hb⟩
      · exact ⟨name', rest, rfl, c, List.mem_cons_of_mem _ hc, hm⟩
    · rintro ⟨name', rest, rfl, c, hc, m, hm, rfl⟩
      rcases List.mem_cons.1 hc with heq | hc
      · cases heq
        cases rest with
        | nil =>
          cases hm
          exact .inl rfl
        | cons next rest =>
          have hmem := (mem_chains_iff n hn).2 ⟨List.cons_ne_nil next rest, m, hm, rfl⟩
          exact .inr (.inl ⟨_, hmem, rfl⟩)
      · exact .inr (.inr ⟨name', rest, rfl, c, hc, m, hm, rfl⟩)

end

mutual

/-- Each chain leads to something else. -/
lemma nodup_chains (n : Node) (h : n.isTidy = true) : (n.chains.map Prod.fst).Nodup := by
  match n with
  | .file text => exact List.nodup_nil
  | .dir es =>
    obtain ⟨hnames, hes⟩ := isTidy_dir_iff.1 h
    exact nodup_chainsOf es hnames hes

/-- So do those to the entries of a directory, which have different names.

**Proof sketch.** By recursion on the entries: the chains to and below an entry start with its name,
and those of the other entries start with other names. -/
lemma nodup_chainsOf (es : List (String × Node)) (hnames : (es.map Prod.fst).Nodup)
    (h : ∀ e ∈ es, IsName e.1 ∧ e.2.isTidy = true) : ((chainsOf es).map Prod.fst).Nodup := by
  match es with
  | [] => exact List.nodup_nil
  | (name, n) :: es =>
    have hn := (h (name, n) List.mem_cons_self).2
    have hes : ∀ e ∈ es, IsName e.1 ∧ e.2.isTidy = true :=
      fun e he => h e (List.mem_cons_of_mem _ he)
    rw [List.map_cons, List.nodup_cons] at hnames
    have hbelow : (((n.chains.map Prod.fst).map (name :: ·))).Nodup :=
      (nodup_chains n hn).map (List.cons_injective)
    have hrest := nodup_chainsOf es hnames.2 hes
    have hhead : ∀ c ∈ (chainsOf es).map Prod.fst, ∃ key ≠ name, ∃ rest, c = key :: rest := by
      rintro _ hmem
      obtain ⟨⟨names, b⟩, hc, rfl⟩ := List.mem_map.1 hmem
      obtain ⟨key, rest, rfl, m, hm, -⟩ := (mem_chainsOf_iff es hes).1 hc
      refine ⟨key, ?_, rest, rfl⟩
      rintro rfl
      exact hnames.1 (List.mem_map.2 ⟨_, hm, rfl⟩)
    have hmap : (chainsOf ((name, n) :: es)).map Prod.fst =
        [name] :: ((n.chains.map Prod.fst).map (name :: ·) ++ (chainsOf es).map Prod.fst) := by
      rw [chainsOf]
      simp [Function.comp_def]
    rw [hmap, List.nodup_cons, List.nodup_append, List.mem_append, not_or]
    refine ⟨⟨?_, ?_⟩, hbelow, hrest, ?_⟩
    · intro hmem
      obtain ⟨names, hnames, heq⟩ := List.mem_map.1 hmem
      obtain ⟨⟨names, b⟩, hc, rfl⟩ := List.mem_map.1 hnames
      obtain ⟨hne, -⟩ := (mem_chains_iff n hn).1 hc
      exact hne (List.cons.inj heq).2
    · intro hmem
      obtain ⟨key, hkey, rest, heq⟩ := hhead _ hmem
      exact hkey (List.cons.inj heq).1.symm
    · rintro _ hmem c hc rfl
      obtain ⟨names, -, rfl⟩ := List.mem_map.1 hmem
      obtain ⟨key, hkey, rest, heq⟩ := hhead _ hc
      exact hkey (List.cons.inj heq).1.symm

end

end Node

/-! ### Listings -/

namespace FileTree

variable {t : FileTree} {path : String} {place : List String}

/-- A path that names can be added to, to step from a place. The empty path is one, although it
leads nowhere itself. -/
def LeadsInto (t : FileTree) (path : String) (place : List String) : Prop :=
  ∀ name, IsName name → t.locate? (join path name) = t.step place name

/-- A path that leads somewhere can be stepped on from. -/
lemma leadsInto_of_locate? (h : t.locate? path = some place) : t.LeadsInto path place := by
  intro name hname
  rw [t.locate?_join_name (ne_empty_of_locate? h) hname, h]
  rfl

/-- The empty path stands for the current directory. -/
lemma leadsInto_empty (t : FileTree) : t.LeadsInto "" t.here := by
  intro name hname
  have hjoin : join "" name = name := by simp [join]
  rw [hjoin, t.locate?_name hname]

/-- What a listed path shows: where it leads, its file name, and whether it is said to be a
directory. -/
def seen (t : FileTree) (e : String × Bool) : Option (List String) × Option String × Bool :=
  (t.locate? e.1, fileName? e.1, e.2)

/-- What a listed path shows that a chain of names leads to from a place. -/
def seenFrom (place : List String) (c : List String × Bool) :
    Option (List String) × Option String × Bool :=
  (some (place ++ c.1), c.1.getLast?, c.2)

/-- What a chain of names shows further up. -/
lemma seenFrom_concat (place : List String) (name : String) {cs : List (List String × Bool)}
    (h : ∀ c ∈ cs, c.1 ≠ []) :
    cs.map (seenFrom (place ++ [name])) =
      (cs.map fun c => (name :: c.1, c.2)).map (seenFrom place) := by
  rw [List.map_map]
  refine List.map_congr_left fun c hc => ?_
  simp [seenFrom, List.getLast?_cons_of_ne_nil (h c hc)]

mutual

/-- **What is listed below a node are the chains** of names that lead there. -/
lemma map_seen_contents (n : Node) (h : n.isTidy = true) {path : String} {place : List String}
    (hpath : t.LeadsInto path place) (hn : t.root.at? place = some n) :
    (n.contents path).map t.seen = n.chains.map (seenFrom place) := by
  match n with
  | .file text => rfl
  | .dir es =>
    refine map_seen_contentsOf es (Node.isTidy_dir_iff.1 h).2 hpath fun e he => ?_
    rw [Node.at?_concat, hn]
    exact (Node.child?_eq_some_iff h).2 he

/-- So are the entries of a directory, and what is below them. -/
lemma map_seen_contentsOf (es : List (String × Node))
    (h : ∀ e ∈ es, IsName e.1 ∧ e.2.isTidy = true) {path : String} {place : List String}
    (hpath : t.LeadsInto path place) (hes : ∀ e ∈ es, t.root.at? (place ++ [e.1]) = some e.2) :
    (Node.contentsOf path es).map t.seen = (Node.chainsOf es).map (seenFrom place) := by
  match es with
  | [] => rfl
  | (name, n) :: es =>
    obtain ⟨hname, hn⟩ := h (name, n) List.mem_cons_self
    have hat : t.root.at? (place ++ [name]) = some n := hes (name, n) List.mem_cons_self
    have hlocate : t.locate? (join path name) = some (place ++ [name]) := by
      rw [hpath name hname, t.step_name place hname, hat]
      rfl
    have hfile : fileName? (join path name) = some name :=
      fileName?_join path (fileName?_eq_some_iff.2 ⟨[], hname.parts⟩)
    have hbelow := map_seen_contents n hn (leadsInto_of_locate? hlocate) hat
    have hrest := map_seen_contentsOf es (fun e he => h e (List.mem_cons_of_mem _ he)) hpath
      fun e he => hes e (List.mem_cons_of_mem _ he)
    have hne : ∀ c ∈ n.chains, c.1 ≠ [] := fun c hc => ((Node.mem_chains_iff n hn).1 hc).1
    rw [Node.contentsOf, Node.chainsOf, List.cons_append, List.cons_append, List.map_cons,
      List.map_cons, List.map_append, List.map_append, hbelow, hrest,
      seenFrom_concat place name hne, seen, hlocate, hfile]
    rfl

end

/-! ### The files that a path stands for -/

/-- The regular files that a path stands for: those below it if it is a directory, and else the
path itself. -/
def filesAt (t : FileTree) (path : String) : List String :=
  if t.isDir path then t.filesBelow path else [path]

/-- Of a file there is the file alone. -/
lemma filesAt_of_file {text : Option String} (hpath : t.locate? path = some place)
    (hfile : t.root.at? place = some (.file text)) : t.filesAt path = [path] := by
  have hdir : t.isDir path = false := isDir_of_locate? hpath hfile
  rw [filesAt, hdir, if_neg Bool.false_ne_true]

/-- Of a directory there are the files below it. -/
lemma filesAt_of_dir {es : List (String × Node)} (hpath : t.locate? path = some place)
    (hes : t.root.at? place = some (.dir es)) : t.filesAt path = t.filesBelow path := by
  have hdir : t.isDir path = true := isDir_of_locate? hpath hes
  rw [filesAt, hdir, if_pos rfl]

section Files

variable (htidy : t.root.isTidy = true) (hpath : t.locate? path = some place)
include htidy hpath

/-- The places of the files below a path, in some order. -/
lemma perm_filesBelow {d : Node} (hd : t.root.at? place = some d) :
    ((t.filesBelow path).map t.locate?).Perm
      ((d.chains.filter fun c => !c.2).map fun c => some (place ++ c.1)) := by
  have hlist := map_seen_contents d (Node.isTidy_at? htidy hd) (leadsInto_of_locate? hpath) hd
  have hbelow : t.below path = d.contents path := by
    rw [below, find?, hpath, Option.bind_some, hd]
  have hfiles : ∀ es : List (String × Bool),
      (es.filterMap fun e => if e.2 then none else some e.1).map t.locate? =
        ((es.map t.seen).filter fun s => !s.2.2).map Prod.fst := by
    intro es
    induction es with
    | nil => rfl
    | cons e es ih =>
      obtain ⟨p, b⟩ := e
      cases b <;> simp [seen, ih]
  have hchains : ((d.chains.map (seenFrom place)).filter fun s => !s.2.2).map Prod.fst =
      (d.chains.filter fun c => !c.2).map fun c => some (place ++ c.1) := by
    rw [List.filter_map, List.map_map]
    rfl
  rw [← hchains, ← hlist, ← hbelow, ← hfiles]
  exact (Path.perm_sort _).map t.locate?

/-- A path stands for regular files only. -/
lemma exists_file_of_mem_filesAt {file : String} (hfile : file ∈ t.filesAt path) :
    ∃ q text, t.locate? file = some q ∧ t.root.at? q = some (.file text) := by
  obtain ⟨d, hd⟩ := exists_at?_of_locate? hpath
  cases d with
  | file text =>
    rw [filesAt_of_file hpath hd, List.mem_singleton] at hfile
    subst hfile
    exact ⟨place, text, hpath, hd⟩
  | dir es =>
    rw [filesAt_of_dir hpath hd] at hfile
    have hmem := (perm_filesBelow htidy hpath hd).mem_iff.1 (List.mem_map.2 ⟨file, hfile, rfl⟩)
    obtain ⟨⟨names, b⟩, hc, hlocate⟩ := List.mem_map.1 hmem
    obtain ⟨hc, hb⟩ := List.mem_filter.1 hc
    obtain ⟨-, m, hm, rfl⟩ := (Node.mem_chains_iff _ (Node.isTidy_at? htidy hd)).1 hc
    cases m with
    | file text => exact ⟨place ++ names, text, hlocate.symm, by rw [Node.at?_append, hd]; exact hm⟩
    | dir es' => cases hb

/-- **A regular file is listed once if it lies at or below the path**, and else not at all.

**Proof sketch.** A path to a file stands for the file alone. A path to a directory stands for the
ends of the chains below it (`perm_filesBelow`), which are all different (`nodup_chains`), and the
file is one of them exactly if it lies below. -/
theorem count_filesAt {q : List String} {text : Option String}
    (hq : t.root.at? q = some (.file text)) :
    ((t.filesAt path).map t.locate?).count (some q) = if place <+: q then 1 else 0 := by
  obtain ⟨d, hd⟩ := exists_at?_of_locate? hpath
  have hbelow : ∀ names, q = place ++ names → d.at? names = some (.file text) := by
    rintro names rfl
    rw [Node.at?_append, hd] at hq
    exact hq
  cases d with
  | file text' =>
    have hunder : place <+: q ↔ some q = t.locate? path := by
      rw [hpath, Option.some.injEq]
      constructor
      · rintro ⟨names, rfl⟩
        cases names with
        | nil => exact List.append_nil place
        | cons name rest => cases hbelow _ rfl
      · rintro rfl
        exact List.prefix_rfl
    rw [filesAt_of_file hpath hd, List.map_singleton]
    by_cases h : some q = t.locate? path
    · rw [if_pos (hunder.2 h), ← h, List.count_singleton_self]
    · rw [if_neg (mt hunder.1 h), List.count_singleton, if_neg (by simpa using Ne.symm h)]
  | dir es =>
    have hdTidy := Node.isTidy_at? htidy hd
    have hnodup : (((Node.dir es).chains.filter fun c => !c.2).map
        fun c => some (place ++ c.1)).Nodup := by
      have hfst : (((Node.dir es).chains.filter fun c => !c.2).map Prod.fst).Nodup :=
        (Node.nodup_chains _ hdTidy).sublist (List.filter_sublist.map Prod.fst)
      have hinj : Function.Injective fun names => some (place ++ names) :=
        fun a b h => List.append_cancel_left (Option.some.inj h)
      have hmap := hfst.map hinj
      rw [List.map_map] at hmap
      exact hmap
    have hmem : some q ∈ ((Node.dir es).chains.filter fun c => !c.2).map
        (fun c => some (place ++ c.1)) ↔ place <+: q := by
      rw [List.mem_map]
      constructor
      · rintro ⟨c, -, heq⟩
        exact ⟨c.1, Option.some.inj heq⟩
      · rintro ⟨names, rfl⟩
        have hfile := hbelow names rfl
        have hne : names ≠ [] := by
          rintro rfl
          cases hfile
        have hc := (Node.mem_chains_iff _ hdTidy).2 ⟨hne, _, hfile, rfl⟩
        exact ⟨_, List.mem_filter.2 ⟨hc, rfl⟩, rfl⟩
    rw [filesAt_of_dir hpath hd, (perm_filesBelow htidy hpath hd).count_eq, hnodup.count]
    exact if_congr hmem rfl rfl

/-- The files that a path stands for are those at or below it. -/
lemma mem_places_filesAt_iff {q : List String} :
    some q ∈ (t.filesAt path).map t.locate? ↔
      (∃ text, t.root.at? q = some (.file text)) ∧ place <+: q := by
  constructor
  · intro hmem
    obtain ⟨file, hfile, hlocate⟩ := List.mem_map.1 hmem
    obtain ⟨q', text, hq', htext⟩ := exists_file_of_mem_filesAt htidy hpath hfile
    obtain rfl : q = q' := Option.some.inj (hlocate.symm.trans hq')
    refine ⟨⟨text, htext⟩, ?_⟩
    by_contra hunder
    have hcount := count_filesAt htidy hpath htext
    rw [if_neg hunder] at hcount
    exact List.count_eq_zero.1 hcount hmem
  · rintro ⟨⟨text, htext⟩, hunder⟩
    have hcount := count_filesAt htidy hpath htext
    rw [if_pos hunder] at hcount
    exact List.count_pos_iff.1 (by omega)

/-- A path stands for each file once. -/
lemma nodup_filesAt : ((t.filesAt path).map t.locate?).Nodup := by
  rw [List.nodup_iff_count_le_one]
  intro q?
  by_cases hmem : q? ∈ (t.filesAt path).map t.locate?
  · obtain ⟨file, hfile, rfl⟩ := List.mem_map.1 hmem
    obtain ⟨q, text, hq, htext⟩ := exists_file_of_mem_filesAt htidy hpath hfile
    rw [hq, count_filesAt htidy hpath htext]
    split <;> omega
  · rw [List.count_eq_zero.2 hmem]
    omega

end Files

end FileTree

end ProxyLint
