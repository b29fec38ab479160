import Mathlib.Data.Option.Basic
import ProxyLint.Proofs.FileTree.Twins
import ProxyLint.Proofs.Path.Relative

set_option relaxedAutoImplicit false
set_option autoImplicit false

/-!
# What is where in a file tree

A file system gives each name in a directory once, and it lists a directory in an order of its own.
Neither the way to a place nor what is found there depends on that order, so two trees that hold the
same in different orders cannot be told apart by looking paths up.

## Main definitions

* `ProxyLint.Node.isTidy` — no directory gives a name twice, and each name is one that a file can
  have.
* `ProxyLint.Node.HoldsSame`, `ProxyLint.FileTree.SameContents` — two directories, or two trees,
  that hold the same in whatever order.

## Main results

* `ProxyLint.Node.holdsSame_of_perm` — reordering the entries of a directory keeps what it holds.
* `ProxyLint.FileTree.SameContents.locate?_eq` — a path leads to the same place in both trees.
* `ProxyLint.FileTree.locate?_join` — a joined path is walked in two parts.
* `ProxyLint.FileTree.step_name` — a step along a name leads to what is there.
* `ProxyLint.FileTree.find?_join_name` — what a name in a directory leads to.
-/

namespace ProxyLint

open ProxyLint.Path

/-! ### Tidy directories -/

namespace Node

mutual

/-- Whether each directory at or below a node gives each name once, and only names that a file can
have. -/
def isTidy : Node → Bool
  | .file _ => true
  | .dir es => decide (es.map Prod.fst).Nodup && areTidy es

/-- Whether entries of a directory have names that a file can have, and tidy nodes. -/
def areTidy : List (String × Node) → Bool
  | [] => true
  | (name, n) :: rest => decide (IsName name) && n.isTidy && areTidy rest

end

/-- Entries are tidy if each has a name and is tidy. -/
lemma areTidy_iff {es : List (String × Node)} :
    areTidy es = true ↔ ∀ e ∈ es, IsName e.1 ∧ e.2.isTidy = true := by
  induction es with
  | nil => simp [areTidy]
  | cons e es ih => simp [areTidy, ih, and_assoc]

/-- A directory is tidy if its names are different and its entries are tidy. -/
lemma isTidy_dir_iff {es : List (String × Node)} :
    (Node.dir es).isTidy = true ↔
      (es.map Prod.fst).Nodup ∧ ∀ e ∈ es, IsName e.1 ∧ e.2.isTidy = true := by
  rw [isTidy, Bool.and_eq_true, decide_eq_true_eq, areTidy_iff]

/-- A tidy node gives each name once. -/
lemma nodup_entries {n : Node} (h : n.isTidy = true) : (n.entries.map Prod.fst).Nodup := by
  cases n with
  | file text => exact List.nodup_nil
  | dir es => exact (isTidy_dir_iff.1 h).1

/-- The entries of a tidy node are tidy. -/
lemma tidy_of_mem_entries {n : Node} (h : n.isTidy = true) {e : String × Node}
    (he : e ∈ n.entries) : IsName e.1 ∧ e.2.isTidy = true := by
  cases n with
  | file text => cases he
  | dir es => exact (isTidy_dir_iff.1 h).2 e he

/-- Looking a name up finds the entry of that name, if each name is given once. -/
lemma lookup_eq_some_iff {es : List (String × Node)} (h : (es.map Prod.fst).Nodup) {name : String}
    {m : Node} : es.lookup name = some m ↔ (name, m) ∈ es := by
  induction es with
  | nil => simp
  | cons e es ih =>
    obtain ⟨key, value⟩ := e
    rw [List.map_cons, List.nodup_cons] at h
    rw [List.lookup_cons, List.mem_cons, Prod.mk.injEq]
    by_cases hkey : name = key
    · subst hkey
      have hnone : (name, m) ∉ es := by
        intro hmem
        exact h.1 (List.mem_map.2 ⟨_, hmem, rfl⟩)
      simp [hnone, eq_comm]
    · have hbeq : (name == key) = false := beq_false_of_ne hkey
      rw [hbeq, ih h.2]
      simp [hkey]

/-- In a tidy directory an entry is found by its name. -/
lemma child?_eq_some_iff {n : Node} (h : n.isTidy = true) {name : String} {m : Node} :
    n.child? name = some m ↔ (name, m) ∈ n.entries :=
  lookup_eq_some_iff (nodup_entries h)

/-- One step down is to a child. -/
lemma at?_singleton (n : Node) (name : String) : n.at? [name] = n.child? name := by
  rw [at?]
  cases n.child? name <;> rfl

/-- The last step of a place is to a child. -/
lemma at?_concat (n : Node) (place : List String) (name : String) :
    n.at? (place ++ [name]) = (n.at? place).bind fun d => d.child? name := by
  rw [at?_append]
  cases n.at? place with
  | none => rfl
  | some d => exact at?_singleton d name

/-- Whatever is below a tidy node is tidy. -/
lemma isTidy_at? {n m : Node} {names : List String} (h : n.isTidy = true)
    (hm : n.at? names = some m) : m.isTidy = true := by
  induction names generalizing n with
  | nil =>
    cases hm
    exact h
  | cons name names ih =>
    rw [at?] at hm
    cases hchild : n.child? name with
    | none =>
      rw [hchild] at hm
      cases hm
    | some c =>
      rw [hchild] at hm
      exact ih (tidy_of_mem_entries h ((child?_eq_some_iff h).1 hchild)).2 hm

/-! ### Two nodes that hold the same -/

/-- Two files with one text, or two directories. -/
def Alike : Node → Node → Prop
  | .file text, .file text' => text = text'
  | .dir _, .dir _ => True
  | _, _ => False

/-- A node is like itself. -/
lemma Alike.refl (n : Node) : n.Alike n := by
  cases n <;> simp [Alike]

/-- Nodes that are alike are of one sort. -/
lemma Alike.isDir_eq {n n' : Node} (h : n.Alike n') : n.isDir = n'.isDir := by
  cases n <;> cases n' <;> simp_all [Alike, isDir]

/-- What is there, if anything, is like itself. -/
lemma Alike.rel_refl (n? : Option Node) : Option.Rel Alike n? n? := by
  cases n? with
  | none => exact .none
  | some n => exact .some (.refl n)

/-- Of two that are alike, one is a file of a given text if the other is. -/
lemma Alike.eq_file_iff {n? n'? : Option Node} (h : Option.Rel Alike n? n'?)
    {text : Option String} : n? = some (.file text) ↔ n'? = some (.file text) := by
  cases h with
  | none => exact Iff.rfl
  | @some n n' halike => cases n <;> cases n' <;> simp_all [Alike]

/-- Two nodes that hold the same files and directories, in whatever order they list them. -/
def HoldsSame (n n' : Node) : Prop :=
  ∀ place, Option.Rel Alike (n.at? place) (n'.at? place)

/-- **Reordering the entries of a directory keeps what it holds.** -/
theorem holdsSame_of_perm {es es' : List (String × Node)} (h : es.Perm es')
    (hes : (es.map Prod.fst).Nodup) : HoldsSame (.dir es) (.dir es') := by
  have hlookup : ∀ name, es.lookup name = es'.lookup name := by
    intro name
    have hes' : (es'.map Prod.fst).Nodup := (h.map Prod.fst).nodup_iff.1 hes
    ext m
    rw [lookup_eq_some_iff hes, lookup_eq_some_iff hes', h.mem_iff]
  intro place
  cases place with
  | nil => exact .some trivial
  | cons name rest =>
    have heq : (Node.dir es).at? (name :: rest) = (Node.dir es').at? (name :: rest) := by
      rw [at?, at?, child?, child?, entries, entries, hlookup]
    rw [heq]
    exact Alike.rel_refl _

/-- So does reordering what is below it. -/
lemma HoldsSame.inside {n n' : Node} (h : n.HoldsSame n') (before : List (String × Node))
    (name : String) (after : List (String × Node)) :
    HoldsSame (.dir (before ++ (name, n) :: after)) (.dir (before ++ (name, n') :: after)) := by
  intro place
  cases place with
  | nil => exact .some trivial
  | cons key rest =>
    rw [at?, at?, child?, child?, entries, entries, List.lookup_append, List.lookup_append,
      List.lookup_cons, List.lookup_cons]
    cases before.lookup key with
    | some m => exact Alike.rel_refl _
    | none =>
      cases key == name with
      | true => exact h rest
      | false => exact Alike.rel_refl _

end Node

namespace FileTree

variable {t t' : FileTree}

/-- Two trees with one current directory that hold the same. -/
structure SameContents (t t' : FileTree) : Prop where
  here_eq : t.here = t'.here
  root : t.root.HoldsSame t'.root

/-- There is a step to a name if there is something of that name. -/
lemma step_dir {place : List String} {es : List (String × Node)}
    (h : t.root.at? place = some (.dir es))
    (piece : String) : t.step place piece =
      if piece == "" || piece == "." then some place
      else if piece == ".." then some place.dropLast
      else if (t.root.at? (place ++ [piece])).isSome then some (place ++ [piece])
      else none := by
  rw [step, h, Node.at?_concat, h]
  rfl

/-- There is no step from anything but a directory. -/
lemma step_eq_none {place : List String} (h : ∀ es, t.root.at? place ≠ some (.dir es))
    (piece : String) : t.step place piece = none := by
  unfold step
  split
  · next es hes => exact absurd hes (h es)
  · rfl

namespace SameContents

variable (h : t.SameContents t')
include h

/-- The same steps can be taken in two trees with the same contents. -/
lemma step_eq (place : List String) (piece : String) :
    t.step place piece = t'.step place piece := by
  have hhere := h.root place
  have hnext :
      (t.root.at? (place ++ [piece])).isSome = (t'.root.at? (place ++ [piece])).isSome := by
    have hrel := h.root (place ++ [piece])
    revert hrel
    generalize t.root.at? (place ++ [piece]) = n?, t'.root.at? (place ++ [piece]) = n'?
    rintro (_ | _) <;> rfl
  generalize hn : t.root.at? place = n? at hhere
  generalize hn' : t'.root.at? place = n'? at hhere
  cases hhere with
  | none => rw [step_eq_none (by simp [hn]), step_eq_none (by simp [hn'])]
  | @some n n' halike =>
    cases n <;> cases n'
    · rw [step_eq_none (by simp [hn]), step_eq_none (by simp [hn'])]
    · cases halike
    · cases halike
    · rw [step_dir hn, step_dir hn', hnext]

/-- **A path leads to the same place** in two trees that hold the same. -/
theorem locate?_eq (path : String) : t.locate? path = t'.locate? path := by
  have hstep : t.step = t'.step := by
    funext place piece
    exact h.step_eq place piece
  rw [locate?, locate?, h.here_eq, hstep]

/-- What is found in the two trees is alike. -/
lemma find?_rel (path : String) : Option.Rel Node.Alike (t.find? path) (t'.find? path) := by
  rw [find?, find?, ← h.locate?_eq path]
  cases t.locate? path with
  | none => exact .none
  | some place => exact h.root place

/-- The entries of one name in a directory are alike. -/
lemma child?_rel {path : String} {d d' : Node} (hd : t.find? path = some d)
    (hd' : t'.find? path = some d') (name : String) :
    Option.Rel Node.Alike (d.child? name) (d'.child? name) := by
  obtain ⟨place, hplace, hd⟩ := Option.bind_eq_some_iff.1 hd
  rw [find?, ← h.locate?_eq path, hplace, Option.bind_some] at hd'
  have hrel := h.root (place ++ [name])
  rw [Node.at?_concat, Node.at?_concat, hd, hd'] at hrel
  exact hrel

/-- The two trees have the same directories. -/
lemma isDir_eq (path : String) : t.isDir path = t'.isDir path := by
  have hrel := h.find?_rel path
  unfold isDir
  generalize t.find? path = n?, t'.find? path = n'? at hrel
  cases hrel with
  | none => rfl
  | some halike => exact halike.isDir_eq

/-- The two trees have the same texts. -/
lemma read?_eq (path : String) : t.read? path = t'.read? path := by
  have hrel := h.find?_rel path
  unfold read?
  generalize t.find? path = n?, t'.find? path = n'? at hrel
  cases hrel with
  | none => rfl
  | @some n n' halike => cases n <;> cases n' <;> simp_all [Node.Alike]

end SameContents

/-- What a path leads to in a tidy tree is tidy. -/
lemma isTidy_find? (h : t.root.isTidy = true) {path : String} {n : Node}
    (hn : t.find? path = some n) : n.isTidy = true := by
  obtain ⟨place, -, hn⟩ := Option.bind_eq_some_iff.1 hn
  exact Node.isTidy_at? h hn

/-! ### Joined paths -/

/-- An empty field leads nowhere else, but only in a directory. -/
lemma step_empty_bind (place : List String) {fs : List String} (hne : fs ≠ []) :
    ((t.step place "").bind fun next => fs.foldlM t.step next) = fs.foldlM t.step place := by
  obtain ⟨f, fs, rfl⟩ := List.exists_cons_of_ne_nil hne
  by_cases hdir : ∃ es, t.root.at? place = some (.dir es)
  · obtain ⟨es, hes⟩ := hdir
    rw [step_dir hes]
    rfl
  · have hnone : ∀ piece, t.step place piece = none :=
      step_eq_none fun es hes => hdir ⟨es, hes⟩
    rw [List.foldlM_cons, hnone, hnone]
    rfl

/-- **A joined path is walked in two parts.**

**Proof sketch.** The fields of a joined path are those of the base, less an empty one if the base
ends in a slash, and then those of the target. An empty field is no step, so that the walk is the
same. -/
theorem locate?_join (t : FileTree) {base target : String} (hbase : base ≠ "")
    (htarget : isAbsolute target = false) : t.locate? (join base target) =
      (t.locate? base).bind fun place => (Text.fields '/' target).foldlM t.step place := by
  have hempty : base.isEmpty = false := String.isEmpty_eq_false_iff.2 hbase
  have hfields := Text.fields_ne_nil '/' target
  -- the fields of the two parts, one after the other, less an empty one at the end of the first
  have hwalk : ∀ start, (Text.fields '/' (join base target)).foldlM t.step start =
      ((Text.fields '/' base).foldlM t.step start).bind fun place =>
        (Text.fields '/' target).foldlM t.step place := by
    intro start
    rw [join, htarget, hempty, Bool.or_self, if_neg Bool.false_ne_true]
    split
    · next hlast =>
      obtain ⟨cs, hcs⟩ := List.getLast?_eq_some_iff.1 (beq_iff_eq.1 hlast)
      have hb : base = String.ofList cs ++ "/" ++ "" := by
        rw [← String.toList_inj, hcs]
        simp
      have hj : base ++ target = String.ofList cs ++ "/" ++ target := by
        rw [hb]
        simp
      have hfb : Text.fields '/' base = Text.fields '/' (String.ofList cs) ++ [""] := by
        rw [hb, Text.fields_append_slash]
        rfl
      rw [hj, Text.fields_append_slash, hfb, List.foldlM_append, List.foldlM_append]
      cases (Text.fields '/' (String.ofList cs)).foldlM t.step start with
      | none => rfl
      | some place =>
        refine (step_empty_bind place hfields).symm.trans ?_
        rw [Option.bind_eq_bind, Option.bind_some, List.foldlM_cons, Option.bind_eq_bind,
          Option.bind_assoc]
        rfl
    · rw [Text.fields_append_slash, List.foldlM_append]
      rfl
  have hjoin : (join base target).isEmpty = false := by
    rw [String.isEmpty_eq_false_iff, join, htarget, hempty, Bool.or_self,
      if_neg Bool.false_ne_true]
    split <;> simp [hbase]
  have habs : isAbsolute (join base target) = isAbsolute base := by
    obtain ⟨c, cs, hcs⟩ := List.exists_cons_of_ne_nil
      (show base.toList ≠ [] by simpa using hbase)
    rw [join, htarget, hempty, Bool.or_self, if_neg Bool.false_ne_true]
    unfold isAbsolute Text.startsWith
    split <;> simp [hcs, List.isPrefixOf]
  rw [locate?, locate?, hjoin, hempty, habs, if_neg Bool.false_ne_true, if_neg Bool.false_ne_true]
  exact hwalk _

/-- A step along a name leads to what is there. -/
lemma step_name (t : FileTree) (place : List String) {name : String} (hname : IsName name) :
    t.step place name =
      if (t.root.at? (place ++ [name])).isSome then some (place ++ [name]) else none := by
  by_cases hdir : ∃ es, t.root.at? place = some (.dir es)
  · obtain ⟨es, hes⟩ := hdir
    have hidle : (name == "" || name == ".") = false := by
      simp [hname.ne_empty, hname.ne_dot]
    have hup : (name == "..") = false := beq_false_of_ne hname.ne_dots
    rw [step_dir hes, hidle, hup, if_neg Bool.false_ne_true, if_neg Bool.false_ne_true]
  · have hnone : t.root.at? (place ++ [name]) = none := by
      rw [Node.at?_concat]
      rcases hplace : t.root.at? place with _ | text | es
      · rfl
      · rfl
      · exact absurd ⟨es, hplace⟩ hdir
    rw [step_eq_none (fun es hes => hdir ⟨es, hes⟩), hnone]
    rfl

/-- A step leads to something. -/
lemma exists_at?_of_step {place place' : List String} {piece : String}
    (h : t.step place piece = some place') : ∃ n, t.root.at? place' = some n := by
  by_cases hpiece : ∀ n, Part.ofInner? piece ≠ some (.name n)
  · obtain ⟨n, hn, -⟩ := t.isDir_of_step h hpiece
    exact ⟨n, hn⟩
  · by_cases hdir : ∃ es, t.root.at? place = some (.dir es)
    · obtain ⟨es, hes⟩ := hdir
      rw [step_dir hes] at h
      have hidle : ¬ (piece == "" || piece == ".") = true := by
        intro hidle
        simp [Part.ofInner?, hidle] at hpiece
      have hup : ¬ (piece == "..") = true := by
        intro hup
        simp [Part.ofInner?, hidle, hup] at hpiece
      rw [if_neg hidle, if_neg hup] at h
      split at h
      · next hsome =>
        cases h
        exact Option.isSome_iff_exists.1 hsome
      · cases h
    · rw [step_eq_none fun es hes => hdir ⟨es, hes⟩] at h
      cases h

/-- A path that leads somewhere leads to something. -/
lemma exists_at?_of_locate? {path : String} {place : List String}
    (h : t.locate? path = some place) : ∃ n, t.root.at? place = some n := by
  unfold locate? at h
  split at h
  · cases h
  · obtain ⟨fs, last, hfields⟩ :=
      (List.eq_nil_or_concat (Text.fields '/' path)).resolve_left (Text.fields_ne_nil '/' path)
    dsimp only at h
    rw [hfields, List.concat_eq_append, List.foldlM_append] at h
    obtain ⟨next, -, hlast⟩ := Option.bind_eq_some_iff.1 h
    obtain ⟨place', hstep, hplace⟩ := Option.bind_eq_some_iff.1 hlast
    cases hplace
    exact exists_at?_of_step hstep

/-- A path with one more name is walked one step further. -/
lemma locate?_join_name (t : FileTree) {path name : String} (hpath : path ≠ "")
    (hname : IsName name) :
    t.locate? (join path name) = (t.locate? path).bind fun place => t.step place name := by
  rw [t.locate?_join hpath (isAbsolute_eq_false_of_slash_notMem hname.slash_notMem),
    Text.fields_eq_singleton hname.slash_notMem]
  congr 1
  funext place
  exact bind_pure _

/-- A path leads to a directory if it is one that stands at its place. -/
lemma isDir_of_locate? {path : String} {place : List String} {n : Node}
    (h : t.locate? path = some place) (hn : t.root.at? place = some n) :
    t.isDir path = n.isDir := by
  rw [isDir, find?, h, Option.bind_some, hn]

/-- What exists has a path. -/
lemma ne_empty_of_locate? {path : String} {place : List String}
    (h : t.locate? path = some place) : path ≠ "" := by
  rintro rfl
  cases h

/-- What a name in a directory leads to. -/
lemma find?_join_name {folder name : String} {d : Node} (hd : t.find? folder = some d)
    (hname : IsName name) : t.find? (join folder name) = d.child? name := by
  obtain ⟨place, hplace, hd⟩ := Option.bind_eq_some_iff.1 hd
  have hchild : t.root.at? (place ++ [name]) = d.child? name := by
    rw [Node.at?_concat, hd]
    rfl
  rw [find?, t.locate?_join_name (ne_empty_of_locate? hplace) hname, hplace, Option.bind_some,
    t.step_name place hname, hchild]
  cases hlookup : d.child? name with
  | none => rfl
  | some m => exact hchild.trans hlookup

end FileTree

end ProxyLint
