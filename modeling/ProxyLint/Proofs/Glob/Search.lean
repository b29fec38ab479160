import ProxyLint.Glob
import ProxyLint.Proofs.FileTree.Twins

set_option relaxedAutoImplicit false
set_option autoImplicit false

/-!
# Searches inside a directory

A pattern is searched from the current directory, so the names on the way to a directory are a
part of the pattern. If such a name holds no wildcard, it fits itself only, and the search goes
on inside the directory. What it finds there depends on the directory, and not on its name.

A search can also climb: a component that starts with a dot may fit `..`. It stays inside the
directory if every such component has a step to take back.

## Main definitions

* `ProxyLint.Glob.staysInside` — components that lead a search nowhere but inside a directory.

## Main results

* `ProxyLint.Glob.twins_search` — the same directory under two names is searched alike.
* `ProxyLint.Glob.twins_expand?` — so a pattern stands for twins.
-/

namespace ProxyLint.Glob

open ProxyLint.Path

/-! ### Components without wildcards -/

/-- Characters that are no wildcards are read as they are. -/
lemma tokens?_of_plain {cs : List Char}
    (h : ∀ c ∈ cs, c ≠ '*' ∧ c ≠ '?' ∧ c ≠ '[') : tokens? cs = some (cs.map .exactly) := by
  induction cs with
  | nil => simp [tokens?]
  | cons c cs ih =>
    obtain ⟨hstar, hone, hset⟩ := h c List.mem_cons_self
    have hrest := ih fun c' hc' => h c' (List.mem_cons_of_mem c hc')
    unfold tokens?
    split
    · next heq => cases heq
    · next heq => exact absurd (List.cons.inj heq).1 hone
    · next heq => exact absurd (List.cons.inj heq).1 hstar
    · next heq => exact absurd (List.cons.inj heq).1 hset
    · next heq => exact absurd (List.cons.inj heq).1 hset
    · next heq =>
      obtain ⟨rfl, rfl⟩ := List.cons.inj heq
      rw [hrest]
      rfl

/-- A name without wildcards fits itself only. -/
lemma component?_of_plain {text : String} (h : isPattern text = false) :
    component? text = some (.literal text) := by
  have hplain : ∀ c ∈ text.toList, c ≠ '*' ∧ c ≠ '?' ∧ c ≠ '[' := by
    simpa [isPattern, and_assoc] using h
  have hdeep : text ≠ "**" := by
    rintro rfl
    cases h
  have hexact : ∀ cs : List Char, exactText? (cs.map .exactly) = some cs := by
    intro cs
    induction cs with
    | nil => rfl
    | cons c cs ih => simp [exactText?, ih]
  rw [component?, if_neg (by simpa using hdeep), tokens?_of_plain hplain, Option.map_some, hexact]
  simp

/-- The components of a pattern inside a directory whose name holds no wildcard. -/
lemma read?_within {root : String} {fs : List String} (hroot : IsName root)
    (hplain : isPattern root = false) (hslash : ∀ f ∈ fs, '/' ∉ f.toList) :
    read? (within root fs) =
      (fs.mapM component?).map fun cs => ⟨false, .literal root :: mergeDeep cs⟩ := by
  rw [read?, isAbsolute_within hroot hslash]
  simp only [Bool.false_eq_true, ↓reduceIte]
  rw [fields_within hroot hslash, List.mapM_cons, component?_of_plain hplain]
  cases fs.mapM component? <;> rfl

/-! ### Searches that do not climb out -/

/-- Whether a component fits `..` or `.`. -/
def Component.fitsDots : Component → Bool
  | .wild ts => !(dotNames ts).isEmpty
  | .literal _ | .deep => false

/-- Whether a search along components that starts so many steps inside a directory stays inside
it: a component that fits `..` takes a step back, and any other a step further in. -/
def staysInside : Nat → List Component → Bool
  | _, [] => true
  | k, .literal name :: cs => decide (IsName name) && staysInside (k + 1) cs
  | k, .wild ts :: cs =>
    if (Component.wild ts).fitsDots then decide (0 < k) && staysInside (k - 1) cs
    else staysInside (k + 1) cs
  | k, .deep :: cs => staysInside k cs

/-- A search that starts further in stays inside, too. -/
lemma staysInside_mono {cs : List Component} {k k' : Nat} (h : staysInside k cs = true)
    (hk : k ≤ k') : staysInside k' cs = true := by
  induction cs generalizing k k' with
  | nil => rfl
  | cons c cs ih =>
    cases c with
    | literal name =>
      rw [staysInside, Bool.and_eq_true] at h ⊢
      exact ⟨h.1, ih h.2 (by omega)⟩
    | wild ts =>
      rw [staysInside] at h ⊢
      split
      · next hdots =>
        rw [if_pos hdots, Bool.and_eq_true, decide_eq_true_eq] at h
        rw [Bool.and_eq_true, decide_eq_true_eq]
        exact ⟨by omega, ih h.2 (by omega)⟩
      · next hdots =>
        rw [if_neg hdots] at h
        exact ih h (by omega)
    | deep => exact ih (k := k) h hk

/-- Any component but one that fits `..` leads a step further in. -/
lemma staysInside_succ {c : Component} {cs : List Component} {k : Nat}
    (h : staysInside k (c :: cs) = true) : staysInside (k + 1) cs = true := by
  cases c with
  | literal name =>
    rw [staysInside, Bool.and_eq_true] at h
    exact h.2
  | wild ts =>
    rw [staysInside] at h
    split at h
    · rw [Bool.and_eq_true] at h
      exact staysInside_mono h.2 (by omega)
    · exact h
  | deep => exact staysInside_mono (k := k) h (by omega)

/-! ### Twins -/

section Twins

variable {t t' : FileTree} {root root' : String} {d : Node}

/-- Inside a directory the path of an entry is spelled out. -/
lemma entryPath_within {fs : List String} (hroot : IsName root)
    (hslash : ∀ f ∈ fs, '/' ∉ f.toList) (name : String) :
    entryPath (within root fs) name = join (within root fs) name := by
  rw [entryPath, parts_within hroot hslash, if_neg (by simp)]

/-- Everything below a directory is spelled out. -/
lemma everythingBelow_within {fs : List String} (hroot : IsName root)
    (hslash : ∀ f ∈ fs, '/' ∉ f.toList) :
    everythingBelow t (within root fs) = t.below (within root fs) := by
  rw [everythingBelow, parts_within hroot hslash, if_neg (by simp)]

/-- The only names that are tried besides those of a directory are `.` and `..`. -/
lemma mem_dotNames {ts : List Token} {n : String} (h : n ∈ dotNames ts) : n = "." ∨ n = ".." := by
  unfold dotNames at h
  split at h
  · have hmem := (List.mem_filter.1 h).1
    simp only [List.mem_cons, List.not_mem_nil, or_false] at hmem
    exact hmem.symm
  · cases h

variable (h : t.Holds root d) (h' : t'.Holds root' d) (hlegal : d.isLegal = true)
include h h' hlegal

/-- **The same directory under two names is searched alike.**

**Proof sketch.** By recursion on the components, as the search itself goes. A component without
wildcards and a name that fits lead one step in; the dots that fit lead at most one step out, which
the pattern can afford as long as it stays inside; and what lies below twins is listed alike
(`Twins.below`). -/
theorem twins_search (cs : List Component) {k : Nat} {path path' : String}
    (hpaths : Twins root root' k path path') (hstays : staysInside k cs = true) :
    List.Forall₂ (Twins root root' 0) (search t cs path) (search t' cs path') := by
  have hentry : ∀ name, entryPath path name = join path name ∧
      entryPath path' name = join path' name := by
    obtain ⟨fs, hfs, -, rfl, rfl⟩ := hpaths
    exact fun name => ⟨entryPath_within h.isName hfs.slash_notMem name,
      entryPath_within h'.isName hfs.slash_notMem name⟩
  have hbelow : List.Forall₂ (TwinEntries root root' (k + 1)) (everythingBelow t path)
      (everythingBelow t' path') := by
    have hlists := Twins.below h h' hlegal hpaths
    obtain ⟨fs, hfs, -, rfl, rfl⟩ := hpaths
    rw [everythingBelow_within h.isName hfs.slash_notMem,
      everythingBelow_within h'.isName hfs.slash_notMem]
    exact hlists
  match cs with
  | [] => exact .cons (hpaths.mono (Nat.zero_le k)) .nil
  | .literal name :: rest =>
    rw [staysInside, Bool.and_eq_true, decide_eq_true_eq] at hstays
    have hnext := hpaths.name h.isName h'.isName hstays.1
    have hdots : (name == "." || name == "..") = false := by
      simp [hstays.1.ne_dot, hstays.1.ne_dots]
    simp only [search]
    rw [(hentry name).1, (hentry name).2, hdots, if_neg Bool.false_ne_true,
      if_neg Bool.false_ne_true, hnext.contains_eq h h']
    split
    · exact twins_search rest hnext hstays.2
    · exact .nil
  | .wild ts :: rest =>
    simp only [search]
    rw [hpaths.isDir_eq h h', ← hpaths.names_eq h h']
    split
    · refine List.rel_append (forall₂_flatMap fun n hn => ?_) (forall₂_flatMap fun n hn => ?_)
      · -- the names `.` and `..`, which lead at most one step out
        have hdots : (Component.wild ts).fitsDots = true := by
          simpa [Component.fitsDots] using List.ne_nil_of_mem hn
        rw [staysInside, if_pos hdots, Bool.and_eq_true, decide_eq_true_eq] at hstays
        exact twins_search rest (hpaths.dots h.isName h'.isName hstays.1 (mem_dotNames hn)) hstays.2
      · have hname := hpaths.isName_of_mem_names h hlegal (List.mem_filter.1 hn).1
        rw [(hentry n).1, (hentry n).2]
        exact twins_search rest (hpaths.name h.isName h'.isName hname) (staysInside_succ hstays)
    · exact .nil
  | [.deep] =>
    simp only [search]
    refine List.rel_filterMap ?_ hbelow
    rintro ⟨p, isDirectory⟩ ⟨p', _⟩ ⟨htwins, rfl⟩
    cases isDirectory with
    | true => exact .some (htwins.mono (Nat.zero_le _))
    | false => exact .none
  | .deep :: c :: rest =>
    have hrest : staysInside (k + 1) rest = true := staysInside_succ (c := c) hstays
    simp only [search]
    refine List.rel_flatMap hbelow ?_
    rintro ⟨p, isDirectory⟩ ⟨p', _⟩ ⟨htwins, rfl⟩
    dsimp only
    rw [htwins.fileName?_eq h.isName h'.isName]
    split
    · exact twins_search rest htwins hrest
    · exact .nil

/-- **A pattern inside a directory stands for twins**, whatever the name of the directory is, if
the name holds no wildcard.

**Proof sketch.** The first component of both patterns is the directory, under its two names, which
the search enters; what follows is searched alike from there (`twins_search`). -/
theorem twins_expand? {fs : List String} (hfs : Inside fs) (hplain : isPattern root = false)
    (hplain' : isPattern root' = false)
    (hstays : ((fs.mapM component?).map mergeDeep).all (staysInside 0) = true) :
    Option.Rel (List.Forall₂ (Twins root root' 0)) (expand? t (within root fs))
      (expand? t' (within root' fs)) := by
  have hsearch : ∀ (s : FileTree) (r : String) (cs : List Component), s.Holds r d →
      search s (.literal r :: cs) "." = search s cs r := by
    intro s r cs hs
    have hentry : entryPath "." r = r := by
      rw [entryPath]
      exact if_pos (by decide)
    have hdots : (r == "." || r == "..") = false := by
      simp [hs.isName.ne_dot, hs.isName.ne_dots]
    have hfound : s.contains r = true := by
      rw [FileTree.contains, hs.find?_eq]
      rfl
    simp only [search]
    rw [hentry, hdots, if_neg Bool.false_ne_true, hfound, if_pos rfl]
  rw [expand?, expand?, read?_within h.isName hplain hfs.slash_notMem,
    read?_within h'.isName hplain' hfs.slash_notMem]
  cases hcs : fs.mapM component? with
  | none => exact .none
  | some cs =>
    rw [hcs, Option.map_some, Option.all_some] at hstays
    refine .some (Twins.sort h.isName h'.isName ?_)
    dsimp only
    rw [if_neg Bool.false_ne_true, hsearch t root _ h, hsearch t' root' _ h']
    exact twins_search h h' hlegal _ .start hstays

end Twins

end ProxyLint.Glob
