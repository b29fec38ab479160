import ProxyLint.Proofs.Include.Forest

set_option relaxedAutoImplicit false
set_option autoImplicit false

/-!
# The bounds of an expansion

A resolution passes through moments: some files are open, some actions of the
innermost one are left, and some lines have been produced. The bounds say how
many files may be open and how many lines there may be, and they say nothing
else: a resolution that ends is the same under all bounds that admit it, and is
stopped by a bound under all others.

## Main definitions

* `ProxyLint.Include.Moment` — what is open, left to do and produced.
* `ProxyLint.Include.Reaches` — a resolution passes through a moment.
* `ProxyLint.Include.Resolver.IsPeak` — the largest number of included files that
  are open at once.

## Main results

* `ProxyLint.Include.Reaches.resolveFile_eq_failed` — a failure at a moment is the
  failure of the resolution.
* `ProxyLint.Include.Resolver.isPeak_height` — the height of the forest is the peak.
* `ProxyLint.Include.Resolver.resolveFile_under_other_limits` — bounds are guards
  and nothing else.
-/

namespace ProxyLint.Include

/-! ### Moments -/

/-- A moment of a resolution. -/
structure Moment where
  /-- The paths of the open files, the innermost first; the last one is the entry
  file. -/
  opened : List String
  /-- How many more files may be opened. -/
  depth : Nat
  /-- What is left to do in the innermost file. -/
  todo : List Action
  /-- What has been produced so far. -/
  sofar : Expansion

/-- The moments that the resolution of an entry file passes through: it starts with
the script of that file, and at each included file it passes both into the file
and, once that is expanded, beyond it. -/
inductive Reaches (r : Resolver) (t : FileTree) (entry : String) : Moment → Prop where
  | start {text : String} :
    t.isDir r.root = true → t.isFile (Path.join r.root entry) = true →
    t.read? (Path.join r.root entry) = some text →
    Reaches r t entry
      { opened := [Path.normalize (Path.join r.root entry)]
        depth := r.limits.depth
        todo := r.entryScript t entry text
        sofar := {} }
  | act {opened : List String} {depth : Nat} {a : Action} {as : List Action}
      {e e' : Expansion} :
    Reaches r t entry ⟨opened, depth, a :: as, e⟩ →
    r.perform (r.expandFile t depth) a e = .done e' →
    Reaches r t entry ⟨opened, depth, as, e'⟩
  | enter {opened : List String} {depth : Nat} {path text : String} {q : Request}
      {as : List Action} {e : Expansion} :
    Reaches r t entry ⟨opened, depth + 1, .enter path q :: as, e⟩ →
    t.read? path = some text →
    Reaches r t entry
      ⟨path :: opened, depth, r.script t text (r.nameOf path) (some q.file), e⟩

/-- The largest number of included files that are open at once while an entry file
is resolved. -/
def Resolver.IsPeak (r : Resolver) (t : FileTree) (entry : String) (m : Nat) : Prop :=
  (∃ s, Reaches r t entry s ∧ s.opened.length = m + 1) ∧
    ∀ s, Reaches r t entry s → s.opened.length ≤ m + 1

namespace Reaches

variable {r : Resolver} {t : FileTree} {entry : String} {s : Moment}

/-- A failure at a moment is the failure of the whole resolution. -/
theorem resolveFile_eq_failed (h : Reaches r t entry s) {why : Failure} {e : Expansion}
    (hrun : r.run t s.depth s.todo s.sofar = .failed why e) :
    r.resolveFile t entry = .failed why e := by
  induction h with
  | start hroot hfile htext => rw [r.resolveFile_eq_run t hroot hfile htext, hrun]
  | act _ hact ih =>
    refine ih ?_
    rw [Resolver.run_cons, hact]
    exact hrun
  | enter _ htext ih =>
    refine ih ?_
    rw [Resolver.run_cons, Resolver.perform, r.expandFile_succ t htext, hrun]
    rfl

/-- At every moment of a resolution that ends, what is left to do can be done. -/
lemma run_done (h : Reaches r t entry s) {e : Expansion} (hdone : r.resolveFile t entry = .done e) :
    ∃ e', r.run t s.depth s.todo s.sofar = .done e' := by
  cases hrun : r.run t s.depth s.todo s.sofar with
  | done e' => exact ⟨e', rfl⟩
  | failed why e' => rw [h.resolveFile_eq_failed hrun] at hdone; cases hdone

/-- What is left to do at a moment grows into a part of the forest, which lies as
deep in it as there are included files open. -/
lemma exists_grows (h : Reaches r t entry s) {text : String} {F : Forest}
    (htext : t.read? (Path.join r.root entry) = some text)
    (hF : Grows r t (r.entryScript t entry text) F) :
    ∃ G, Grows r t s.todo G ∧ s.opened.length + G.height ≤ F.height + 1 := by
  induction h with
  | start _ _ htext' =>
    rw [htext] at htext'
    cases htext'
    exact ⟨F, hF, by rw [List.length_singleton]; omega⟩
  | act _ _ ih =>
    obtain ⟨G, hG, hle⟩ := ih
    cases hG with
    | emit hG => exact ⟨_, hG, hle⟩
    | report hG => exact ⟨_, hG, hle⟩
    | enter _ _ hG =>
      simp only [Forest.height] at hle ⊢
      exact ⟨_, hG, by omega⟩
  | enter _ htext' ih =>
    obtain ⟨G, hG, hle⟩ := ih
    cases hG with
    | enter htext'' hin _ =>
      rw [htext'] at htext''
      cases htext''
      simp only [Forest.height, List.length_cons] at hle ⊢
      exact ⟨_, hin, by omega⟩

/-- From a moment at which a forest can be grown, the resolution gets to a moment
with as many more files open as the forest is high.

**Proof sketch.** Induction on the growth. At an included file the resolution goes
into the file if that is where the forest is highest, and beyond it if not. -/
lemma exists_deepest {opened : List String} {depth : Nat} {as : List Action} {e e' : Expansion}
    {F : Forest} (hF : Grows r t as F) (h : Reaches r t entry ⟨opened, depth, as, e⟩)
    (hrun : r.run t depth as e = .done e') :
    ∃ s, Reaches r t entry s ∧ s.opened.length = opened.length + F.height := by
  induction hF generalizing opened depth e e' with
  | nil => exact ⟨_, h, rfl⟩
  | @emit content source as F _ ih =>
    rw [Resolver.run_cons] at hrun
    cases hact : r.perform (r.expandFile t depth) (.emit content source) e with
    | failed why e₁ => rw [hact] at hrun; cases hrun
    | done e₁ => rw [hact] at hrun; exact ih (h.act hact) hrun
  | report _ ih => exact ih (h.act rfl) hrun
  | @enter path text q as F G htext _ _ ihin ih =>
    rw [Resolver.run_cons] at hrun
    cases hact : r.perform (r.expandFile t depth) (.enter path q) e with
    | failed why e₁ => rw [hact] at hrun; cases hrun
    | done e₁ =>
      rw [hact] at hrun
      by_cases hhigh : F.height + 1 ≤ G.height
      · obtain ⟨s, hs, hlen⟩ := ih (h.act hact) hrun
        exact ⟨s, hs, by rw [hlen, Forest.height, Nat.max_eq_right hhigh]⟩
      · cases depth with
        | zero => cases hact
        | succ depth =>
          rw [Resolver.perform, r.expandFile_succ t htext] at hact
          obtain ⟨s, hs, hlen⟩ := ihin (h.enter htext) hact
          refine ⟨s, hs, ?_⟩
          rw [hlen, Forest.height, Nat.max_eq_left (by omega), List.length_cons]
          omega

end Reaches

/-! ### Bounds are guards -/

namespace Resolver

variable {r : Resolver} {t : FileTree} {entry text : String} {e : Expansion} {F : Forest}

/-- The height of the forest of an entry file is the largest number of included
files that are open at once. -/
theorem isPeak_height (hdone : r.resolveFile t entry = .done e)
    (htext : t.read? (Path.join r.root entry) = some text)
    (hF : Grows r t (r.entryScript t entry text) F) : r.IsPeak t entry F.height := by
  obtain ⟨hroot, hfile, -⟩ := r.exists_text_of_resolveFile_done t hdone
  have hstart := Reaches.start hroot hfile htext
  refine ⟨?_, fun s hs => ?_⟩
  · obtain ⟨e', hrun⟩ := hstart.run_done hdone
    obtain ⟨s, hs, hlen⟩ := Reaches.exists_deepest hF hstart hrun
    exact ⟨s, hs, by rw [hlen, List.length_singleton, Nat.add_comm]⟩
  · obtain ⟨G, -, hle⟩ := hs.exists_grows htext hF
    omega

/-- A resolution that ends has grown the forest of the entry file from nothing. -/
lemma exists_forest_of_resolveFile_done (hdone : r.resolveFile t entry = .done e) :
    ∃ text F, t.isDir r.root = true ∧ t.isFile (Path.join r.root entry) = true ∧
      t.read? (Path.join r.root entry) = some text ∧ Grows r t (r.entryScript t entry text) F ∧
      e = Expansion.extend {} F := by
  obtain ⟨hroot, hfile, text, htext⟩ := r.exists_text_of_resolveFile_done t hdone
  rw [r.resolveFile_eq_run t hroot hfile htext] at hdone
  obtain ⟨F, hF, he⟩ := grows_of_run_done hdone
  exact ⟨text, F, hroot, hfile, htext, hF, he⟩

/-- The forest of an entry file decides its resolution. -/
lemma resolveFile_of_grows (hroot : t.isDir r.root = true)
    (hfile : t.isFile (Path.join r.root entry) = true)
    (htext : t.read? (Path.join r.root entry) = some text)
    (hF : Grows r t (r.entryScript t entry text) F) :
    (F.height ≤ r.limits.depth ∧ F.lines.length ≤ r.limits.lines →
      r.resolveFile t entry = .done (Expansion.extend {} F)) ∧
    (¬ (F.height ≤ r.limits.depth ∧ F.lines.length ≤ r.limits.lines) →
      (r.resolveFile t entry).Exceeds r.limits) := by
  have hzero : ({} : Expansion).lines.size + F.lines.length = F.lines.length := Nat.zero_add _
  rw [r.resolveFile_eq_run t hroot hfile htext]
  refine ⟨fun h => hF.run_eq_done h.1 (by rw [hzero]; exact h.2), fun h => ?_⟩
  exact hF.run_exceeds (Nat.zero_le _) (by rw [hzero]; exact h)

/-- The forest of an entry file whose resolution ends is within the bounds. -/
lemma within_limits_of_resolveFile_done (hdone : r.resolveFile t entry = .done e)
    (htext : t.read? (Path.join r.root entry) = some text)
    (hF : Grows r t (r.entryScript t entry text) F) :
    F.height ≤ r.limits.depth ∧ F.lines.length ≤ r.limits.lines := by
  obtain ⟨hroot, hfile, -⟩ := r.exists_text_of_resolveFile_done t hdone
  by_contra hbeyond
  obtain ⟨why, e', hfailed, -⟩ := (resolveFile_of_grows hroot hfile htext hF).2 hbeyond
  rw [hfailed] at hdone
  cases hdone

/-- **Bounds are guards and nothing else.** Suppose that the resolution of an entry
file ends, and let `m` be the largest number of included files that were open at
once. Then there are no more lines and no more open files than the bounds allow,
and under any other bounds the resolution ends with the same lines and the same
faults if `m` files and that many lines are allowed, and is stopped by one of the
bounds if they are not.

**Proof sketch.** The resolution has grown a forest, whose height is `m`
(`isPeak_height`) and whose lines are the result. The same forest grows under
other bounds (`Grows.withLimits`), and they decide whether a run gets to its end
(`resolveFile_of_grows`). -/
theorem resolveFile_under_other_limits (hdone : r.resolveFile t entry = .done e) :
    e.lines.size ≤ r.limits.lines ∧
    ∃ m, r.IsPeak t entry m ∧ m ≤ r.limits.depth ∧ ∀ l : Limits,
      (m ≤ l.depth ∧ e.lines.size ≤ l.lines →
        ({ r with limits := l } : Resolver).resolveFile t entry = .done e) ∧
      (¬ (m ≤ l.depth ∧ e.lines.size ≤ l.lines) →
        (({ r with limits := l } : Resolver).resolveFile t entry).Exceeds l) := by
  obtain ⟨text, F, hroot, hfile, htext, hF, rfl⟩ := exists_forest_of_resolveFile_done hdone
  have hsize : (Expansion.extend {} F).lines.size = F.lines.length := by
    rw [Expansion.size_extend]; exact Nat.zero_add _
  have hfit := within_limits_of_resolveFile_done hdone htext hF
  rw [hsize]
  refine ⟨hfit.2, F.height, isPeak_height hdone htext hF, hfit.1, fun l => ?_⟩
  have hF' : Grows ({ r with limits := l } : Resolver) t
      (({ r with limits := l } : Resolver).entryScript t entry text) F := by
    rw [r.entryScript_withLimits t l]
    exact hF.withLimits l
  exact resolveFile_of_grows (r := { r with limits := l }) hroot hfile htext hF'

/-- A file that includes another one twice, once through a third. -/
def chainTree : FileTree :=
  ⟨.dir [("repo", .dir [
    ("d.any", .file (some "$include \"p.any\"\n$include \"q.any\"")),
    ("p.any", .file (some "x\n$include \"q.any\"")),
    ("q.any", .file (some "y"))])], []⟩

/-- The settings under which it is resolved. -/
def chainResolver : Resolver :=
  { dialect := .any, root := "/repo", limits := ⟨2, 3⟩ }

/-- Three lines, and two included files open at once, are as many as are allowed. -/
theorem resolveFile_chainTree_under_other_limits :
    3 ≤ chainResolver.limits.lines ∧
    ∃ m, chainResolver.IsPeak chainTree "d.any" m ∧ m ≤ chainResolver.limits.depth ∧
      ∀ l : Limits,
        (m ≤ l.depth ∧ 3 ≤ l.lines →
          ({ chainResolver with limits := l } : Resolver).resolveFile chainTree "d.any" =
            .done ⟨#[⟨"x", ⟨some "p.any", some 1, some "d.any"⟩⟩,
              ⟨"y", ⟨some "q.any", some 1, some "p.any"⟩⟩,
              ⟨"y", ⟨some "q.any", some 1, some "d.any"⟩⟩], #[]⟩) ∧
        (¬ (m ≤ l.depth ∧ 3 ≤ l.lines) →
          (({ chainResolver with limits := l } : Resolver).resolveFile chainTree
            "d.any").Exceeds l) := by
  have hdone : chainResolver.resolveFile chainTree "d.any" =
      .done ⟨#[⟨"x", ⟨some "p.any", some 1, some "d.any"⟩⟩,
        ⟨"y", ⟨some "q.any", some 1, some "p.any"⟩⟩,
        ⟨"y", ⟨some "q.any", some 1, some "d.any"⟩⟩], #[]⟩ := by
    decide +kernel
  exact resolveFile_under_other_limits hdone

end Resolver

end ProxyLint.Include
