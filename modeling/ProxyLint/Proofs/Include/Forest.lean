import ProxyLint.Proofs.Include.Script

set_option relaxedAutoImplicit false
set_option autoImplicit false

/-!
# Include forests

A script that is carried out to its end grows into a forest: its lines and its
faults in order and, where a file is included, all that the script of that file
grows into. The forest belongs to the files alone. The bounds of an expansion
only decide whether a run gets to the end of it.

## Main definitions

* `ProxyLint.Include.Forest` — lines, faults and included files in order.
* `ProxyLint.Include.Grows` — a script grows into a forest.
* `ProxyLint.Include.Outcome.Exceeds` — an expansion that a bound has stopped.

## Main results

* `ProxyLint.Include.Grows.run_eq_done`, `ProxyLint.Include.Grows.run_exceeds` — a
  run of a script that grows into a forest ends with the forest if it is within
  the bounds, and is stopped by a bound if it is not.
* `ProxyLint.Include.Resolver.grows_of_run_done` — a run that ends has grown a
  forest.
* `ProxyLint.Include.Grows.inline` — the script of an included file can be put in the
  place of its include.
-/

namespace ProxyLint.Include

/-! ### Forests -/

/-- What a script grows into. -/
inductive Forest where
  /-- Nothing more. -/
  | nil
  /-- A line, and what follows it. -/
  | line (l : Line) (rest : Forest)
  /-- A fault, and what follows it. -/
  | fault (f : Finding) (rest : Forest)
  /-- An included file with what it grows into, and what follows it. -/
  | file (path : String) (inside rest : Forest)

namespace Forest

/-- The lines of a forest, from left to right and depth first. -/
def lines : Forest → List Line
  | .nil => []
  | .line l rest => l :: rest.lines
  | .fault _ rest => rest.lines
  | .file _ inside rest => inside.lines ++ rest.lines

/-- The faults of a forest, in the same order. -/
def findings : Forest → List Finding
  | .nil => []
  | .line _ rest => rest.findings
  | .fault f rest => f :: rest.findings
  | .file _ inside rest => inside.findings ++ rest.findings

/-- How many files of a forest lie inside each other at most. -/
def height : Forest → Nat
  | .nil => 0
  | .line _ rest => rest.height
  | .fault _ rest => rest.height
  | .file _ inside rest => max (inside.height + 1) rest.height

/-- Two forests side by side. -/
def append : Forest → Forest → Forest
  | .nil, G => G
  | .line l rest, G => .line l (rest.append G)
  | .fault f rest, G => .fault f (rest.append G)
  | .file path inside rest, G => .file path inside (rest.append G)

/-- The lines of forests in a row are in a row. -/
@[simp] lemma lines_append (F G : Forest) : (F.append G).lines = F.lines ++ G.lines := by
  induction F <;> simp_all [append, lines]

/-- The faults of forests in a row are in a row. -/
@[simp] lemma findings_append (F G : Forest) :
    (F.append G).findings = F.findings ++ G.findings := by
  induction F <;> simp_all [append, findings]

/-- Side by side, files do not add to each other's nesting. -/
@[simp] lemma height_append (F G : Forest) : (F.append G).height = max F.height G.height := by
  induction F <;> simp_all [append, height, Nat.max_assoc]

end Forest

/-- What has been produced once a forest has been added. -/
def Expansion.extend (e : Expansion) (F : Forest) : Expansion :=
  ⟨e.lines ++ F.lines.toArray, e.findings ++ F.findings.toArray⟩

namespace Expansion

variable (e : Expansion)

/-- An empty forest adds nothing. -/
@[simp] lemma extend_nil : e.extend .nil = e := by
  simp [extend, Forest.lines, Forest.findings]

/-- A line is added before what follows it. -/
lemma extend_line (l : Line) (F : Forest) :
    e.extend (.line l F) = Expansion.extend { e with lines := e.lines.push l } F := by
  simp [extend, Forest.lines, Forest.findings]

/-- A fault is added before what follows it. -/
lemma extend_fault (f : Finding) (F : Forest) :
    e.extend (.fault f F) = Expansion.extend { e with findings := e.findings.push f } F := by
  simp [extend, Forest.lines, Forest.findings]

/-- The lines of an included file are added before what follows the include. -/
lemma extend_file (path : String) (F G : Forest) :
    e.extend (.file path F G) = (e.extend F).extend G := by
  simp [extend, Forest.lines, Forest.findings]

/-- Added to nothing, a forest is all that has been produced. -/
lemma extend_empty (F : Forest) :
    Expansion.extend {} F = ⟨F.lines.toArray, F.findings.toArray⟩ := by
  simp [extend]

/-- A forest adds its lines, and no others. -/
@[simp] lemma size_extend (F : Forest) :
    (e.extend F).lines.size = e.lines.size + F.lines.length := by
  simp [extend]

end Expansion

/-! ### Growth -/

/-- A script grows into a forest: every line is added, every fault is recorded, and
every included file can be read and grows in turn. Nothing grows from a script
that gives up. -/
inductive Grows (r : Resolver) (t : FileTree) : List Action → Forest → Prop where
  | nil : Grows r t [] .nil
  | emit {content : List Char} {source : Source} {as : List Action} {F : Forest} :
    Grows r t as F →
    Grows r t (.emit content source :: as) (.line ⟨String.ofList content, source⟩ F)
  | report {f : Finding} {as : List Action} {F : Forest} :
    Grows r t as F → Grows r t (.report f :: as) (.fault f F)
  | enter {path text : String} {q : Request} {as : List Action} {F G : Forest} :
    t.read? path = some text →
    Grows r t (r.script t text (r.nameOf path) (some q.file)) F →
    Grows r t as G → Grows r t (.enter path q :: as) (.file path F G)

namespace Grows

variable {r : Resolver} {t : FileTree} {as bs : List Action} {F G : Forest}

/-- Scripts in a row grow into forests side by side. -/
lemma append (hF : Grows r t as F) (hG : Grows r t bs G) : Grows r t (as ++ bs) (F.append G) := by
  induction hF with
  | nil => exact hG
  | emit _ ih => exact .emit ih
  | report _ ih => exact .report ih
  | enter htext hin _ _ ih => exact .enter htext hin ih

/-- A forest of scripts in a row is made of forests of each. -/
lemma of_append (h : Grows r t (as ++ bs) F) :
    ∃ F₁ F₂, F = F₁.append F₂ ∧ Grows r t as F₁ ∧ Grows r t bs F₂ := by
  induction as generalizing F with
  | nil => exact ⟨.nil, F, rfl, .nil, h⟩
  | cons a as ih =>
    cases h with
    | emit h =>
      obtain ⟨F₁, F₂, rfl, h₁, h₂⟩ := ih h
      exact ⟨.line _ F₁, F₂, rfl, .emit h₁, h₂⟩
    | report h =>
      obtain ⟨F₁, F₂, rfl, h₁, h₂⟩ := ih h
      exact ⟨.fault _ F₁, F₂, rfl, .report h₁, h₂⟩
    | enter htext hin h =>
      obtain ⟨F₁, F₂, rfl, h₁, h₂⟩ := ih h
      exact ⟨.file _ _ F₁, F₂, rfl, .enter htext hin h₁, h₂⟩

/-- **An included file can be put in its place.** What grows from a script is what
grows from it with the script of an included file in place of the action that opens
the file, and that lies no deeper. -/
theorem inline {path text : String} {q : Request} (h : Grows r t (as ++ .enter path q :: bs) F)
    (htext : t.read? path = some text) :
    ∃ G, Grows r t (as ++ (r.script t text (r.nameOf path) (some q.file) ++ bs)) G ∧
      G.lines = F.lines ∧ G.findings = F.findings ∧ G.height ≤ F.height := by
  obtain ⟨F₁, F₂, rfl, h₁, h₂⟩ := h.of_append
  cases h₂ with
  | @enter _ text' _ _ I F₃ htext' hin h₃ =>
    rw [htext] at htext'
    cases htext'
    refine ⟨F₁.append (I.append F₃), h₁.append (hin.append h₃), ?_, ?_, ?_⟩
    · simp only [Forest.lines_append, Forest.lines]
    · simp only [Forest.findings_append, Forest.findings]
    · simp only [Forest.height_append, Forest.height]
      omega

/-- What grows does not depend on the bounds. -/
lemma withLimits (h : Grows r t as F) (l : Limits) :
    Grows ({ r with limits := l } : Resolver) t as F := by
  induction h with
  | nil => exact .nil
  | emit _ ih => exact .emit ih
  | report _ ih => exact .report ih
  | enter htext _ _ ihin ih =>
    rw [← r.script_withLimits t l] at ihin
    exact .enter htext ihin ih

end Grows

/-! ### Bounds -/

/-- The failures that stand for a bound, with its value. -/
def Limits.IsExceeded (l : Limits) : Failure → Prop
  | .depthExceeded limit _ _ => limit = l.depth
  | .linesExceeded limit => limit = l.lines
  | _ => False

/-- The expansion was stopped by one of the bounds. -/
def Outcome.Exceeds (o : Outcome) (l : Limits) : Prop :=
  ∃ why e, o = .failed why e ∧ l.IsExceeded why

/-- Nothing is done after a bound has stopped an expansion. -/
lemma Outcome.Exceeds.andThen {o : Outcome} {l : Limits} (h : o.Exceeds l) (f : Step) :
    (o.andThen f).Exceeds l := by
  obtain ⟨why, e, rfl, hw⟩ := h
  exact ⟨why, e, rfl, hw⟩

namespace Resolver

variable (r : Resolver) (t : FileTree)

/-- A line is added as long as there is room for it. -/
lemma emit_of_lt {e : Expansion} (h : e.lines.size < r.limits.lines) (content : List Char)
    (source : Source) :
    r.emit content source e =
      .done { e with lines := e.lines.push ⟨String.ofList content, source⟩ } := by
  simp only [emit, Array.size_push, gt_iff_lt]
  rw [if_neg (by omega)]

/-- A line for which there is no room stops the expansion. -/
lemma emit_exceeds {e : Expansion} (h : r.limits.lines ≤ e.lines.size) (content : List Char)
    (source : Source) : (r.emit content source e).Exceeds r.limits := by
  simp only [emit, Array.size_push, gt_iff_lt]
  rw [if_pos (by omega)]
  exact ⟨_, _, rfl, rfl⟩

/-- No file can be opened when none is left to open. -/
lemma expandFile_zero_exceeds (path : String) (q : Request) (e : Expansion) :
    (r.expandFile t 0 path q e).Exceeds r.limits :=
  ⟨_, _, rfl, rfl⟩

end Resolver

namespace Grows

variable {r : Resolver} {t : FileTree} {as : List Action} {F : Forest}

/-- **A forest within the bounds is grown to its end.**

**Proof sketch.** Induction on the growth. A line has room because all lines that
follow have; an included file has one file fewer left to open, which its own
height allows. -/
theorem run_eq_done (h : Grows r t as F) {depth : Nat} {e : Expansion}
    (hdepth : F.height ≤ depth) (hlines : e.lines.size + F.lines.length ≤ r.limits.lines) :
    r.run t depth as e = .done (e.extend F) := by
  induction h generalizing depth e with
  | nil => rw [Resolver.run_nil, Expansion.extend_nil]
  | emit _ ih =>
    simp only [Forest.height, Forest.lines, List.length_cons] at hdepth hlines
    rw [Resolver.run_cons, Resolver.perform, r.emit_of_lt (by omega), Outcome.andThen_done,
      ih hdepth (by rw [Array.size_push]; omega), Expansion.extend_line]
  | report _ ih =>
    rw [Resolver.run_cons, Resolver.perform, Outcome.andThen_done, Expansion.extend_fault]
    exact ih hdepth hlines
  | enter htext _ _ ihin ih =>
    simp only [Forest.height, Forest.lines, List.length_append] at hdepth hlines
    obtain ⟨depth, rfl⟩ : ∃ k, depth = k + 1 := ⟨depth - 1, by omega⟩
    rw [Resolver.run_cons, Resolver.perform, r.expandFile_succ t htext,
      ihin (by omega) (by omega), Outcome.andThen_done,
      ih (by omega) (by rw [Expansion.size_extend]; omega), Expansion.extend_file]

/-- **A forest beyond the bounds is stopped by one of them.**

**Proof sketch.** Induction on the growth. At an included file, either what is
inside is already beyond the bounds, or it is grown to its end (`run_eq_done`)
and what follows is beyond them. -/
theorem run_exceeds (h : Grows r t as F) {depth : Nat} {e : Expansion}
    (hroom : e.lines.size ≤ r.limits.lines)
    (hbeyond : ¬ (F.height ≤ depth ∧ e.lines.size + F.lines.length ≤ r.limits.lines)) :
    (r.run t depth as e).Exceeds r.limits := by
  induction h generalizing depth e with
  | nil => exact absurd ⟨Nat.zero_le _, hroom⟩ hbeyond
  | emit _ ih =>
    rw [Resolver.run_cons, Resolver.perform]
    by_cases hlt : e.lines.size < r.limits.lines
    · rw [r.emit_of_lt hlt, Outcome.andThen_done]
      simp only [Forest.height, Forest.lines, List.length_cons] at hbeyond
      refine ih (by rw [Array.size_push]; omega) ?_
      rw [Array.size_push]
      omega
    · exact (r.emit_exceeds (by omega) _ _).andThen _
  | report _ ih => exact ih hroom hbeyond
  | @enter path text q as F G htext hin _ ihin ih =>
    rw [Resolver.run_cons, Resolver.perform]
    simp only [Forest.height, Forest.lines, List.length_append] at hbeyond
    cases depth with
    | zero => exact (r.expandFile_zero_exceeds t path q e).andThen _
    | succ depth =>
      rw [r.expandFile_succ t htext]
      by_cases hfit : F.height ≤ depth ∧ e.lines.size + F.lines.length ≤ r.limits.lines
      · rw [hin.run_eq_done hfit.1 hfit.2, Outcome.andThen_done]
        refine ih (by rw [Expansion.size_extend]; exact hfit.2) ?_
        rw [Expansion.size_extend]
        omega
      · exact (ihin hroom hfit).andThen _

/-- A run of a script that grows either ends with its forest or is stopped by a
bound. -/
lemma run_done_or_exceeds (h : Grows r t as F) (depth : Nat) {e : Expansion}
    (hroom : e.lines.size ≤ r.limits.lines) :
    (r.run t depth as e = .done (e.extend F) ∧ (e.extend F).lines.size ≤ r.limits.lines) ∨
      (r.run t depth as e).Exceeds r.limits := by
  by_cases hfit : F.height ≤ depth ∧ e.lines.size + F.lines.length ≤ r.limits.lines
  · exact .inl ⟨h.run_eq_done hfit.1 hfit.2, by rw [Expansion.size_extend]; exact hfit.2⟩
  · exact .inr (h.run_exceeds hroom hfit)

end Grows

/-! ### Runs that end -/

namespace Resolver

variable {r : Resolver} {t : FileTree}

/-- An action that is carried out grows, provided that included files do.

The hypothesis is what the induction on the depth knows about the files below.

**Proof sketch.** By the action. Only a file that is entered takes what is known of the files below:
its own script grows to a forest, which hangs at the place of the include. -/
lemma grows_of_perform_done {depth : Nat} {a : Action} {e e' : Expansion}
    (hin : ∀ {as : List Action} {e e' : Expansion}, depth ≠ 0 →
      r.run t (depth - 1) as e = .done e' → ∃ F, Grows r t as F ∧ e' = e.extend F)
    (h : r.perform (r.expandFile t depth) a e = .done e') :
    ∃ F, Grows r t [a] F ∧ e' = e.extend F := by
  cases a with
  | emit content source =>
    simp only [perform, emit] at h
    split at h
    · cases h
    · cases h
      exact ⟨_, .emit .nil, by rw [Expansion.extend_line, Expansion.extend_nil]⟩
  | report f =>
    cases h
    exact ⟨_, .report .nil, by rw [Expansion.extend_fault, Expansion.extend_nil]⟩
  | stop why => cases h
  | enter path q =>
    cases depth with
    | zero => cases h
    | succ depth =>
      rw [perform] at h
      cases htext : t.read? path with
      | none => simp only [expandFile, htext, reduceCtorEq] at h
      | some text =>
        rw [r.expandFile_succ t htext] at h
        obtain ⟨F, hF, rfl⟩ := hin (Nat.succ_ne_zero _) h
        exact ⟨_, .enter htext hF .nil, by rw [Expansion.extend_file, Expansion.extend_nil]⟩

/-- **A run that ends has grown a forest.**

**Proof sketch.** Induction on the number of files that may still be opened and,
inside, on the script; each action is `grows_of_perform_done`. -/
theorem grows_of_run_done {depth : Nat} {as : List Action} {e e' : Expansion}
    (h : r.run t depth as e = .done e') : ∃ F, Grows r t as F ∧ e' = e.extend F := by
  induction depth using Nat.strongRecOn generalizing as e e' with
  | ind depth ihdepth =>
    induction as generalizing e with
    | nil =>
      cases h
      exact ⟨.nil, .nil, (Expansion.extend_nil _).symm⟩
    | cons a as ih =>
      rw [run_cons] at h
      cases ha : r.perform (r.expandFile t depth) a e with
      | failed why e₁ => rw [ha] at h; cases h
      | done e₁ =>
        rw [ha, Outcome.andThen_done] at h
        obtain ⟨F, hF, rfl⟩ := grows_of_perform_done
          (fun hne hrun => ihdepth (depth - 1) (by omega) hrun) ha
        obtain ⟨G, hG, rfl⟩ := ih h
        refine ⟨F.append G, hF.append hG, ?_⟩
        simp [Expansion.extend]

end Resolver

end ProxyLint.Include
