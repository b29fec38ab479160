import ProxyLint.Proofs.FileTree.Walk
import ProxyLint.Proofs.Include.Limits
import ProxyLint.Proofs.Include.Shape

set_option relaxedAutoImplicit false
set_option autoImplicit false

/-!
# Files that include themselves

There is no list of open files to look up: a file that is included while it is
still open is simply expanded once more. Since its script has the same shape as
before, it leads to itself again, and so on until a bound stops the expansion.

The argument needs the includes of the file to start at the same directory both
times. For the web server's dialect they always do. For nested labels the
directory is found from the name of the file, and a file outside the repository
has two names: one if a pattern has led to it through a `..`, and another if its
path has been normalised.

## Main definitions

* `ProxyLint.Include.Leads` — from a script to what is left of it, or of the script
  of a file that it includes, at some point.

## Main results

* `ProxyLint.Include.Resolver.resolveFile_exceeds_of_reentry` — a file that is
  included while it is open is stopped by a bound.
* `ProxyLint.Include.Resolver.reentry_under_another_name` — the directories matter.
-/

namespace ProxyLint.Include

/-! ### What a script leads to -/

/-- From a script to what is left of it at some point, or of the script of a file
that is included on the way. -/
inductive Leads (r : Resolver) (t : FileTree) (start : List Action) : List Action → Prop where
  | refl : Leads r t start start
  | act {a : Action} {as : List Action} {F : Forest} :
    Leads r t start (a :: as) → Grows r t [a] F → Leads r t start as
  | enter {path text : String} {q : Request} {as : List Action} :
    Leads r t start (.enter path q :: as) → t.read? path = some text →
    Leads r t start (r.script t text (r.nameOf path) (some q.file))

/-- Whatever has been produced before, and wherever the script is written, a bound
stops it as long as no more than `depth` files may be opened. -/
def ExceedsUpTo (r : Resolver) (t : FileTree) (depth : Nat) (as : List Action) : Prop :=
  ∀ d ≤ depth, ∀ bs : List Action, as.map Action.shape = bs.map Action.shape →
    ∀ e : Expansion, e.lines.size ≤ r.limits.lines → (r.run t d bs e).Exceeds r.limits

namespace Leads

variable {r : Resolver} {t : FileTree} {start as : List Action}

/-- A script that leads to one that is stopped is stopped.

**Proof sketch.** Induction on the way. An action that has been carried out once is
carried out again or stopped by a bound; a file that has been entered once is
entered again unless no file is left to open. -/
theorem exceedsUpTo (h : Leads r t start as) {depth : Nat} (hx : ExceedsUpTo r t depth as) :
    ExceedsUpTo r t depth start := by
  induction h with
  | refl => exact hx
  | @act a as F _ hgrows ih =>
    refine ih fun d hd bs hs e hroom => ?_
    obtain ⟨b, bs, rfl, hb, hrest⟩ := List.map_eq_cons_iff.1 hs.symm
    have hshape : [a].map Action.shape = [b].map Action.shape := by
      rw [List.map_singleton, List.map_singleton, hb]
    obtain ⟨G, hG, -⟩ := hgrows.of_shape hshape
    rw [← List.singleton_append, Resolver.run, forEach_append]
    rcases hG.run_done_or_exceeds d hroom with ⟨hdone, hroom'⟩ | hex
    · rw [Resolver.run] at hdone
      rw [hdone]
      exact hx d hd bs hrest.symm _ hroom'
    · exact hex.andThen _
  | enter _ htext ih =>
    refine ih fun d hd bs hs e hroom => ?_
    obtain ⟨b, bs, rfl, hb, -⟩ := List.map_eq_cons_iff.1 hs.symm
    cases b <;> cases hb
    rw [Resolver.run_cons, Resolver.perform]
    cases d with
    | zero => exact (r.expandFile_zero_exceeds t _ _ e).andThen _
    | succ d =>
      rw [r.expandFile_succ t htext]
      exact (hx d (by omega) _ (Resolver.shape_script (.refl _) _) e hroom).andThen _

end Leads

/-! ### Open files -/

namespace Reaches

variable {r : Resolver} {t : FileTree} {entry : String} {s : Moment}

/-- At every moment there is room for the lines that have been produced. -/
lemma size_le (h : Reaches r t entry s) : s.sofar.lines.size ≤ r.limits.lines := by
  induction h with
  | start => exact Nat.zero_le _
  | @act opened depth a as e e' _ hact ih =>
    have hrun : r.run t depth [a] e = .done e' := by
      rw [Resolver.run, forEach_singleton, hact]
    obtain ⟨F, hF, rfl⟩ := Resolver.grows_of_run_done hrun
    rcases hF.run_done_or_exceeds depth ih with ⟨-, hroom⟩ | ⟨why, e'', hfailed, -⟩
    · exact hroom
    · rw [hfailed] at hrun
      cases hrun
  | enter _ _ ih => exact ih

/-- Each open file was entered at an earlier moment, and its script has led to what
is left to do now. -/
lemma exists_leads (h : Reaches r t entry s) {p : String} (hp : p ∈ s.opened) :
    ∃ (s' : Moment) (path text : String) (includedFrom? : Option String),
      Reaches r t entry s' ∧ s'.todo = r.script t text (r.nameOf p) includedFrom? ∧
      Path.normalize path = Path.normalize p ∧ t.read? path = some text ∧
      Leads r t s'.todo s.todo := by
  induction h with
  | @start text hroot hfile htext =>
    rw [List.mem_singleton.1 hp]
    refine ⟨_, _, text, none, .start hroot hfile htext, rfl, ?_, htext, .refl⟩
    exact Path.normalize_eq_iff.2 (Path.stack_normalize _).symm
  | act _ hact ih =>
    obtain ⟨s', path, text, from?, hs', htodo, hpath, htext, hleads⟩ := ih hp
    obtain ⟨F, hF, -⟩ := Resolver.grows_of_perform_done
      (fun _ hrun => Resolver.grows_of_run_done hrun) hact
    exact ⟨s', path, text, from?, hs', htodo, hpath, htext, hleads.act hF⟩
  | @enter opened depth path text q as e hs htext ih =>
    rcases List.mem_cons.1 hp with rfl | hp
    · exact ⟨_, p, text, some q.file, hs.enter htext, rfl, rfl, htext, .refl⟩
    · obtain ⟨s', path', text', from?, hs', htodo, hpath, htext', hleads⟩ := ih hp
      exact ⟨s', path', text', from?, hs', htodo, hpath, htext', hleads.enter htext⟩

end Reaches

namespace Resolver

variable {r : Resolver} {t : FileTree} {entry : String}

/-- A script that leads to an include of the file it belongs to is stopped by a
bound.

**Proof sketch.** Induction on the number of files that may be opened. When the
script gets to the include again there is one file fewer to open, and the script of
the included file has the same shape. -/
lemma exceedsUpTo_of_leads_enter {start as : List Action} {path text : String} {q : Request}
    (hleads : Leads r t start (.enter path q :: as)) (htext : t.read? path = some text)
    (hshape : ∀ includedFrom? : Option String, start.map Action.shape =
      (r.script t text (r.nameOf path) includedFrom?).map Action.shape) (depth : Nat) :
    ExceedsUpTo r t depth start := by
  induction depth using Nat.strongRecOn with
  | ind depth ih =>
    refine hleads.exceedsUpTo fun d hd bs hs e hroom => ?_
    obtain ⟨b, bs, rfl, hb, -⟩ := List.map_eq_cons_iff.1 hs.symm
    cases b <;> cases hb
    rw [run_cons, perform]
    cases d with
    | zero => exact (r.expandFile_zero_exceeds t path _ e).andThen _
    | succ d =>
      rw [r.expandFile_succ t htext]
      exact (ih d (by omega) d (Nat.le_refl d) _ (hshape _) e hroom).andThen _

/-- **A file that is included while it is open is stopped by a bound.** Suppose that,
at some moment of a resolution, a file is included while a file whose path has the
same normal form is open, be it the entry file or one that has been included. Then
the resolution fails because of the bound on open files or of the bound on lines,
in the web server's dialect always, and between labels if the includes of the two
start at the same directory.

**Proof sketch.** The script of the open file leads to the include
(`Reaches.exists_leads`). The included file holds the same text, since its path has
the same normal form (`FileTree.read?_eq_of_normalize_eq`), and its script has the
same shape, since its includes start at the same directory. So it leads to itself
for ever (`exceedsUpTo_of_leads_enter`), and the failure is that of the resolution
(`Reaches.resolveFile_eq_failed`). -/
theorem resolveFile_exceeds_of_reentry {opened : List String} {depth : Nat} {path : String}
    {q : Request} {as : List Action} {e : Expansion}
    (h : Reaches r t entry ⟨opened, depth, .enter path q :: as, e⟩)
    (hfile : t.isFile path = true) {p : String} (hp : p ∈ opened)
    (hpath : Path.normalize p = Path.normalize path)
    (hbase : r.dialect = .any →
      Path.normalize (r.baseOf (r.nameOf p)) = Path.normalize (r.baseOf (r.nameOf path))) :
    (r.resolveFile t entry).Exceeds r.limits := by
  obtain ⟨s, p', text, from?, hs, htodo, hp', htext, hleads⟩ := h.exists_leads hp
  have hread : t.read? path = some text := by
    rw [← htext]
    refine (t.read?_eq_of_normalize_eq ?_ (t.isFile_of_read? htext) hfile).symm
    rw [hp', hpath]
  have hsame : r.SameBase (r.nameOf p) (r.nameOf path) := by
    cases hdialect : r.dialect with
    | any => exact .of_normalize_eq (hbase hdialect)
    | httpd => exact .of_httpd hdialect _ _
  have hshape : ∀ includedFrom? : Option String, s.todo.map Action.shape =
      (r.script t text (r.nameOf path) includedFrom?).map Action.shape := by
    intro includedFrom?
    rw [htodo]
    exact shape_script hsame text
  obtain ⟨why, e', hfailed, hwhy⟩ :=
    exceedsUpTo_of_leads_enter hleads hread hshape s.depth s.depth (Nat.le_refl _) s.todo rfl
      s.sofar hs.size_le
  exact ⟨why, e', hs.resolveFile_eq_failed hfailed, hwhy⟩

/-- Two files that include each other, one of them by a pattern. -/
def mutualTree : FileTree :=
  ⟨.dir [("w", .dir [("repo", .dir [
    ("a.any", .file (some "x\n$include \"b.any\"")),
    ("b.any", .file (some "$include \"a*\""))])])], ["w"]⟩

/-- The settings under which they are resolved. -/
def mutualResolver : Resolver :=
  { dialect := .any, root := "repo", limits := ⟨7, 5⟩ }

/-- When `b.any` is expanded, `a.any` is open and is included once more. -/
theorem resolveFile_mutualTree_exceeds :
    (mutualResolver.resolveFile mutualTree "a.any").Exceeds ⟨7, 5⟩ := by
  have h₀ : Reaches mutualResolver mutualTree "a.any"
      ⟨[Path.normalize (Path.join "repo" "a.any")], 7,
        mutualResolver.entryScript mutualTree "a.any" "x\n$include \"b.any\"", {}⟩ :=
    .start (by decide +kernel) (by decide +kernel) (by decide +kernel)
  have hscript₀ : mutualResolver.entryScript mutualTree "a.any" "x\n$include \"b.any\"" =
      [.emit ['x'] ⟨some "a.any", some 1, none⟩,
        .enter "repo/b.any" ⟨"b.any", false, "a.any", ⟨some "a.any", some 2, none⟩⟩] := by
    decide +kernel
  rw [hscript₀] at h₀
  have h₁ : Reaches mutualResolver mutualTree "a.any"
      ⟨[Path.normalize (Path.join "repo" "a.any")], 6 + 1,
        [.enter "repo/b.any" ⟨"b.any", false, "a.any", ⟨some "a.any", some 2, none⟩⟩],
        ⟨#[⟨"x", ⟨some "a.any", some 1, none⟩⟩], #[]⟩⟩ :=
    h₀.act (by decide +kernel)
  have hread : mutualTree.read? "repo/b.any" = some "$include \"a*\"" := by decide +kernel
  have h₂ := h₁.enter hread
  have hscript₂ : mutualResolver.script mutualTree "$include \"a*\""
      (mutualResolver.nameOf "repo/b.any") (some "a.any") =
      [.enter "repo/a.any" ⟨"a*", false, "b.any", ⟨some "b.any", some 1, some "a.any"⟩⟩] := by
    decide +kernel
  rw [hscript₂] at h₂
  exact resolveFile_exceeds_of_reentry h₂ (by decide +kernel)
    (List.mem_cons_of_mem _ List.mem_cons_self) (by decide +kernel) fun _ => by decide +kernel

/-! ### Another name -/

/-- A file `a.any` outside the repository: a pattern leads to it through a `..`, and
`b.any` includes it by its path. -/
def outsideTree : FileTree :=
  ⟨.dir [("w", .dir [
    ("repo", .dir [
      ("d.any", .file (some "$include \".*/a.any\"")),
      ("b.any", .file (some "x"))]),
    ("a.any", .file (some "$include \"b.any\"")),
    ("b.any", .file (some "$include \"../a.any\""))])], ["w"]⟩

/-- The settings under which it is resolved. -/
def outsideResolver : Resolver :=
  { dialect := .any, root := "repo" }

/-- **A file that is included while it is open need not be stopped.** The file `a.any`
of `outsideTree` is included while it is open, under another name; its own include
then starts at another directory, and the resolution ends. -/
theorem reentry_under_another_name :
    (∃ opened depth path q as e,
      Reaches outsideResolver outsideTree "d.any" ⟨opened, depth, .enter path q :: as, e⟩ ∧
      outsideTree.isFile path = true ∧
      ∃ p ∈ opened, Path.normalize p = Path.normalize path) ∧
    outsideResolver.resolveFile outsideTree "d.any" =
      .done ⟨#[⟨"x", ⟨some "b.any", some 1, some "a.any"⟩⟩], #[]⟩ := by
  refine ⟨?_, by decide +kernel⟩
  have h₀ : Reaches outsideResolver outsideTree "d.any"
      ⟨[Path.normalize (Path.join "repo" "d.any")], 49 + 1,
        outsideResolver.entryScript outsideTree "d.any" "$include \".*/a.any\"", {}⟩ :=
    .start (by decide +kernel) (by decide +kernel) (by decide +kernel)
  have hscript₀ : outsideResolver.entryScript outsideTree "d.any" "$include \".*/a.any\"" =
      [.enter "repo/../a.any" ⟨".*/a.any", false, "d.any", ⟨some "d.any", some 1, none⟩⟩] := by
    decide +kernel
  rw [hscript₀] at h₀
  have hread₁ : outsideTree.read? "repo/../a.any" = some "$include \"b.any\"" := by decide +kernel
  have h₁ : Reaches outsideResolver outsideTree "d.any" ⟨_, 48 + 1, _, _⟩ := h₀.enter hread₁
  have hscript₁ : outsideResolver.script outsideTree "$include \"b.any\""
      (outsideResolver.nameOf "repo/../a.any") (some "d.any") =
      [.enter "b.any" ⟨"b.any", false, "../a.any", ⟨some "../a.any", some 1, some "d.any"⟩⟩] := by
    decide +kernel
  rw [hscript₁] at h₁
  have hread₂ : outsideTree.read? "b.any" = some "$include \"../a.any\"" := by decide +kernel
  have h₂ := h₁.enter hread₂
  have hscript₂ : outsideResolver.script outsideTree "$include \"../a.any\""
      (outsideResolver.nameOf "b.any") (some "../a.any") =
      [.enter "a.any" ⟨"../a.any", false, "b.any", ⟨some "b.any", some 1, some "../a.any"⟩⟩] := by
    decide +kernel
  rw [hscript₂] at h₂
  exact ⟨_, _, _, _, _, _, h₂, by decide +kernel, "repo/../a.any",
    List.mem_cons_of_mem _ List.mem_cons_self, by decide +kernel⟩

end Resolver

end ProxyLint.Include
