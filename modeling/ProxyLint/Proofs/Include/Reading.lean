import ProxyLint.Farm.Decode
import ProxyLint.Proofs.Include.Script

set_option relaxedAutoImplicit false
set_option autoImplicit false

/-!
# What readers see of an expansion

A reader of nested labels sees the symbols of a line and its place, but not how the line is
spelled. Scripts that look the same in this way, carried out from expansions that look the
same, lead to outcomes that look the same, and these are read as the same configuration.

## Main definitions

* `ProxyLint.Line.reading`, `ProxyLint.Include.Action.reading`,
  `ProxyLint.Include.Expansion.reading`, `ProxyLint.Include.Outcome.reading` — lines, actions,
  expansions and outcomes as readers see them.

## Main results

* `ProxyLint.Include.Resolver.reading_run` — what readers see of a run depends on what they
  see of its script.
* `ProxyLint.Include.ofOutcome_eq_of_reading` — outcomes that look the same are read as the
  same configuration.
-/

namespace ProxyLint

/-- What readers of nested labels see of a line: its symbols and its place. -/
def Line.reading (l : Line) : Any.Scan × Source :=
  (Any.scan l.content.toList, l.source)

/-- Lines that are read alike have the same tokens. -/
lemma Any.lineTokens_congr {l l' : Line} (h : l.reading = l'.reading) :
    Any.lineTokens l = Any.lineTokens l' := by
  obtain ⟨hscan, hsource⟩ := Prod.mk.inj h
  simp only [Any.lineTokens, hscan, hsource]

/-- Lists of lines that are read alike have the same tokens. -/
lemma Any.tokens_congr {ls ls' : List Line} (h : ls.map Line.reading = ls'.map Line.reading) :
    Any.tokens ls = Any.tokens ls' := by
  induction ls generalizing ls' with
  | nil =>
    obtain rfl : ls' = [] := List.map_eq_nil_iff.1 h.symm
    rfl
  | cons l ls ih =>
    obtain ⟨l', rest, rfl, hl, hrest⟩ := List.map_eq_cons_iff.1 h.symm
    rw [Any.tokens, Any.tokens, Any.lineTokens_congr hl.symm, ih hrest.symm]

namespace Include

/-- An action as readers of nested labels see it. -/
def Action.reading : Action → Action ⊕ (Any.Scan × Source)
  | .emit content source => .inr (Any.scan content, source)
  | a => .inl a

/-- An action that emits no line is read as itself. -/
lemma Action.eq_of_reading {a b : Action} (h : a.reading = .inl b) : a = b := by
  cases a with
  | emit content source => cases h
  | report f => exact Sum.inl.inj h
  | enter path q => exact Sum.inl.inj h
  | stop why => exact Sum.inl.inj h

/-- An expansion as readers of nested labels see it. -/
def Expansion.reading (e : Expansion) : List (Any.Scan × Source) × List Finding :=
  (e.lines.toList.map Line.reading, e.findings.toList)

/-- An outcome as readers of nested labels see it. -/
def Outcome.reading : Outcome → Option Failure × List (Any.Scan × Source) × List Finding
  | .done e => (none, e.reading)
  | .failed why e => (some why, e.reading)

/-! ### Runs -/

/-- Expansions that are read alike have as many lines. -/
lemma Expansion.size_eq_of_reading {e e' : Expansion} (h : e.reading = e'.reading) :
    e.lines.size = e'.lines.size := by
  have hlength := congrArg List.length (congrArg Prod.fst h)
  simpa [Expansion.reading] using hlength

/-- Going on from outcomes that look the same. -/
lemma Outcome.reading_andThen {o o' : Outcome} (h : o.reading = o'.reading) {f g : Step}
    (hfg : ∀ e e', e.reading = e'.reading → (f e).reading = (g e').reading) :
    (o.andThen f).reading = (o'.andThen g).reading := by
  cases o with
  | done e =>
    cases o' with
    | done e' => exact hfg e e' (Prod.mk.inj h).2
    | failed why e' => cases (Prod.mk.inj h).1
  | failed why e =>
    cases o' with
    | done e' => cases (Prod.mk.inj h).1
    | failed why' e' => exact h

namespace Resolver

variable {r : Resolver} {t : FileTree}

/-- Lines with the same symbols and the same place, added to expansions that look the same. -/
lemma reading_emit {content content' : List Char} {source : Source}
    (hscan : Any.scan content = Any.scan content') {e e' : Expansion}
    (h : e.reading = e'.reading) :
    (r.emit content source e).reading = (r.emit content' source e').reading := by
  have hpush : Expansion.reading { e with lines := e.lines.push ⟨String.ofList content, source⟩ } =
      Expansion.reading { e' with lines := e'.lines.push ⟨String.ofList content', source⟩ } := by
    obtain ⟨hlines, hfindings⟩ := Prod.mk.inj h
    simp only [Expansion.reading, Array.toList_push, List.map_append, List.map_singleton,
      Line.reading, String.toList_ofList, hscan, hfindings]
    rw [hlines]
  have hsize := Expansion.size_eq_of_reading h
  unfold emit
  simp only [Array.size_push, hsize]
  split
  · exact congrArg (Prod.mk _) hpush
  · exact congrArg (Prod.mk _) hpush

/-- Actions that look the same, if files are expanded alike. -/
lemma reading_perform {expandFile : String → Request → Step}
    (hfile : ∀ path q e e', e.reading = e'.reading →
      (expandFile path q e).reading = (expandFile path q e').reading)
    {a b : Action} (hab : a.reading = b.reading) {e e' : Expansion} (h : e.reading = e'.reading) :
    (r.perform expandFile a e).reading = (r.perform expandFile b e').reading := by
  cases b with
  | emit content' source' =>
    cases a with
    | emit content source =>
      obtain ⟨hscan, rfl⟩ := Prod.mk.inj (Sum.inr.inj hab)
      exact reading_emit hscan h
    | report f => cases hab
    | enter path q => cases hab
    | stop why => cases hab
  | report f =>
    obtain rfl := Action.eq_of_reading hab
    obtain ⟨hlines, hfindings⟩ := Prod.mk.inj h
    simp only [perform, Outcome.reading, Expansion.reading, Array.toList_push, hlines, hfindings]
  | enter path q =>
    obtain rfl := Action.eq_of_reading hab
    exact hfile path q e e' h
  | stop why =>
    obtain rfl := Action.eq_of_reading hab
    exact congrArg (Prod.mk _) h

/-- Scripts that are read alike are performed alike, if included files are. -/
lemma reading_forEach {expandFile : String → Request → Step}
    (hfile : ∀ path q e e', e.reading = e'.reading →
      (expandFile path q e).reading = (expandFile path q e').reading)
    {as bs : List Action} (hab : as.map Action.reading = bs.map Action.reading)
    {e e' : Expansion} (h : e.reading = e'.reading) :
    (forEach (r.perform expandFile) as e).reading =
      (forEach (r.perform expandFile) bs e').reading := by
  induction as generalizing bs e e' with
  | nil =>
    obtain rfl : bs = [] := List.map_eq_nil_iff.1 hab.symm
    exact congrArg (Prod.mk none) h
  | cons a as ih =>
    obtain ⟨b, bs, rfl, hb, hbs⟩ := List.map_eq_cons_iff.1 hab.symm
    rw [forEach_cons, forEach_cons]
    refine Outcome.reading_andThen (reading_perform hfile hb.symm h) fun e₁ e₁' h₁ => ?_
    exact ih hbs.symm h₁

/-- An included file, expanded after expansions that look the same. -/
lemma reading_expandFile (depth : Nat) (path : String) (q : Request) {e e' : Expansion}
    (h : e.reading = e'.reading) :
    (r.expandFile t depth path q e).reading = (r.expandFile t depth path q e').reading := by
  induction depth generalizing path q e e' with
  | zero => exact congrArg (Prod.mk _) h
  | succ depth ih =>
    cases htext : t.read? path with
    | none =>
      rw [expandFile, htext]
      exact congrArg (Prod.mk _) h
    | some text =>
      rw [r.expandFile_succ t htext]
      exact reading_forEach (fun path q e₁ e₁' h₁ => ih path q h₁) rfl h

/-- **What readers see of a run depends on what they see of its script.** -/
theorem reading_run (depth : Nat) {as bs : List Action}
    (hab : as.map Action.reading = bs.map Action.reading) {e e' : Expansion}
    (h : e.reading = e'.reading) :
    (r.run t depth as e).reading = (r.run t depth bs e').reading :=
  reading_forEach (fun path q _ _ h₁ => reading_expandFile depth path q h₁) hab h

end Resolver

/-- **Outcomes that look the same are read as the same configuration**, with the same
findings. -/
theorem ofOutcome_eq_of_reading {o o' : Outcome} (h : o.reading = o'.reading) :
    FarmConfig.ofOutcome o = FarmConfig.ofOutcome o' ∧ o.findings = o'.findings := by
  cases o with
  | done e =>
    cases o' with
    | failed why e' => cases (Prod.mk.inj h).1
    | done e' =>
      obtain ⟨hlines, hfindings⟩ := Prod.mk.inj (Prod.mk.inj h).2
      have htokens := Any.tokens_congr hlines
      have hconfig : FarmConfig.ofLines e.lines.toList = FarmConfig.ofLines e'.lines.toList := by
        rw [FarmConfig.ofLines, htokens, FarmConfig.ofLines]
      refine ⟨?_, hfindings⟩
      simp only [FarmConfig.ofOutcome, Outcome.lines, Outcome.findings, Except.map, hconfig,
        hfindings]
  | failed why e =>
    cases o' with
    | done e' => cases (Prod.mk.inj h).1
    | failed why' e' =>
      obtain ⟨hwhy, he⟩ := Prod.mk.inj h
      refine ⟨?_, (Prod.mk.inj he).2⟩
      cases Option.some.inj hwhy
      rfl

end Include

end ProxyLint
