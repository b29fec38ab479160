import Mathlib.Data.List.Forall2
import ProxyLint.Proofs.Evaluation.Sites
import ProxyLint.Proofs.Httpd.Preorder

set_option relaxedAutoImplicit false
set_option autoImplicit false

/-!
# Inherited directives

A section inherits a directive from the closest section around it that has one of the name. The
directive that counts there and the check for a directive look at that section alone: it hides
all sections further out, and sections beside the way out are never looked at.

## Main definitions

* `ProxyLint.HttpdConfig.WayOut` — the sections from a section out to the whole configuration.
* `ProxyLint.HttpdConfig.Reached` — the sections that a look-up on a way out gets to.
* `ProxyLint.HttpdConfig.IsClosest` — the section that a directive is inherited from.
* `ProxyLint.HttpdConfig.editDirectives` — the configuration with other directives.

## Main results

* `ProxyLint.HttpdConfig.nearest?_eq_some_iff`, `ProxyLint.HttpdConfig.nearest?_eq_none_iff` — the
  directives of a name that a section inherits.
* `ProxyLint.HttpdConfig.effective?_eq` — the directive that counts is the last of these.
* `ProxyLint.HttpdConfig.nearest?_editDirectives` — only sections that are reached have a say.
* `ProxyLint.HttpdConfig.directive_of_closest` — what counts in a section, and what a check finds.
-/

namespace ProxyLint

/-! ### Directives of a section -/

namespace Section

variable {s : Section} {name : String} {d : Directive}

/-- The directives of a name directly inside the section, in order. -/
def named (s : Section) (name : String) : List Directive :=
  s.directives.toList.filter fun d => d.isNamed name

/-- A directive is the last one of a name directly inside the section. -/
def HasLast (s : Section) (name : String) (d : Directive) : Prop :=
  ∃ before after, s.directives.toList = before ++ d :: after ∧ d.isNamed name = true ∧
    ∀ d' ∈ after, d'.isNamed name = false

/-- A directive is looked up as the last one of its name. -/
lemma directive?_eq (s : Section) (name : String) :
    s.directive? name = (s.named name).getLast? := by
  rw [directive?, ← List.head?_filter, List.filter_reverse, List.head?_reverse, named]

/-- The last directive of a name is the one with none of the name behind it. -/
lemma getLast?_named_eq_some_iff : (s.named name).getLast? = some d ↔ s.HasLast name d := by
  rw [← directive?_eq, directive?, List.find?_eq_some_iff_append]
  constructor
  · rintro ⟨hnamed, after, before, heq, hafter⟩
    refine ⟨before.reverse, after.reverse, ?_, hnamed, fun d' hd' => ?_⟩
    · simpa using congrArg List.reverse heq
    · simpa using hafter d' (List.mem_reverse.1 hd')
  · rintro ⟨before, after, heq, hnamed, hafter⟩
    refine ⟨hnamed, after.reverse, before.reverse, by simp [heq], fun d' hd' => ?_⟩
    simpa using hafter d' (List.mem_reverse.1 hd')

end Section

/-- Without arguments a pattern fits every directive; else the arguments have to agree one by one,
up to letter case. -/
lemma DirectivePattern.fits_iff {p : DirectivePattern} {d : Directive} : p.fits d = true ↔
    p.arguments = [] ∨
      List.Forall₂ (fun a e => Text.sameLetters a e = true) d.arguments p.arguments := by
  rw [fits, Bool.or_eq_true, List.isEmpty_iff, beq_iff_eq, ← List.forall₂_eq_eq_eq,
    List.forall₂_map_left_iff, List.forall₂_map_right_iff]
  simp only [Text.sameLetters, beq_iff_eq]

namespace HttpdConfig

variable {c : HttpdConfig} {chain : List Nat} {name : String} {i j : Nat}
variable {edit : Nat → Array Directive → Array Directive}

/-! ### The way out -/

/-- The sections from section `i` out to the whole configuration, from parent to parent. -/
structure WayOut (c : HttpdConfig) (i : Nat) (chain : List Nat) : Prop where
  head? : chain.head? = some i
  isChain : chain.IsChain fun j p => c.parent? j = some p
  getLast? : chain.getLast? = some 0

/-- The ancestors of a section are the way out of it. -/
lemma IsPreorder.wayOut_ancestors (h : c.IsPreorder) (hi : i < c.size) :
    c.WayOut i (c.ancestors i) := by
  obtain ⟨hchain, hhead, hlast⟩ := h.ancestors_walk hi
  exact ⟨hhead, hchain, hlast⟩

/-- There is no other way out than the walk from parent to parent. -/
lemma IsPreorder.eq_ancestors (h : c.IsPreorder) (hway : c.WayOut i chain) :
    chain = c.ancestors i := by
  induction chain generalizing i with
  | nil => cases hway.head?
  | cons a rest ih =>
    obtain rfl : a = i := Option.some.inj hway.head?
    rw [ancestors]
    cases rest with
    | nil =>
      obtain rfl : a = 0 := Option.some.inj hway.getLast?
      have hroot : c.parent? 0 = none :=
        (h.parent?_eq_none_iff.2 0 h.parent?_eq_none_iff.1).2 rfl
      rw [hroot]
    | cons p rest =>
      obtain ⟨hparent, hrest⟩ := List.isChain_cons_cons.1 hway.isChain
      have hout : c.WayOut p (p :: rest) := ⟨rfl, hrest, hway.getLast?⟩
      rw [hparent, ih hout]
      exact (if_pos (h.lt_of_parent? a p hparent)).symm

/-- A directive of the name stands directly in section `j`. -/
def Declares (c : HttpdConfig) (name : String) (j : Nat) : Prop :=
  ∃ s, c.get? j = some s ∧ ∃ d ∈ s.directives.toList, d.isNamed name = true

/-- Section `j` is on the way out, and no section before it has a directive of the name. -/
def Reached (c : HttpdConfig) (chain : List Nat) (name : String) (j : Nat) : Prop :=
  ∃ inner outer, chain = inner ++ j :: outer ∧ ∀ k ∈ inner, ¬ c.Declares name k

/-- Section `j` is the closest on the way out that has a directive of the name. -/
def IsClosest (c : HttpdConfig) (chain : List Nat) (name : String) (j : Nat) : Prop :=
  c.Reached chain name j ∧ c.Declares name j

/-! ### What a section inherits -/

/-- The directives of a name directly in section `j`, if there are any. -/
def declared? (c : HttpdConfig) (name : String) (j : Nat) : Option (List Directive) :=
  (c.get? j).bind fun s => if (s.named name).isEmpty then none else some (s.named name)

/-- The nearest section with a directive is the first of the ancestors that declares it. -/
lemma nearest?_eq_findSome? (c : HttpdConfig) (i : Nat) (name : String) :
    c.nearest? i name = (c.ancestors i).findSome? (c.declared? name) := rfl

/-- What a section declares are its directives of the name. -/
lemma declared?_eq_some_iff {ds : List Directive} : c.declared? name j = some ds ↔
    c.Declares name j ∧ ∃ s, c.get? j = some s ∧ s.named name = ds := by
  unfold declared? Declares
  cases hs : c.get? j with
  | none => simp
  | some s =>
    have hempty : (s.named name).isEmpty = false ↔
        ∃ d ∈ s.directives.toList, d.isNamed name = true := by
      simp [Section.named]
    cases hnamed : (s.named name).isEmpty <;> simp_all

/-- Nothing is declared where there is no directive of the name. -/
lemma declared?_eq_none_iff : c.declared? name j = none ↔ ¬ c.Declares name j := by
  rw [Option.eq_none_iff_forall_ne_some]
  constructor
  · rintro h ⟨s, hs, hd⟩
    exact h _ (declared?_eq_some_iff.2 ⟨⟨s, hs, hd⟩, s, hs, rfl⟩)
  · intro h ds hds
    exact h (declared?_eq_some_iff.1 hds).1

/-- **A section inherits the directives of the closest section** that has some of the name. -/
theorem nearest?_eq_some_iff {ds : List Directive} : c.nearest? i name = some ds ↔
    ∃ j s, c.IsClosest (c.ancestors i) name j ∧ c.get? j = some s ∧ s.named name = ds := by
  rw [nearest?_eq_findSome?, List.findSome?_eq_some_iff]
  simp only [declared?_eq_some_iff, declared?_eq_none_iff]
  constructor
  · rintro ⟨inner, j, outer, hchain, ⟨hdeclares, s, hs, hnamed⟩, hinner⟩
    exact ⟨j, s, ⟨⟨inner, outer, hchain, hinner⟩, hdeclares⟩, hs, hnamed⟩
  · rintro ⟨j, s, ⟨⟨inner, outer, hchain, hinner⟩, hdeclares⟩, hs, hnamed⟩
    exact ⟨inner, j, outer, hchain, ⟨hdeclares, s, hs, hnamed⟩, hinner⟩

/-- No directives are near if no ancestor declares any. -/
theorem nearest?_eq_none_iff :
    c.nearest? i name = none ↔ ∀ j ∈ c.ancestors i, ¬ c.Declares name j := by
  rw [nearest?_eq_findSome?, List.findSome?_eq_none_iff]
  simp only [declared?_eq_none_iff]

/-- Directives of a name have a last one. -/
lemma exists_getLast?_of_declared? {ds : List Directive} (h : c.declared? name j = some ds) :
    ∃ d, ds.getLast? = some d := by
  obtain ⟨⟨s, hs, d, hd, hnamed⟩, s', hs', rfl⟩ := declared?_eq_some_iff.1 h
  obtain rfl : s = s' := Option.some.inj (hs.symm.trans hs')
  have hmem : d ∈ s.named name := List.mem_filter.2 ⟨hd, hnamed⟩
  exact ⟨_, List.getLast?_eq_some_getLast (List.ne_nil_of_mem hmem)⟩

/-- **The directive that counts is the last one that is inherited.**

**Proof sketch.** Induction on the ancestors, which are searched alike for both: in the first that
declares the name, the last of its directives counts. -/
theorem effective?_eq (c : HttpdConfig) (i : Nat) (name : String) :
    c.effective? i name = (c.nearest? i name).bind List.getLast? := by
  have hown : ∀ j, ((c.get? j).bind fun s => s.directive? name) =
      (c.declared? name j).bind List.getLast? := by
    intro j
    unfold declared?
    cases c.get? j with
    | none => rfl
    | some s =>
      simp only [Option.bind_some, Section.directive?_eq]
      split
      · next hempty =>
        rw [List.isEmpty_iff.1 hempty]
        rfl
      · rfl
  unfold effective?
  rw [nearest?_eq_findSome?]
  induction c.ancestors i with
  | nil => rfl
  | cons j chain ih =>
    rw [List.findSome?_cons, List.findSome?_cons, hown]
    cases hdeclared : c.declared? name j with
    | none => exact ih
    | some ds =>
      obtain ⟨d, hd⟩ := exists_getLast?_of_declared? hdeclared
      simp only [Option.bind_some, hd]

/-- The directive that counts is the last of its name in the closest section. -/
lemma effective?_eq_some_iff {d : Directive} : c.effective? i name = some d ↔
    ∃ j s, c.IsClosest (c.ancestors i) name j ∧ c.get? j = some s ∧ s.HasLast name d := by
  rw [effective?_eq, Option.bind_eq_some_iff]
  simp only [nearest?_eq_some_iff]
  constructor
  · rintro ⟨ds, ⟨j, s, hclosest, hs, rfl⟩, hlast⟩
    exact ⟨j, s, hclosest, hs, Section.getLast?_named_eq_some_iff.1 hlast⟩
  · rintro ⟨j, s, hclosest, hs, hlast⟩
    exact ⟨_, ⟨j, s, hclosest, hs, rfl⟩, Section.getLast?_named_eq_some_iff.2 hlast⟩

/-- A directive counts exactly if there is a closest section to inherit it from. -/
lemma exists_effective?_iff :
    (∃ d, c.effective? i name = some d) ↔ ∃ j, c.IsClosest (c.ancestors i) name j := by
  constructor
  · rintro ⟨d, hd⟩
    obtain ⟨j, s, hclosest, -⟩ := effective?_eq_some_iff.1 hd
    exact ⟨j, hclosest⟩
  · rintro ⟨j, hclosest⟩
    obtain ⟨s, hs, -⟩ := hclosest.2
    obtain ⟨d, hd⟩ :=
      exists_getLast?_of_declared? (declared?_eq_some_iff.2 ⟨hclosest.2, s, hs, rfl⟩)
    exact ⟨d, effective?_eq_some_iff.2
      ⟨j, s, hclosest, hs, Section.getLast?_named_eq_some_iff.1 hd⟩⟩

/-- No directive is in effect if no ancestor declares one. -/
lemma effective?_eq_none_iff :
    c.effective? i name = none ↔ ∀ j ∈ c.ancestors i, ¬ c.Declares name j := by
  rw [← nearest?_eq_none_iff, effective?_eq, Option.bind_eq_none_iff]
  constructor
  · intro h
    rw [Option.eq_none_iff_forall_ne_some]
    intro ds hds
    rw [nearest?_eq_findSome?] at hds
    obtain ⟨j, -, hdeclared⟩ := List.exists_of_findSome?_eq_some hds
    obtain ⟨d, hd⟩ := exists_getLast?_of_declared? hdeclared
    rw [h ds hds] at hd
    cases hd
  · intro h ds hds
    rw [h] at hds
    cases hds

/-! ### Checks for directives -/

/-- A check for a directive looks at what the section inherits. -/
lemma holds_observeDirective_iff {p : DirectivePattern} :
    (observeDirective p c i).holds = true ↔
      ∃ j s, c.IsClosest (c.ancestors i) p.name j ∧ c.get? j = some s ∧
        ∃ d ∈ s.directives.toList, d.isNamed p.name = true ∧ p.fits d = true := by
  have hholds : (observeDirective p c i).holds = true ↔
      ∃ ds, c.nearest? i p.name = some ds ∧ ∃ d ∈ ds, p.fits d = true := by
    unfold observeDirective
    cases hnearest : c.nearest? i p.name with
    | none => simp
    | some ds =>
      cases hfind : ds.find? p.fits with
      | none =>
        have hnone := List.find?_eq_none.1 hfind
        simpa [hfind] using hnone
      | some d =>
        have hfits := List.find?_some hfind
        have hmem := List.mem_of_find?_eq_some hfind
        simpa [hfind] using ⟨d, hmem, hfits⟩
  rw [hholds]
  simp only [nearest?_eq_some_iff]
  constructor
  · rintro ⟨ds, ⟨j, s, hclosest, hs, rfl⟩, d, hd, hfits⟩
    obtain ⟨hd, hnamed⟩ := List.mem_filter.1 hd
    exact ⟨j, s, hclosest, hs, d, hd, hnamed, hfits⟩
  · rintro ⟨j, s, hclosest, hs, d, hd, hnamed, hfits⟩
    exact ⟨_, ⟨j, s, hclosest, hs, rfl⟩, d, List.mem_filter.2 ⟨hd, hnamed⟩, hfits⟩

/-! ### Other directives -/

/-- The configuration with other directives in its sections. -/
def editDirectives (c : HttpdConfig) (edit : Nat → Array Directive → Array Directive) :
    HttpdConfig :=
  ⟨c.sections.mapIdx fun j s => { s with directives := edit j s.directives }⟩

/-- An edit reaches each section by its number. -/
lemma get?_editDirectives (c : HttpdConfig) (edit : Nat → Array Directive → Array Directive)
    (j : Nat) : (c.editDirectives edit).get? j =
      (c.get? j).map fun s => { s with directives := edit j s.directives } := by
  rw [editDirectives, get?, Array.getElem?_mapIdx]
  rfl

/-- An edit of directives moves no section. -/
lemma ancestors_editDirectives (c : HttpdConfig) (edit : Nat → Array Directive → Array Directive)
    (i : Nat) : (c.editDirectives edit).ancestors i = c.ancestors i := by
  have hparent : ∀ j, (c.editDirectives edit).parent? j = c.parent? j := by
    intro j
    rw [parent?, parent?, get?_editDirectives]
    cases c.get? j <;> rfl
  induction i using Nat.strongRecOn with
  | ind i ih =>
    rw [ancestors, hparent, ancestors]
    cases c.parent? i with
    | none => rfl
    | some p =>
      dsimp only
      split
      · next hlt => rw [ih p hlt]
      · rfl

/-- A look-up does not get beyond the first place where something is found. -/
lemma findSome?_congr_of_reached {α β : Type} {l : List α} {f g : α → Option β}
    (h : ∀ inner a outer, l = inner ++ a :: outer → (∀ b ∈ inner, f b = none) → g a = f a) :
    l.findSome? g = l.findSome? f := by
  induction l with
  | nil => rfl
  | cons a l ih =>
    rw [List.findSome?_cons, List.findSome?_cons, h [] a l rfl (by simp)]
    cases ha : f a with
    | some b => rfl
    | none =>
      refine ih fun inner b outer hl hinner => h (a :: inner) b outer (by rw [hl]; rfl) ?_
      exact List.forall_mem_cons.2 ⟨ha, hinner⟩

/-- **Only sections that are reached have a say** in what a section inherits of a name, and only
by their directives of that name. -/
theorem nearest?_editDirectives
    (hedit : ∀ j s, c.Reached (c.ancestors i) name j → c.get? j = some s →
      ((edit j s.directives).toList.filter fun d => d.isNamed name) = s.named name) :
    (c.editDirectives edit).nearest? i name = c.nearest? i name := by
  rw [nearest?_eq_findSome?, nearest?_eq_findSome?, ancestors_editDirectives]
  refine findSome?_congr_of_reached fun inner j outer hchain hinner => ?_
  have hreached : c.Reached (c.ancestors i) name j :=
    ⟨inner, outer, hchain, fun k hk => declared?_eq_none_iff.1 (hinner k hk)⟩
  rw [declared?, declared?, get?_editDirectives]
  cases hs : c.get? j with
  | none => rfl
  | some s =>
    have hnamed : ({ s with directives := edit j s.directives } : Section).named name =
        s.named name := hedit j s hreached hs
    simp only [Option.map_some, Option.bind_some, hnamed]

/-- An edit that keeps the directives of the name in the sections that are reached is not observed.
-/
lemma observeDirective_editDirectives {p : DirectivePattern}
    (hedit : ∀ j s, c.Reached (c.ancestors i) p.name j → c.get? j = some s →
      ((edit j s.directives).toList.filter fun d => d.isNamed p.name) = s.named p.name) :
    observeDirective p (c.editDirectives edit) i = observeDirective p c i := by
  have hsource : ((c.editDirectives edit).get? i).map Section.source =
      (c.get? i).map Section.source := by
    rw [get?_editDirectives]
    cases c.get? i <;> rfl
  unfold observeDirective
  rw [nearest?_editDirectives hedit, hsource]

/-! ### Directives of lines -/

/-- **A section inherits from the closest section.** In a configuration of lines there is one way
out of every section. The directive that counts in the section is the last one of its name in the
closest section on the way out that has one, and there is none if no section has. A check for a
directive without arguments finds that one counts; with arguments it finds that the closest
section has one with as many arguments, equal to them one by one up to letter case. Whatever is
done to directives in sections that are not on the way out, or are further out than the closest
one, and to directives of other names anywhere, does not change the result of the check.

**Proof sketch.** The look-up goes along the way out and ends at the first section with
directives of the name (`nearest?_eq_some_iff`). The directive that counts is the last one of
these (`effective?_eq`), and the check tries them all (`holds_observeDirective_iff`). So both
depend on nothing but the sections that the look-up reaches (`nearest?_editDirectives`). -/
theorem directive_of_closest (lines : List Line) :
    let c := (ofLines lines).value
    ∀ i < c.size, (∃ chain, c.WayOut i chain) ∧ ∀ chain, c.WayOut i chain →
      (∀ name d, c.effective? i name = some d ↔
        ∃ j s, c.IsClosest chain name j ∧ c.get? j = some s ∧ s.HasLast name d) ∧
      (∀ name, c.effective? i name = none ↔ ∀ j ∈ chain, ¬ c.Declares name j) ∧
      ∀ p : DirectivePattern,
        (∃ o, (Condition.hasDirective p).observe (.section c i) = .ok o ∧
          (p.arguments = [] → (o.holds = true ↔ ∃ d, c.effective? i p.name = some d)) ∧
          (p.arguments ≠ [] → (o.holds = true ↔
            ∃ j s, c.IsClosest chain p.name j ∧ c.get? j = some s ∧
              ∃ d ∈ s.directives.toList, d.isNamed p.name = true ∧
                List.Forall₂ (fun a e => Text.sameLetters a e = true) d.arguments p.arguments))) ∧
        ∀ (check : Check) (edit : Nat → Array Directive → Array Directive),
          check.condition = .hasDirective p →
          (∀ j s, c.Reached chain p.name j → c.get? j = some s →
            ((edit j s.directives).toList.filter fun d => d.isNamed p.name) = s.named p.name) →
          check.perform (.section (c.editDirectives edit) i) = check.perform (.section c i) := by
  intro c i hi
  obtain ⟨body, hbody⟩ : ∃ body, c = ofBody (rootSource lines) body := exists_body_of_lines lines
  have hpreorder : c.IsPreorder := hbody ▸ isPreorder_ofBody _ body
  refine ⟨⟨_, hpreorder.wayOut_ancestors hi⟩, fun chain hway => ?_⟩
  obtain rfl := hpreorder.eq_ancestors hway
  refine ⟨fun name d => effective?_eq_some_iff, fun name => effective?_eq_none_iff,
    fun p => ⟨⟨observeDirective p c i, rfl, fun hnone => ?_, fun hsome => ?_⟩,
      fun check edit hcondition hedit => ?_⟩⟩
  · rw [holds_observeDirective_iff, exists_effective?_iff]
    simp only [DirectivePattern.fits_iff, hnone, true_or, and_true]
    constructor
    · rintro ⟨j, s, hclosest, -⟩
      exact ⟨j, hclosest⟩
    · rintro ⟨j, hclosest⟩
      obtain ⟨s, hs, hd⟩ := hclosest.2
      exact ⟨j, s, hclosest, hs, hd⟩
  · rw [holds_observeDirective_iff]
    simp only [DirectivePattern.fits_iff, hsome, false_or]
  · have hobserve := observeDirective_editDirectives hedit
    rw [Check.perform_eq, Check.perform_eq, hcondition, Condition.observe, Condition.observe,
      hobserve]

/-- Requirements for the whole server, for a folder, where there are two, and for a location
beside it. -/
def gatedLines : List Line :=
  [⟨"Require all granted", .ofLine "httpd.conf" 1 none⟩,
    ⟨"<Directory />", .ofLine "httpd.conf" 2 none⟩,
    ⟨"Require all denied", .ofLine "httpd.conf" 3 none⟩,
    ⟨"require ip 10.0.0.1", .ofLine "httpd.conf" 4 none⟩,
    ⟨"<Files secret>", .ofLine "httpd.conf" 5 none⟩,
    ⟨"</Files>", .ofLine "httpd.conf" 6 none⟩,
    ⟨"</Directory>", .ofLine "httpd.conf" 7 none⟩,
    ⟨"<Location /open>", .ofLine "httpd.conf" 8 none⟩,
    ⟨"Require all granted", .ofLine "httpd.conf" 9 none⟩]

/-- For the files in the folder the second requirement of the folder counts, but a check finds the
first one as well; and it does so without those of the server and of the location. -/
theorem directive_of_gatedLines :
    2 < (ofLines gatedLines).value.size ∧
    (ofLines gatedLines).value.effective? 2 "Require" =
      some ⟨"require", ["ip", "10.0.0.1"], .ofLine "httpd.conf" 4 none⟩ ∧
    (∃ j s, (ofLines gatedLines).value.IsClosest [2, 1, 0] "Require" j ∧
      (ofLines gatedLines).value.get? j = some s ∧
      s.HasLast "Require" ⟨"require", ["ip", "10.0.0.1"], .ofLine "httpd.conf" 4 none⟩) ∧
    Check.perform { condition := .hasDirective ⟨"Require", ["ALL", "denied"]⟩ }
      (.section ((ofLines gatedLines).value.editDirectives fun j ds =>
        if j = 0 ∨ j = 3 then #[] else ds) 2) = .ok { passed := true } := by
  -- decided together, so that the lines are read once
  obtain ⟨hsize, hfiles, hfolder, hcounts, hdeclared, hpasses⟩ :
      2 < (ofLines gatedLines).value.size ∧
      (ofLines gatedLines).value.parent? 2 = some 1 ∧
      (ofLines gatedLines).value.parent? 1 = some 0 ∧
      (ofLines gatedLines).value.effective? 2 "Require" =
        some ⟨"require", ["ip", "10.0.0.1"], .ofLine "httpd.conf" 4 none⟩ ∧
      (ofLines gatedLines).value.declared? "Require" 1 ≠ none ∧
      Check.perform { condition := .hasDirective ⟨"Require", ["ALL", "denied"]⟩ }
        (.section (ofLines gatedLines).value 2) = .ok { passed := true } := by decide +kernel
  have hway : (ofLines gatedLines).value.WayOut 2 [2, 1, 0] :=
    ⟨rfl, .cons_cons hfiles (.cons_cons hfolder (.singleton _)), rfl⟩
  rw [Ne, declared?_eq_none_iff, not_not] at hdeclared
  obtain ⟨hlast, -, hcheck⟩ := (directive_of_closest gatedLines 2 hsize).2 _ hway
  refine ⟨hsize, hcounts, (hlast _ _).1 hcounts, ?_⟩
  rw [(hcheck ⟨"Require", ["ALL", "denied"]⟩).2 _ _ rfl ?_]
  · exact hpasses
  · rintro j s ⟨inner, outer, hchain, hinner⟩ -
    have hj : ¬ (j = 0 ∨ j = 3) := by
      -- the folder has a requirement, so the whole server behind it is not reached
      rcases inner with _ | ⟨a, _ | ⟨b, inner⟩⟩
      · obtain ⟨rfl, -⟩ := List.cons.inj hchain
        decide
      · obtain ⟨-, rfl, -⟩ : 2 = a ∧ 1 = j ∧ [0] = outer := by simpa using hchain
        decide
      · obtain ⟨-, rfl, -⟩ : 2 = a ∧ 1 = b ∧ [0] = inner ++ j :: outer := by simpa using hchain
        exact absurd hdeclared (hinner 1 (by simp))
    rw [if_neg hj]
    rfl

end HttpdConfig

end ProxyLint
