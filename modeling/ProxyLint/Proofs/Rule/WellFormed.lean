import ProxyLint.Proofs.Evaluation.Sites
import ProxyLint.Proofs.Farm.FilterPatterns
import ProxyLint.Proofs.Rule.Run
import ProxyLint.Proofs.Text

set_option relaxedAutoImplicit false
set_option autoImplicit false

/-!
# Loaded rules are well formed

A rule file is loaded as a whole or not at all, and what is loaded can be relied on. A rule has an
id, an element and farm types, its patterns ask for something, and either all of its checks look at
all farms at once or none does. The last point is what evaluation builds on: it tells from the
first check alone how to find the targets of a rule, and for a rule about all farms every other
check then fits as well.

## Main definitions

* `ProxyLint.Rule.IsWellFormed` — what is known of a rule that has been loaded.
* `ProxyLint.RuleFile.Draft.HasKnownMode` — the merge mode is one of the two, or left out.

## Main results

* `ProxyLint.RuleFile.validate_eq_error_iff` — the first part that is not valid decides the error.
* `ProxyLint.RuleFile.isWellFormed_of_rule` — a rule that is accepted is well formed.
* `ProxyLint.Gathering.isWellFormed_foldl_perform` — no step of a run brings in any other rule.
* `ProxyLint.Rule.exists_evaluate_of_isMultiTarget` — a well-formed rule about all farms fits every
  configuration.
* `ProxyLint.RuleFile.validate_all_or_nothing` — loading a rule file.
-/

namespace ProxyLint

/-! ### Well-formed rules -/

/-- A text without blanks that is not empty. -/
def Text.IsWord (w : String) : Prop :=
  w ≠ "" ∧ ∀ c ∈ w.toList, isBlank c = false

/-- A condition that asks for something: a pattern has a field, a directive is made of words. -/
def Condition.AsksForSomething : Condition → Prop
  | .filterListIncludes p | .filterListStartsWith p => ∃ k w, p.get k = some w
  | .ruleListIncludes p | .ruleListStartsWith p => p.type ≠ none ∨ p.glob ≠ none
  | .hasDirective p => Text.IsWord p.name ∧ ∀ w ∈ p.arguments, Text.IsWord w
  | _ => True

/-- What is known of a rule that has been loaded. -/
structure Rule.IsWellFormed (r : Rule) : Prop where
  id : Text.isBlankText r.id = false
  element : Text.isBlankText r.element = false
  farmTypes : r.farmTypes ≠ []
  targets : (∀ c ∈ r.checks, c.condition = .isUniqueLabel) ∨
    ∀ c ∈ r.checks, c.condition ≠ .isUniqueLabel
  conditions : ∀ c ∈ r.checks, c.condition.AsksForSomething

/-- All rules of a list are well formed. -/
def RuleList.IsWellFormed (l : RuleList) : Prop :=
  ∀ r ∈ l.rules, r.IsWellFormed

instance (c : Condition) : Decidable c.AsksForSomething :=
  match c with
  | .filterListIncludes p | .filterListStartsWith p =>
    decidable_of_iff (p.isEmpty = false) FilterFields.isEmpty_eq_false_iff
  | .ruleListIncludes p | .ruleListStartsWith p =>
    inferInstanceAs (Decidable (p.type ≠ none ∨ p.glob ≠ none))
  | .hasDirective p =>
    inferInstanceAs (Decidable ((p.name ≠ "" ∧ ∀ c ∈ p.name.toList, Text.isBlank c = false) ∧
      ∀ w ∈ p.arguments, w ≠ "" ∧ ∀ c ∈ w.toList, Text.isBlank c = false))
  | .booleanEquals _ | .integerEquals _ | .integerGreaterOrEqual _ | .integerLessOrEqual _
  | .stringEquals _ | .stringListIncludes _ | .isPresent | .isUniqueLabel =>
    inferInstanceAs (Decidable True)

instance (r : Rule) : Decidable r.IsWellFormed :=
  decidable_of_iff
    (Text.isBlankText r.id = false ∧ Text.isBlankText r.element = false ∧ r.farmTypes ≠ [] ∧
      ((∀ c ∈ r.checks, c.condition = .isUniqueLabel) ∨
        ∀ c ∈ r.checks, c.condition ≠ .isUniqueLabel) ∧
      ∀ c ∈ r.checks, c.condition.AsksForSomething)
    ⟨fun ⟨hid, helement, hfarms, htargets, hconditions⟩ =>
      ⟨hid, helement, hfarms, htargets, hconditions⟩,
    fun h => ⟨h.id, h.element, h.farmTypes, h.targets, h.conditions⟩⟩

instance (l : RuleList) : Decidable l.IsWellFormed :=
  inferInstanceAs (Decidable (∀ r ∈ l.rules, r.IsWellFormed))

/-- There is one condition about several targets. -/
lemma Condition.isMultiTarget_iff {c : Condition} :
    c.isMultiTarget = true ↔ c = .isUniqueLabel := by
  cases c <;> simp [isMultiTarget]

/-- A word of a text is a word. -/
lemma Text.isWord_of_mem_words {s w : String} (h : w ∈ words s) : IsWord w := by
  unfold words wordList at h
  obtain ⟨cs, hcs, rfl⟩ := List.mem_map.1 h
  obtain ⟨hpiece, hne⟩ := List.mem_filter.1 hcs
  constructor
  · intro hempty
    rw [String.ofList_eq_empty_iff] at hempty
    simp [hempty] at hne
  · intro c hc
    rw [String.toList_ofList] at hc
    exact eq_false_of_mem_splitOnP hpiece hc

namespace RuleFile

/-! ### What a rule file accepts -/

/-- A pattern of a filter that is read asks for something. -/
lemma asksForSomething_of_filterPattern {v : JsonValue} {p : FilterPattern}
    (h : filterPattern v = .ok p) : ∃ k w, p.get k = some w := by
  unfold filterPattern at h
  dsimp only at h
  split at h
  · cases h
  · split at h
    · cases h
    · next hset =>
      cases h
      exact FilterFields.isEmpty_eq_false_iff.1 (Bool.eq_false_iff.2 hset)

/-- A pattern of a rule that is read asks for something. -/
lemma asksForSomething_of_rulePattern {v : JsonValue} {p : RulePattern}
    (h : rulePattern v = .ok p) : p.type ≠ none ∨ p.glob ≠ none := by
  unfold rulePattern at h
  dsimp only at h
  split at h
  · cases h
  · split at h
    · cases h
    · next hset =>
      cases h
      by_contra hnone
      push Not at hnone
      apply hset
      obtain ⟨type, glob⟩ := p
      obtain ⟨rfl, rfl⟩ := hnone
      rfl

/-- A pattern of a directive that is read has words that can stand in a line. -/
lemma isWord_of_directivePattern {v : JsonValue} {p : DirectivePattern}
    (h : directivePattern v = .ok p) :
    Text.IsWord p.name ∧ ∀ w ∈ p.arguments, Text.IsWord w := by
  unfold directivePattern at h
  split at h
  · next s =>
    split at h
    · next name arguments hwords =>
      cases h
      have hall : ∀ w ∈ name :: arguments, Text.IsWord w := by
        intro w hw
        rw [← hwords] at hw
        exact Text.isWord_of_mem_words hw
      exact List.forall_mem_cons.1 hall
    · cases h
  · cases h

/-- A condition that a rule file describes asks for something. -/
lemma asksForSomething_of_condition? {name : String} {v : JsonValue} {c : Condition}
    (h : condition? name v = some (.ok c)) : c.AsksForSomething := by
  unfold condition? at h
  split at h
  case h_7 | h_8 =>
    cases h
    trivial
  case h_9 | h_10 =>
    obtain ⟨p, hp, rfl⟩ := exists_of_map_eq_ok (Option.some.inj h)
    exact asksForSomething_of_filterPattern hp
  case h_11 | h_12 =>
    obtain ⟨p, hp, rfl⟩ := exists_of_map_eq_ok (Option.some.inj h)
    exact asksForSomething_of_rulePattern hp
  case h_13 =>
    obtain ⟨p, hp, rfl⟩ := exists_of_map_eq_ok (Option.some.inj h)
    exact isWord_of_directivePattern hp
  case h_14 => cases h
  all_goals
    obtain ⟨a, -, rfl⟩ := exists_of_map_eq_ok (Option.some.inj h)
    trivial

/-- A rule always applies to some type of farms. -/
lemma ne_nil_of_farmTypes {id : String} {names : List String} {ts : List FarmType}
    (h : farmTypes id names = .ok ts) : ts ≠ [] := by
  unfold farmTypes at h
  split at h
  · cases h
    decide
  · next hnames =>
    obtain ⟨given, hgiven, h⟩ := exists_ok_of_bind h
    cases h
    obtain ⟨t, rest, rfl⟩ : ∃ t rest, given = t :: rest := by
      apply List.exists_cons_of_ne_nil
      rintro rfl
      have hlength := (mapM_eq_ok_iff.1 hgiven).length_eq
      apply hnames
      rw [List.isEmpty_iff, ← List.length_eq_zero_iff, hlength, List.length_nil]
    intro hnone
    rw [List.filter_eq_nil_iff] at hnone
    have hall : t ∈ FarmType.all := by cases t <;> decide
    exact hnone t hall (by simp)

/-- **A rule that is accepted is well formed**, and its origin is that of the file.

**Proof sketch.** A rule that is accepted comes from a valid description. Each of its checks comes
from a described one, so that its condition is known (`condition?_of_check`). -/
theorem isWellFormed_of_rule {origin : String} {i : Nat} {d : DraftRule} {r : Rule}
    (h : rule origin i d = .ok r) : r.IsWellFormed ∧ r.origin = origin := by
  have hvalid : d.IsValid := exists_rule_eq_ok_iff.1 ⟨r, h⟩
  rw [rule_eq origin i hvalid.id hvalid.element] at h
  obtain ⟨severity, -, h⟩ := exists_ok_of_bind h
  obtain ⟨type, -, h⟩ := exists_ok_of_bind h
  obtain ⟨farmTypes, hfarmTypes, h⟩ := exists_ok_of_bind h
  obtain ⟨checks, hchecks, h⟩ := exists_ok_of_bind h
  rw [(isMixed_eq_false_iff hchecks).2 hvalid.targets, if_neg Bool.false_ne_true] at h
  cases h
  -- each check comes from a described one, by which its condition is known
  have hdescribed : ∀ c ∈ checks, ∃ dc ∈ d.checks,
      condition? (Text.upper dc.condition) dc.value = some (.ok c.condition) := by
    intro c hc
    obtain ⟨dc, hdc, hcheck⟩ := exists_of_forall₂_of_mem (mapM_eq_ok_iff.1 hchecks).flip hc
    exact ⟨dc, hdc, condition?_of_check hcheck⟩
  refine ⟨{ id := hvalid.id, element := hvalid.element, farmTypes := ne_nil_of_farmTypes hfarmTypes
            targets := ?_, conditions := ?_ }, rfl⟩
  · refine hvalid.targets.imp ?_ ?_
    · intro hmulti c hc
      obtain ⟨dc, hdc, hcondition⟩ := hdescribed c hc
      rw [← Condition.isMultiTarget_iff, isMultiTarget_of_condition? hcondition]
      exact hmulti dc hdc
    · intro hsingle c hc hunique
      obtain ⟨dc, hdc, hcondition⟩ := hdescribed c hc
      rw [← Condition.isMultiTarget_iff, isMultiTarget_of_condition? hcondition] at hunique
      exact Bool.false_ne_true ((hsingle dc hdc).symm.trans hunique)
  · intro c hc
    obtain ⟨dc, -, hcondition⟩ := hdescribed c hc
    exact asksForSomething_of_condition? hcondition

/-! ### All or nothing -/

/-- The merge mode is one of the two, in any letter case, or left out. -/
def Draft.HasKnownMode (d : Draft) : Prop :=
  ∀ name, d.mergeMode = some name → Text.upper name = "EXTEND" ∨ Text.upper name = "REPLACE"

/-- Only the two modes of merging are known, in any letter case. -/
lemma mergeMode_ofText?_eq_none_iff {name : String} : MergeMode.ofText? name = none ↔
    ¬ (Text.upper name = "EXTEND" ∨ Text.upper name = "REPLACE") := by
  have hextend : Text.upper (MergeMode.text .extend) = "EXTEND" := by decide
  have hreplace : Text.upper (MergeMode.text .replace) = "REPLACE" := by decide
  simp [MergeMode.ofText?, ofSpelling?, hextend, hreplace]

/-- The mode of merging is read exactly if a draft has a known one. -/
lemma exists_mergeMode_eq_ok_iff_hasKnownMode {d : Draft} :
    (∃ m, mergeMode d.mergeMode = .ok m) ↔ d.HasKnownMode := by
  rw [exists_mergeMode_eq_ok_iff]
  unfold Draft.HasKnownMode
  refine forall_congr' fun name => forall_congr' fun _ => ?_
  rw [ne_eq, mergeMode_ofText?_eq_none_iff, not_not]

/-- A mode that is not known is an error, which shows it in capital letters. -/
lemma mergeMode_eq_error_iff {d : Draft} {e : Error} : mergeMode d.mergeMode = .error e ↔
    ∃ name, d.mergeMode = some name ∧ ¬ (Text.upper name = "EXTEND" ∨ Text.upper name = "REPLACE") ∧
      e = .unknownMergeMode (Text.upper name) := by
  cases d.mergeMode with
  | none => simp [mergeMode]
  | some name =>
    simp only [Option.some.injEq, exists_eq_left', ← mergeMode_ofText?_eq_none_iff]
    rw [mergeMode]
    cases MergeMode.ofText? name <;> simp [orFail, eq_comm]

/-- The first rule that is not valid decides the error of the rules. -/
lemma rules_eq_error_iff {origin : String} {rules : List DraftRule} {e : Error} :
    (rules.zipIdx).mapM (fun (r, i) => rule origin i r) = .error e ↔
      ∃ before r after, rules = before ++ r :: after ∧ (∀ b ∈ before, b.IsValid) ∧
        rule origin before.length r = .error e := by
  rw [mapM_eq_error_iff]
  constructor
  · rintro ⟨before, ⟨r, i⟩, after, hsplit, hbefore, he⟩
    have hrules : rules = before.map Prod.fst ++ r :: after.map Prod.fst := by
      rw [← List.zipIdx_map_fst 0 rules, hsplit, List.map_append, List.map_cons]
    have hi : i = before.length := by
      have hget : rules.zipIdx[before.length]? = some (r, i) := by rw [hsplit]; simp
      rw [List.getElem?_zipIdx] at hget
      obtain ⟨_, -, hpair⟩ := Option.map_eq_some_iff.1 hget
      simpa using (congrArg Prod.snd hpair).symm
    refine ⟨before.map Prod.fst, r, after.map Prod.fst, hrules, ?_, ?_⟩
    · intro b hb
      obtain ⟨⟨b, j⟩, hmem, rfl⟩ := List.mem_map.1 hb
      exact exists_rule_eq_ok_iff.1 (hbefore (b, j) hmem)
    · rw [List.length_map, ← hi]
      exact he
  · rintro ⟨before, r, after, rfl, hbefore, he⟩
    refine ⟨before.zipIdx, (r, before.length), after.zipIdx (before.length + 1), ?_, ?_, he⟩
    · rw [List.zipIdx_append, List.zipIdx_cons, Nat.zero_add]
    · rintro ⟨b, j⟩ hb
      exact exists_rule_eq_ok_iff.2
        (hbefore b (List.mem_of_getElem? (List.mk_mem_zipIdx_iff_getElem?.1 hb)))

/-- **The first part that is not valid decides the error**: the merge mode, and then the rules in
the order of the file. -/
theorem validate_eq_error_iff {origin : String} {d : Draft} {e : Error} :
    validate origin d = .error e ↔
      (∃ name, d.mergeMode = some name ∧
        ¬ (Text.upper name = "EXTEND" ∨ Text.upper name = "REPLACE") ∧
        e = .unknownMergeMode (Text.upper name)) ∨
      d.HasKnownMode ∧ ∃ before r after, d.rules = before ++ r :: after ∧
        (∀ b ∈ before, b.IsValid) ∧ rule origin before.length r = .error e := by
  rw [← mergeMode_eq_error_iff, ← exists_mergeMode_eq_ok_iff_hasKnownMode, ← rules_eq_error_iff]
  unfold validate
  cases mergeMode d.mergeMode with
  | error e' => simp [bind, Except.bind]
  | ok mode =>
    cases (d.rules.zipIdx).mapM fun (r, i) => rule origin i r <;>
      simp [bind, Except.bind, pure, Except.pure]

/-- A draft is read exactly if its mode is known and all its rules are valid. -/
lemma exists_validate_eq_ok_iff {origin : String} {d : Draft} :
    (∃ l, validate origin d = .ok l) ↔ d.HasKnownMode ∧ ∀ r ∈ d.rules, r.IsValid := by
  rw [← exists_mergeMode_eq_ok_iff_hasKnownMode, ← @exists_rules_eq_ok_iff origin]
  unfold validate
  constructor
  · rintro ⟨l, hl⟩
    obtain ⟨mode, hmode, hl⟩ := exists_ok_of_bind hl
    obtain ⟨rules, hrules, -⟩ := exists_ok_of_bind hl
    exact ⟨⟨mode, hmode⟩, rules, hrules⟩
  · rintro ⟨⟨mode, hmode⟩, rules, hrules⟩
    rw [hmode, hrules]
    exact ⟨_, rfl⟩

end RuleFile

/-! ### Lists of well-formed rules -/

namespace RuleList

/-- A list with a rule put into it has no other rules than before and this one. -/
lemma mem_of_mem_put {rules : List Rule} {r x : Rule} (h : x ∈ put rules r) :
    x ∈ rules ∨ x = r := by
  induction rules with
  | nil => exact .inr (List.mem_singleton.1 h)
  | cons y ys ih =>
    unfold put at h
    split at h
    · rcases List.mem_cons.1 h with rfl | h
      · exact .inr rfl
      · exact .inl (List.mem_cons_of_mem y h)
    · rcases List.mem_cons.1 h with rfl | h
      · exact .inl List.mem_cons_self
      · exact (ih h).imp_left (List.mem_cons_of_mem y)

/-- A list with several rules put into it has no other rules than before and these. -/
lemma mem_of_mem_foldl_put {incoming rules : List Rule} {x : Rule}
    (h : x ∈ incoming.foldl put rules) : x ∈ rules ∨ x ∈ incoming := by
  induction incoming generalizing rules with
  | nil => exact .inl h
  | cons r incoming ih =>
    rcases ih h with h | h
    · rcases mem_of_mem_put h with h | rfl
      · exact .inl h
      · exact .inr List.mem_cons_self
    · exact .inr (List.mem_cons_of_mem r h)

/-- A list that is read has no other rules than those that are read. -/
lemma mem_of_mem_ofRules {mode : MergeMode} {rules : List Rule} {x : Rule}
    (h : x ∈ (ofRules mode rules).rules) : x ∈ rules :=
  (mem_of_mem_foldl_put h).resolve_left List.not_mem_nil

/-- Merging keeps all rules well-formed. -/
lemma IsWellFormed.merge {l incoming : RuleList} (h : l.IsWellFormed)
    (h' : incoming.IsWellFormed) : (l.merge incoming).IsWellFormed := by
  intro r hr
  unfold RuleList.merge at hr
  split at hr
  · exact h' r hr
  · exact (mem_of_mem_foldl_put hr).elim (h r) (h' r)

/-- Merging batches of well-formed rules keeps all rules well-formed. -/
lemma IsWellFormed.mergeAll {l : RuleList} (h : l.IsWellFormed) {bs : List RuleFile.Batch}
    (hbs : ∀ b ∈ bs, ∀ r ∈ b.rules, r.IsWellFormed) : (l.mergeAll bs).IsWellFormed := by
  induction bs generalizing l with
  | nil => exact h
  | cons b bs ih =>
    obtain ⟨hb, hbs⟩ := List.forall_mem_cons.1 hbs
    exact ih (h.merge fun r hr => hb r (mem_of_mem_ofRules hr)) hbs

end RuleList

namespace RuleFile

/-- The list of a valid draft holds rules that are well formed and have the origin of the file. -/
lemma isWellFormed_of_validate {origin : String} {d : Draft} {l : RuleList}
    (h : validate origin d = .ok l) : ∀ r ∈ l.rules, r.IsWellFormed ∧ r.origin = origin := by
  obtain ⟨mode, -, h⟩ := exists_ok_of_bind h
  obtain ⟨rules, hrules, h⟩ := exists_ok_of_bind h
  cases h
  intro r hr
  obtain ⟨⟨dr, i⟩, -, hrule⟩ :=
    exists_of_forall₂_of_mem (mapM_eq_ok_iff.1 hrules).flip (RuleList.mem_of_mem_ofRules hr)
  exact isWellFormed_of_rule hrule

/-- The batches of a text have well-formed rules. -/
lemma isWellFormed_of_mem_textBatches {origin : String} {text? : Option String} {b : Batch}
    (h : b ∈ textBatches origin text?) : ∀ r ∈ b.rules, r.IsWellFormed := by
  unfold textBatches at h
  rw [Option.mem_toList] at h
  obtain ⟨text, -, hb⟩ := Option.bind_eq_some_iff.1 h
  cases hbatch : batch origin text with
  | error e =>
    rw [hbatch] at hb
    cases hb
  | ok b' =>
    rw [hbatch] at hb
    cases hb
    unfold batch at hbatch
    split at hbatch
    · cases hbatch
    · obtain ⟨mode, -, hbatch⟩ := exists_ok_of_bind hbatch
      obtain ⟨rules, hrules, hbatch⟩ := exists_ok_of_bind hbatch
      cases hbatch
      intro r hr
      obtain ⟨⟨dr, i⟩, -, hrule⟩ := exists_of_forall₂_of_mem (mapM_eq_ok_iff.1 hrules).flip hr
      exact (isWellFormed_of_rule hrule).1

/-- The batches of a supply have well-formed rules. -/
lemma isWellFormed_of_mem_batches {s : Supply} {b : Batch} (h : b ∈ s.batches) :
    ∀ r ∈ b.rules, r.IsWellFormed := by
  cases s with
  | text origin text? => exact isWellFormed_of_mem_textBatches h
  | file t path => exact isWellFormed_of_mem_textBatches h
  | folder t path =>
    obtain ⟨file, -, hb⟩ := List.mem_flatMap.1 h
    exact isWellFormed_of_mem_textBatches hb

end RuleFile

/-- A setting leaves a rule well formed. -/
lemma Rule.IsSet.isWellFormed {o : Override} {r r' : Rule} (hset : Rule.IsSet o r r')
    (h : r.IsWellFormed) : r'.IsWellFormed := by
  rw [← hset.others] at h
  exact ⟨h.id, h.element, h.farmTypes, h.targets, h.conditions⟩

namespace Gathering

/-- Setting rules to something keeps them well-formed. -/
lemma isWellFormed_of_isSet {o : Rule → Override} {l l' : RuleList} (h : l.IsWellFormed)
    (hset : List.Forall₂ (fun r => Rule.IsSet (o r) r) l.rules l'.rules) : l'.IsWellFormed := by
  intro r hr
  obtain ⟨x, hx, hxr⟩ := exists_of_forall₂_of_mem hset.flip hr
  exact hxr.isWellFormed (h x hx)

/-- A step brings in well-formed rules only. -/
lemma isWellFormed_perform {g : Gathering} (h : g.list.IsWellFormed) (s : Step) :
    (g.perform s).list.IsWellFormed := by
  cases s with
  | supply s =>
    rw [perform, list_take]
    exact h.mergeAll fun b hb => RuleFile.isWellFormed_of_mem_batches hb
  | load t paths =>
    rw [perform, list_load]
    apply h.mergeAll
    intro b hb
    obtain ⟨path, -, hb⟩ := List.mem_flatMap.1 hb
    exact RuleFile.isWellFormed_of_mem_batches hb
  | override override? => exact isWellFormed_of_isSet h (isSet_withOverrides g.list override?)
  | enableAll =>
    exact isWellFormed_of_isSet (o := fun _ => { enabled := some true }) h
      (isSet_withAllEnabled g.list)

/-- **No step of a run brings in any other rule.** -/
theorem isWellFormed_foldl_perform {g : Gathering} (h : g.list.IsWellFormed)
    (steps : List Step) : (steps.foldl perform g).list.IsWellFormed := by
  induction steps generalizing g with
  | nil => exact h
  | cons s steps ih => exact ih (isWellFormed_perform h s)

end Gathering

/-! ### Rules about all farms -/

namespace Rule

/-- **A well-formed rule about all farms fits every configuration.** Its first check looks at all
farms at once, and so do the others.

**Proof sketch.** An error would come from a site of the rule (`Site.run_eq_error_iff`). It has one
site, with all farms, and none of its checks can fail there, since each asks for unique labels. -/
theorem exists_evaluate_of_isMultiTarget {r : Rule} (h : r.IsWellFormed)
    (hfarm : r.dialect? = some .any) (hmulti : r.isMultiTarget = true) (config : FarmConfig) :
    ∃ vs, r.evaluate (.farms config) = .ok vs := by
  have hall : ∀ c ∈ r.checks, c.condition = .isUniqueLabel := by
    unfold isMultiTarget at hmulti
    split at hmulti
    · next c rest hchecks =>
      have hfirst : c.condition = .isUniqueLabel := Condition.isMultiTarget_iff.1 hmulti
      refine h.targets.resolve_right fun hnone => ?_
      refine hnone c ?_ hfirst
      rw [hchecks]
      exact List.mem_cons_self
    · cases hmulti
  cases hresult : r.evaluate (.farms config) with
  | ok vs => exact ⟨vs, rfl⟩
  | error e =>
    exfalso
    rw [evaluate_eq_run, Site.run_eq_error_iff] at hresult
    obtain ⟨before, s, after, hsites, -, haborts⟩ := hresult
    have hs : s ∈ r.sites (.farms config) := by
      rw [hsites]
      exact List.mem_append_right before List.mem_cons_self
    unfold sites at hs
    rw [hfarm] at hs
    change s ∈ (if Dialect.any = Dialect.any then r.sitesInFarms config else []) at hs
    rw [if_pos rfl] at hs
    unfold sitesInFarms at hs
    dsimp only at hs
    rw [if_pos hmulti] at hs
    split at hs
    · cases hs
    · next first rest hfarms =>
      rw [List.mem_singleton] at hs
      subst hs
      cases haborts with
      | check hchecks hbefore hm =>
        have hcondition := hall _ (by
          rw [hchecks]
          exact List.mem_append_right _ List.mem_cons_self)
        rw [hcondition] at hm
        cases hm

end Rule

/-- Every enabled farm rule of a list that looks at all farms at once can be evaluated, whatever
the configuration. -/
def RuleList.FitsAllFarms (l : RuleList) : Prop :=
  ∀ r ∈ l.enabledRules, r.dialect? = some .any → r.isMultiTarget = true →
    ∀ config : FarmConfig, ∃ vs, r.evaluate (.farms config) = .ok vs

/-- Well-formed rules fit all farms. -/
lemma RuleList.IsWellFormed.fitsAllFarms {l : RuleList} (h : l.IsWellFormed) :
    l.FitsAllFarms := by
  intro r hr hfarm hmulti config
  exact Rule.exists_evaluate_of_isMultiTarget (h r (List.mem_filter.1 hr).1) hfarm hmulti config

namespace RuleFile

/-- **A rule file is loaded as a whole or not at all.** It is loaded exactly if its merge mode is
known and every one of its rules is valid, those included whose id comes again. Then its rules are
well formed and have its name as their origin. Otherwise the error is that of the merge mode or,
if that is known, of the first rule that is not valid. So an enabled rule about all farms can be
evaluated for every configuration, in the list of the file as well as in any list that loading
files, settings and merging make of well-formed rules.

**Proof sketch.** The rules are read one after the other, and the first error ends it
(`mapM_eq_error_iff`). What is accepted is well formed (`isWellFormed_of_rule`), and no later step
changes that (`Gathering.isWellFormed_foldl_perform`). -/
theorem validate_all_or_nothing (origin : String) (d : Draft) :
    ((∃ l, validate origin d = .ok l) ↔ d.HasKnownMode ∧ ∀ r ∈ d.rules, r.IsValid) ∧
    (∀ l, validate origin d = .ok l →
      (∀ r ∈ l.rules, r.IsWellFormed ∧ r.origin = origin) ∧ l.FitsAllFarms) ∧
    (∀ e, validate origin d = .error e ↔
      (∃ name, d.mergeMode = some name ∧
        ¬ (Text.upper name = "EXTEND" ∨ Text.upper name = "REPLACE") ∧
        e = .unknownMergeMode (Text.upper name)) ∨
      d.HasKnownMode ∧ ∃ before r after, d.rules = before ++ r :: after ∧
        (∀ b ∈ before, b.IsValid) ∧ rule origin before.length r = .error e) ∧
    ∀ start : Gathering, start.list.IsWellFormed →
      ∀ steps : List Gathering.Step, (steps.foldl Gathering.perform start).list.FitsAllFarms := by
  refine ⟨exists_validate_eq_ok_iff, ?_, fun e => validate_eq_error_iff, ?_⟩
  · intro l hl
    have hrules := isWellFormed_of_validate hl
    have hlist : l.IsWellFormed := fun r hr => (hrules r hr).1
    exact ⟨hrules, hlist.fitsAllFarms⟩
  · intro start hstart steps
    exact (Gathering.isWellFormed_foldl_perform hstart steps).fitsAllFarms

/-- Two rules with one id, of which the first gives way to the second. -/
def labelsDraft : Draft where
  mergeMode := some "extend"
  rules :=
    [{ id := "labels", element := "httpd", checks := [{ condition := "is_present" }] },
      { id := "labels", element := "farm", farmTypes := ["publish"]
        checks := [{ condition := "IS_UNIQUE_LABEL" },
          { condition := "is_unique_label", failIf := true }] }]

/-- Two rules that are not valid: one looks for a directive without a name, one has no id. -/
def faultyRules : List DraftRule :=
  [{ id := "server", element := "httpd.vhost"
     checks := [{ condition := "HAS_DIRECTIVE", value := .text " " }] },
    { id := "", element := "farm" }]

/-- The second rule for the labels is loaded and can be evaluated, also among the built-in rules.
With the rules that are not valid behind them nothing is loaded, for the reason of the first of
those. -/
theorem validate_labelsDraft :
    (∃ l, validate "labels.json" labelsDraft = .ok l ∧ l.rules.length = 1 ∧ l.IsWellFormed ∧
      l.FitsAllFarms) ∧
    validate "labels.json" { labelsDraft with rules := labelsDraft.rules ++ faultyRules } =
      .error (.invalidCheckValue "server" "HAS_DIRECTIVE" .emptyDirective) ∧
    Preset.minimal.rules.IsWellFormed ∧
    (Gathering.perform { list := Preset.minimal.rules } .enableAll).list.FitsAllFarms := by
  have hlength : (validate "labels.json" labelsDraft).toOption.map (fun l => l.rules.length) =
      some 1 := by decide +kernel
  have hminimal : Preset.minimal.rules.IsWellFormed := by decide +kernel
  obtain ⟨hiff, hloaded, -, hrun⟩ := validate_all_or_nothing "labels.json" labelsDraft
  obtain ⟨-, -, herror, -⟩ := validate_all_or_nothing "labels.json"
    { labelsDraft with rules := labelsDraft.rules ++ faultyRules }
  cases hl : validate "labels.json" labelsDraft with
  | error e =>
    rw [hl] at hlength
    cases hlength
  | ok l =>
    rw [hl] at hlength
    obtain ⟨hmode, hvalid⟩ := hiff.1 ⟨l, hl⟩
    obtain ⟨hrules, hfits⟩ := hloaded l hl
    refine ⟨⟨l, rfl, Option.some.inj hlength, fun r hr => (hrules r hr).1, hfits⟩, ?_, hminimal,
      hrun { list := Preset.minimal.rules } hminimal [.enableAll]⟩
    apply (herror _).2
    exact .inr ⟨hmode, labelsDraft.rules, _, _, rfl, hvalid, rfl⟩

end RuleFile

end ProxyLint
