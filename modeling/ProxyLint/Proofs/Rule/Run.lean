import ProxyLint.Proofs.Rule.Accumulation

set_option relaxedAutoImplicit false
set_option autoImplicit false

/-!
# What every step keeps of a rule list

Sources are merged, files loaded, settings applied, in any order. Each step keeps the ids apart.
A source is merged as a whole or not at all: if it cannot be read, is no document, or describes
anything that is not valid, however late, it leaves its name and nothing else.

## Main definitions

* `ProxyLint.RuleFile.DraftRule.IsValid` — what a described rule has to be like.
* `ProxyLint.RuleFile.Unusable` — the texts that are skipped.
* `ProxyLint.Gathering.Step`, `ProxyLint.Gathering.perform` — what can be done to a rule list.
* `ProxyLint.Gathering.Step.Effect` — what a step may do.

## Main results

* `ProxyLint.RuleFile.exists_rule_eq_ok_iff` — exactly the valid rules are accepted.
* `ProxyLint.RuleFile.textBatches_eq_nil_iff` — exactly the unusable texts give no rules.
* `ProxyLint.Gathering.perform_after_run` — each step of a run keeps the ids apart and has no
  effect but its own.
-/

namespace ProxyLint

/-- A list of steps that may fail has results exactly if each step has one. -/
lemma exists_mapM_eq_ok_iff {ε α β : Type} {f : α → Except ε β} {as : List α} :
    (∃ bs, as.mapM f = .ok bs) ↔ ∀ a ∈ as, ∃ b, f a = .ok b := by
  induction as with
  | nil => simp [pure, Except.pure]
  | cons a as ih =>
    rw [List.forall_mem_cons, ← ih]
    constructor
    · rintro ⟨bs, hbs⟩
      rw [List.mapM_cons] at hbs
      obtain ⟨b, hb, hrest⟩ := exists_ok_of_bind hbs
      obtain ⟨bs', hbs', -⟩ := exists_ok_of_bind hrest
      exact ⟨⟨b, hb⟩, bs', hbs'⟩
    · rintro ⟨⟨b, hb⟩, bs, hbs⟩
      exact ⟨b :: bs, by rw [List.mapM_cons, hb, hbs]; rfl⟩

namespace RuleFile

/-! ### Valid rules -/

/-- A described check names a condition that there is and gives it a value that it takes. -/
def DraftCheck.IsValid (d : DraftCheck) : Prop :=
  ∃ c, condition? (Text.upper d.condition) d.value = some (.ok c)

/-- The one condition that looks at all farms at once is named. -/
def DraftCheck.isMultiTarget (d : DraftCheck) : Bool :=
  Text.upper d.condition == "IS_UNIQUE_LABEL"

/-- What a described rule has to be like. -/
structure DraftRule.IsValid (d : DraftRule) : Prop where
  id : Text.isBlankText d.id = false
  element : Text.isBlankText d.element = false
  severity : Severity.ofText? d.severity ≠ none
  type : ∀ t, d.type = some t → RuleType.ofText? t ≠ none
  farmTypes : ∀ t ∈ d.farmTypes, FarmType.ofText? t ≠ none
  checks : ∀ c ∈ d.checks, c.IsValid
  targets : (∀ c ∈ d.checks, c.isMultiTarget = true) ∨ ∀ c ∈ d.checks, c.isMultiTarget = false

/-- Only what is there is not turned into an error. -/
lemma exists_orFail_eq_ok_iff {α : Type} {v : Option α} {e : Error} :
    (∃ a, orFail v e = .ok a) ↔ v ≠ none := by
  cases v <;> simp [orFail]

/-- Whether a condition looks at all farms can be told from its name. -/
lemma isMultiTarget_of_condition? {name : String} {v : JsonValue} {c : Condition}
    (h : condition? name v = some (.ok c)) : c.isMultiTarget = (name == "IS_UNIQUE_LABEL") := by
  unfold condition? at h
  split at h
  case h_7 | h_8 =>
    cases h
    decide
  case h_14 => cases h
  all_goals
    obtain ⟨a, -, rfl⟩ := exists_of_map_eq_ok (Option.some.inj h)
    rfl

/-- The condition of a check is the one that its description names. -/
lemma condition?_of_check {id : String} {d : DraftCheck} {c : Check} (h : check id d = .ok c) :
    condition? (Text.upper d.condition) d.value = some (.ok c.condition) := by
  unfold check at h
  dsimp only at h
  split at h
  · cases h
  · cases h
  · next hcondition =>
    cases h
    exact hcondition

/-- A check comes from its description exactly if this is valid. -/
lemma exists_check_eq_ok_iff (id : String) {d : DraftCheck} :
    (∃ c, check id d = .ok c) ↔ d.IsValid := by
  constructor
  · rintro ⟨c, hc⟩
    exact ⟨c.condition, condition?_of_check hc⟩
  · rintro ⟨c, hc⟩
    unfold check
    dsimp only
    rw [hc]
    exact ⟨_, rfl⟩

/-- Whether checks are mixed can be told from the names of their conditions. -/
lemma isMixed_eq_false_iff {id : String} {ds : List DraftCheck} {cs : List Check}
    (h : ds.mapM (check id) = .ok cs) : isMixed cs = false ↔
      (∀ d ∈ ds, d.isMultiTarget = true) ∨ ∀ d ∈ ds, d.isMultiTarget = false := by
  have hcount : cs.countP (fun c => c.condition.isMultiTarget) =
      ds.countP DraftCheck.isMultiTarget ∧ cs.length = ds.length := by
    induction ds generalizing cs with
    | nil =>
      cases h
      exact ⟨rfl, rfl⟩
    | cons d ds ih =>
      rw [List.mapM_cons] at h
      obtain ⟨c, hc, h⟩ := exists_ok_of_bind h
      obtain ⟨cs', hcs', h⟩ := exists_ok_of_bind h
      cases h
      have hd : c.condition.isMultiTarget = d.isMultiTarget :=
        isMultiTarget_of_condition? (condition?_of_check hc)
      rw [List.countP_cons, List.countP_cons, (ih hcs').1, hd, List.length_cons, (ih hcs').2]
      exact ⟨rfl, rfl⟩
  unfold isMixed
  rw [hcount.1, hcount.2, Bool.and_eq_false_iff, bne_eq_false_iff_eq, bne_eq_false_iff_eq,
    List.countP_eq_zero, List.countP_eq_length, or_comm]
  simp only [Bool.not_eq_true]

/-- The type that is described. -/
def DraftRule.typeOf (d : DraftRule) : Except Error RuleType :=
  match d.type with
  | none => .ok .codeSmell
  | some t => orFail (RuleType.ofText? t) (.unknownRuleType d.id t)

/-- Past the two texts that must not be blank, a rule is made from its parts. -/
lemma rule_eq (origin : String) (i : Nat) {d : DraftRule} (hid : Text.isBlankText d.id = false)
    (helement : Text.isBlankText d.element = false) : rule origin i d = (do
      let severity ← orFail (Severity.ofText? d.severity) (.unknownSeverity d.id d.severity)
      let type ← d.typeOf
      let farmTypes ← farmTypes d.id d.farmTypes
      let checks ← d.checks.mapM (check d.id)
      if isMixed checks then .error (.mixedTargets d.id)
      else .ok { id := d.id, element := d.element, description := d.description, severity, farmTypes
                 checks, tags := d.tags, effort := d.effort, enabled := d.enabled, origin, type
                 documentationUrl := d.documentationUrl }) := by
  unfold rule DraftRule.typeOf
  rw [hid, helement]
  cases d.type <;> rfl

/-- Farm types are read exactly if all their names are known. -/
lemma exists_farmTypes_eq_ok_iff (id : String) {names : List String} :
    (∃ ts, farmTypes id names = .ok ts) ↔ ∀ n ∈ names, FarmType.ofText? n ≠ none := by
  unfold farmTypes
  cases names with
  | nil => simp
  | cons n names =>
    rw [List.isEmpty_cons, if_neg Bool.false_ne_true]
    constructor
    · rintro ⟨ts, h⟩
      obtain ⟨given, hgiven, -⟩ := exists_ok_of_bind h
      exact fun m hm => exists_orFail_eq_ok_iff.1 (exists_mapM_eq_ok_iff.1 ⟨given, hgiven⟩ m hm)
    · intro h
      obtain ⟨given, hgiven⟩ := exists_mapM_eq_ok_iff.2 fun m hm =>
        (exists_orFail_eq_ok_iff (e := .unknownFarmType id m)).2 (h m hm)
      rw [hgiven]
      exact ⟨_, rfl⟩

/-- The type of a rule is read exactly if its name is known or there is none. -/
lemma exists_typeOf_eq_ok_iff {d : DraftRule} :
    (∃ t, d.typeOf = .ok t) ↔ ∀ t, d.type = some t → RuleType.ofText? t ≠ none := by
  unfold DraftRule.typeOf
  cases d.type with
  | none => simp
  | some t =>
    dsimp only
    rw [exists_orFail_eq_ok_iff]
    simp

/-- **Exactly the valid rules are accepted.**

**Proof sketch.** A rule is accepted exactly if none of the steps that read it fails, and each of
them fails exactly if the field that it reads is not valid. -/
theorem exists_rule_eq_ok_iff {origin : String} {i : Nat} {d : DraftRule} :
    (∃ r, rule origin i d = .ok r) ↔ d.IsValid := by
  constructor
  · rintro ⟨r, h⟩
    have hid : Text.isBlankText d.id = false := by
      refine Bool.eq_false_iff.2 fun hblank => ?_
      rw [rule, hblank] at h
      cases h
    have helement : Text.isBlankText d.element = false := by
      refine Bool.eq_false_iff.2 fun hblank => ?_
      rw [rule, hid, hblank] at h
      cases h
    rw [rule_eq origin i hid helement] at h
    obtain ⟨severity, hseverity, h⟩ := exists_ok_of_bind h
    obtain ⟨type, htype, h⟩ := exists_ok_of_bind h
    obtain ⟨farmTypes, hfarmTypes, h⟩ := exists_ok_of_bind h
    obtain ⟨checks, hchecks, h⟩ := exists_ok_of_bind h
    have hmixed : isMixed checks = false := by
      refine Bool.eq_false_iff.2 fun hmixed => ?_
      rw [hmixed] at h
      cases h
    exact {
      id := hid
      element := helement
      severity := exists_orFail_eq_ok_iff.1 ⟨severity, hseverity⟩
      type := exists_typeOf_eq_ok_iff.1 ⟨type, htype⟩
      farmTypes := (exists_farmTypes_eq_ok_iff d.id).1 ⟨farmTypes, hfarmTypes⟩
      checks := fun c hc =>
        (exists_check_eq_ok_iff d.id).1 (exists_mapM_eq_ok_iff.1 ⟨checks, hchecks⟩ c hc)
      targets := (isMixed_eq_false_iff hchecks).1 hmixed }
  · intro h
    obtain ⟨severity, hseverity⟩ := (exists_orFail_eq_ok_iff (e :=
      .unknownSeverity d.id d.severity)).2 h.severity
    obtain ⟨type, htype⟩ := exists_typeOf_eq_ok_iff.2 h.type
    obtain ⟨farmTypes, hfarmTypes⟩ := (exists_farmTypes_eq_ok_iff d.id).2 h.farmTypes
    obtain ⟨checks, hchecks⟩ := exists_mapM_eq_ok_iff.2 fun c hc =>
      (exists_check_eq_ok_iff d.id).2 (h.checks c hc)
    rw [rule_eq origin i h.id h.element, hseverity, htype, hfarmTypes, hchecks]
    have hmixed := (isMixed_eq_false_iff hchecks).2 h.targets
    simp only [bind, Except.bind]
    rw [hmixed]
    exact ⟨_, rfl⟩

/-! ### Unusable texts -/

/-- The texts that are skipped as a whole: those that cannot be read, are no document, are a
document of the wrong shape, or describe a merge mode or a rule, the last one included, that is
not valid. -/
inductive Unusable : Option String → Prop where
  | unreadable : Unusable none
  | noDocument {text : String} (h : JsonText.read? text = none) : Unusable (some text)
  | shapeless {text : String} {t : JsonText.Tree} (ht : JsonText.read? text = some t)
      (h : draft? t = none) : Unusable (some text)
  | mergeMode {text name : String} {t : JsonText.Tree} {d : Draft}
      (ht : JsonText.read? text = some t) (hd : draft? t = some d)
      (hname : d.mergeMode = some name) (h : MergeMode.ofText? name = none) : Unusable (some text)
  | rule {text : String} {t : JsonText.Tree} {d : Draft} {r : DraftRule}
      (ht : JsonText.read? text = some t) (hd : draft? t = some d) (hr : r ∈ d.rules)
      (h : ¬ r.IsValid) : Unusable (some text)

/-- A text of the right shape is unusable if its merge mode or one of its rules is not valid. -/
lemma unusable_iff_of_draft {text : String} {t : JsonText.Tree} {d : Draft}
    (ht : JsonText.read? text = some t) (hd : draft? t = some d) :
    Unusable (some text) ↔
      (∃ name, d.mergeMode = some name ∧ MergeMode.ofText? name = none) ∨
        ∃ r ∈ d.rules, ¬ r.IsValid := by
  constructor
  · rintro (_ | hnone | ⟨ht', hnone⟩ | ⟨ht', hd', hname, hmode⟩ | ⟨ht', hd', hr, hrule⟩)
    · rw [ht] at hnone
      cases hnone
    · cases ht.symm.trans ht'
      rw [hd] at hnone
      cases hnone
    · cases ht.symm.trans ht'
      cases hd.symm.trans hd'
      exact .inl ⟨_, hname, hmode⟩
    · cases ht.symm.trans ht'
      cases hd.symm.trans hd'
      exact .inr ⟨_, hr, hrule⟩
  · rintro (⟨name, hname, hmode⟩ | ⟨r, hr, hrule⟩)
    · exact .mergeMode ht hd hname hmode
    · exact .rule ht hd hr hrule

/-- The mode of merging is read exactly if its name is known or there is none. -/
lemma exists_mergeMode_eq_ok_iff {name? : Option String} :
    (∃ m, mergeMode name? = .ok m) ↔ ∀ name, name? = some name → MergeMode.ofText? name ≠ none := by
  cases name? with
  | none => simp [mergeMode]
  | some name =>
    rw [mergeMode, exists_orFail_eq_ok_iff]
    simp

/-- The rules of a draft can be made exactly if all of them are valid. -/
lemma exists_rules_eq_ok_iff {origin : String} {rules : List DraftRule} :
    (∃ rs, (rules.zipIdx).mapM (fun (r, i) => rule origin i r) = .ok rs) ↔
      ∀ r ∈ rules, r.IsValid := by
  rw [exists_mapM_eq_ok_iff]
  constructor
  · intro h r hr
    obtain ⟨i, hi, rfl⟩ := List.getElem_of_mem hr
    have hmem : (rules[i], i) ∈ rules.zipIdx := List.mk_mem_zipIdx_iff_getElem?.2 (by simp [hi])
    exact exists_rule_eq_ok_iff.1 (h (rules[i], i) hmem)
  · rintro h ⟨r, i⟩ hri
    have hr : r ∈ rules := List.mem_of_getElem? (List.mk_mem_zipIdx_iff_getElem?.1 hri)
    exact exists_rule_eq_ok_iff.2 (h r hr)

/-- A text has a batch exactly if it is usable. -/
lemma exists_batch_eq_ok_iff {origin text : String} :
    (∃ b, batch origin text = .ok b) ↔ ¬ Unusable (some text) := by
  unfold batch
  cases ht : JsonText.read? text with
  | none => simpa using Unusable.noDocument ht
  | some t =>
    cases hd : draft? t with
    | none => simpa [hd] using Unusable.shapeless ht hd
    | some d =>
      rw [unusable_iff_of_draft ht hd, Option.bind_some, hd]
      push Not
      rw [← @exists_rules_eq_ok_iff origin, ← exists_mergeMode_eq_ok_iff]
      constructor
      · rintro ⟨b, hb⟩
        obtain ⟨mode, hmode, hb⟩ := exists_ok_of_bind hb
        obtain ⟨rules, hrules, -⟩ := exists_ok_of_bind hb
        exact ⟨⟨mode, hmode⟩, rules, hrules⟩
      · rintro ⟨⟨mode, hmode⟩, rules, hrules⟩
        rw [hmode, hrules]
        exact ⟨⟨mode, rules⟩, rfl⟩

/-- **Exactly the unusable texts give no rules.** -/
theorem textBatches_eq_nil_iff {origin : String} {text? : Option String} :
    textBatches origin text? = [] ↔ Unusable text? := by
  unfold textBatches
  cases text? with
  | none => simpa using Unusable.unreadable
  | some text =>
    rw [← not_iff_not, ← @exists_batch_eq_ok_iff origin, Option.bind_some]
    cases batch origin text <;> simp [Except.toOption]

instance (text? : Option String) : Decidable (Unusable text?) :=
  decidable_of_iff _ (@textBatches_eq_nil_iff "" text?)

end RuleFile

/-! ### Steps -/

namespace Gathering

open RuleFile

/-- What can be done to the rules of a gathering. -/
inductive Step where
  /-- A source is merged. -/
  | supply (s : Supply)
  /-- Files and folders are loaded, and none of their names is remembered. -/
  | load (t : FileTree) (paths : List String)
  /-- Settings are applied. -/
  | override (override? : String → Option Override)
  /-- Every rule is enabled. -/
  | enableAll

/-- Does a step. -/
def perform (g : Gathering) : Step → Gathering
  | .supply s => g.take s
  | .load t paths => { g with list := g.list.load t paths }
  | .override override? => { g with list := g.list.withOverrides override? }
  | .enableAll => { g with list := g.list.withAllEnabled }

/-- A text is skipped if it is unusable, which leaves the rules as they are and adds its name;
otherwise it is merged as a whole, and no name is added. -/
def TakesText (origin : String) (text? : Option String) (g g' : Gathering) : Prop :=
  if Unusable text? then g' = { g with skipped := g.skipped ++ [origin] }
  else ∃ b : Batch, textBatches origin text? = [b] ∧ g' = { g with list := g.list.merge b.list }

end Gathering

/-- A rule after a setting has been applied to it: all but two fields are as they were, and those
two are as the setting says, if it says anything. -/
structure Rule.IsSet (o : Override) (r r' : Rule) : Prop where
  others : { r' with enabled := r.enabled, severity := r.severity } = r
  enabled : r'.enabled = o.enabled.getD r.enabled
  severity : r'.severity = o.severity.getD r.severity

namespace Gathering

open RuleFile

/-- A path as a source: a folder or a file. -/
def supplyOf (t : FileTree) (path : String) : Supply :=
  if t.isDir path then .folder t path else .file t path

/-- What a step may do to a gathering. -/
def Step.Effect (g g' : Gathering) : Step → Prop
  | .supply (.text origin text?) => TakesText origin text? g g'
  | .supply (.file t path) => TakesText (originOf path) (t.read? path) g g'
  | .supply (.folder t path) =>
    g'.skipped = g.skipped ++ ((ruleFiles? t path).elim [path] fun files =>
      (files.filter fun file => Unusable (t.read? file)).map originOf) ∧
    g'.list = g.list.mergeAll (Supply.folder t path).batches
  | .load t paths => g'.skipped = g.skipped ∧ g'.list = g.list.mergeAll
    ((paths.mergeSort nameLe).flatMap fun path => (supplyOf t path).batches)
  | .override override? => g'.skipped = g.skipped ∧ g'.list.mode = g.list.mode ∧
    List.Forall₂ (fun r => Rule.IsSet ((override? r.id).getD {}) r) g.list.rules g'.list.rules
  | .enableAll => g'.skipped = g.skipped ∧ g'.list.mode = g.list.mode ∧
    List.Forall₂ (Rule.IsSet { enabled := some true }) g.list.rules g'.list.rules

/-- A text is skipped for want of a batch, or its batch is merged. -/
lemma addText_cases (g : Gathering) (origin : String) (text? : Option String) :
    (textBatches origin text? = [] ∧
      g.addText origin text? = { g with skipped := g.skipped ++ [origin] }) ∨
    ∃ b : Batch, textBatches origin text? = [b] ∧
      g.addText origin text? = { g with list := g.list.merge b.list } := by
  unfold addText source textBatches
  cases text? with
  | none => exact .inl ⟨rfl, rfl⟩
  | some text =>
    dsimp only
    rw [read_eq_map_batch, Option.bind_some]
    cases batch origin text with
    | error e => exact .inl ⟨rfl, rfl⟩
    | ok b => exact .inr ⟨b, rfl, rfl⟩

/-- A text is taken as a step says. -/
lemma takesText_addText (g : Gathering) (origin : String) (text? : Option String) :
    TakesText origin text? g (g.addText origin text?) := by
  unfold TakesText
  obtain ⟨hnil, hskip⟩ | ⟨b, hb, hmerge⟩ := g.addText_cases origin text?
  · rw [if_pos (textBatches_eq_nil_iff.1 hnil), hskip]
  · have husable : ¬ Unusable text? := by
      rw [← @textBatches_eq_nil_iff origin, hb]
      exact List.cons_ne_nil b []
    rw [if_neg husable]
    exact ⟨b, hb, hmerge⟩

/-- A file that cannot be used is noted as skipped. -/
lemma skipped_addFile (g : Gathering) (t : FileTree) (path : String) :
    (g.addFile t path).skipped =
      g.skipped ++ if Unusable (t.read? path) then [originOf path] else [] := by
  have htake := g.takesText_addText (originOf path) (t.read? path)
  unfold addFile
  unfold TakesText at htake
  split at htake
  · next hbad => rw [htake, if_pos hbad]
  · next hgood =>
    obtain ⟨b, -, hb⟩ := htake
    rw [hb, if_neg hgood, List.append_nil]

/-- Of the files of a folder, those are skipped that are unusable. -/
lemma skipped_addFolder (g : Gathering) (t : FileTree) (path : String) :
    (g.addFolder t path).skipped = g.skipped ++ ((ruleFiles? t path).elim [path] fun files =>
      (files.filter fun file => Unusable (t.read? file)).map originOf) := by
  unfold addFolder
  cases ruleFiles? t path with
  | none => rfl
  | some files =>
    dsimp only [Option.elim_some]
    induction files generalizing g with
    | nil => simp
    | cons file files ih =>
      rw [List.foldl_cons, ih, skipped_addFile, List.append_assoc]
      by_cases hbad : Unusable (t.read? file) <;> simp [hbad]

/-- Loading files merges their batches in the order of the file names. -/
lemma list_load (l : RuleList) (t : FileTree) (paths : List String) :
    l.load t paths = l.mergeAll
      ((paths.mergeSort nameLe).flatMap fun path => (supplyOf t path).batches) := by
  have hpath : ∀ (g : Gathering) (path : String), g.addPath t path = g.take (supplyOf t path) := by
    intro g path
    unfold addPath supplyOf
    split <;> rfl
  unfold RuleList.load
  simp only [hpath]
  rw [← List.foldl_map, list_foldl_take, List.flatMap_map]

/-- Settings change no rule but in what they set. -/
lemma isSet_withOverrides (l : RuleList) (override? : String → Option Override) :
    List.Forall₂ (fun r => Rule.IsSet ((override? r.id).getD {}) r) l.rules
      (l.withOverrides override?).rules := by
  unfold RuleList.withOverrides
  rw [List.forall₂_map_right_iff, List.forall₂_same]
  intro r _
  cases override? r.id <;> exact ⟨rfl, rfl, rfl⟩

/-- Enabling all rules sets nothing else. -/
lemma isSet_withAllEnabled (l : RuleList) :
    List.Forall₂ (Rule.IsSet { enabled := some true }) l.rules l.withAllEnabled.rules := by
  unfold RuleList.withAllEnabled
  rw [List.forall₂_map_right_iff, List.forall₂_same]
  exact fun r _ => ⟨rfl, rfl, rfl⟩

/-- A step has no effect but its own. -/
theorem effect_perform (g : Gathering) (s : Step) : s.Effect g (g.perform s) := by
  cases s with
  | supply s =>
    cases s with
    | text origin text? => exact g.takesText_addText origin text?
    | file t path => exact g.takesText_addText _ _
    | folder t path => exact ⟨g.skipped_addFolder t path, g.list_take (.folder t path)⟩
  | load t paths => exact ⟨rfl, list_load g.list t paths⟩
  | override override? => exact ⟨rfl, rfl, isSet_withOverrides g.list override?⟩
  | enableAll => exact ⟨rfl, rfl, isSet_withAllEnabled g.list⟩

/-- A step keeps the ids apart. -/
lemma holdsOnce_perform {g : Gathering} (h : g.list.HoldsOnce) (s : Step) :
    (g.perform s).list.HoldsOnce := by
  cases s with
  | supply s =>
    rw [perform, list_take]
    exact h.mergeAll _
  | load t paths =>
    rw [perform, list_load]
    exact h.mergeAll _
  | override override? =>
    rw [perform, RuleList.HoldsOnce, RuleList.ids_withOverrides]
    exact h
  | enableAll =>
    rw [perform, RuleList.HoldsOnce, RuleList.ids_withAllEnabled]
    exact h

/-- A run keeps each rule once. -/
lemma holdsOnce_foldl_perform {g : Gathering} (h : g.list.HoldsOnce) (steps : List Step) :
    (steps.foldl perform g).list.HoldsOnce := by
  induction steps generalizing g with
  | nil => exact h
  | cons s steps ih => exact ih (holdsOnce_perform h s)

/-- **Each step of a run keeps the ids apart and has no effect but its own.** Whatever has been
done before, a text or a file that is unusable leaves the rules as they were and adds its name to
those of the skipped sources, any other is merged as a whole and adds none; of a folder, the
unusable files are skipped and the others merged; settings keep the rules in number and order and
change none of their fields but the two that they are about.

**Proof sketch.** A run keeps the ids apart because its steps do, and what a step does
(`effect_perform`) does not depend on how the rules came about. -/
theorem perform_after_run (start : Gathering) (h : start.list.HoldsOnce) (before : List Step)
    (s : Step) :
    let g := before.foldl perform start
    g.list.HoldsOnce ∧ (g.perform s).list.HoldsOnce ∧ s.Effect g (g.perform s) := by
  intro g
  have honce : g.list.HoldsOnce := holdsOnce_foldl_perform h before
  exact ⟨honce, holdsOnce_perform honce s, effect_perform g s⟩

/-- A list of rules of which only the second is not valid: its element is blank. -/
def lateFault : String :=
  "\x7b\"rules\":[\x7b\"id\":\"a\",\"element\":\"farm.cache\"\x7d," ++
    "\x7b\"id\":\"b\",\"element\":\" \"\x7d]\x7d"

/-- A list of one rule, which is disabled. -/
def ownRules : String :=
  "\x7b\"rules\":[\x7b\"id\":\"own\",\"element\":\"farm\",\"enabled\":false\x7d]\x7d"

/-- Such a list is skipped as a whole, its first rule included, after a list that has been merged
and enabled. -/
theorem perform_lateFault :
    let start : Gathering := { list := Preset.minimal.rules }
    let g := [.supply (.text "own.json" (some ownRules)), .enableAll].foldl perform start
    start.list.HoldsOnce ∧ ¬ Unusable (some ownRules) ∧ Unusable (some lateFault) ∧
      g.perform (.supply (.text "late.json" (some lateFault))) =
        { g with skipped := g.skipped ++ ["late.json"] } := by
  intro start g
  have honce : start.list.HoldsOnce := RuleList.holdsOnce_preset .minimal
  have hlate : Unusable (some lateFault) := by decide +kernel
  refine ⟨honce, by decide +kernel, hlate, ?_⟩
  have heffect : TakesText "late.json" (some lateFault) g
      (g.perform (.supply (.text "late.json" (some lateFault)))) :=
    (perform_after_run start honce [.supply (.text "own.json" (some ownRules)), .enableAll]
      (.supply (.text "late.json" (some lateFault)))).2.2
  unfold TakesText at heffect
  rwa [if_pos hlate] at heffect

end Gathering

end ProxyLint
