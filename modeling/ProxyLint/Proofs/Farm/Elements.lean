import ProxyLint.Proofs.Any.Spelling
import ProxyLint.Proofs.Places.Farm
import ProxyLint.Target

set_option relaxedAutoImplicit false
set_option autoImplicit false

/-!
# Elements of a farm

A path leads to one property of a farm or of its cache. What it leads to is the last property
with the label that the path ends with, read as that property is read, and nothing else in the
farm has a say in it: neither another property nor an earlier one with the same label.

## Main definitions

* `ProxyLint.Any.ElementKind` — the ways in which properties are read into targets.
* `ProxyLint.Any.farmElements`, `ProxyLint.Any.cacheElements` — the properties that paths lead to.
* `ProxyLint.Farm.targets`, `ProxyLint.Cache.targets` — what the paths of a farm lead to.

## Main results

* `ProxyLint.Any.mem_targets_farm`, `ProxyLint.Any.mem_targets_cache` — each property is the last
  one with its label.
* `ProxyLint.Any.locate_of_last` — a path leads to the last property with its label.
-/

namespace ProxyLint

namespace Any

/-! ### Targets of properties -/

/-- The text of a value without a label. -/
def Item.plain? : Item → Option String
  | .value none t => some (unquote t.value)
  | _ => none

/-- Whether a word stands for true. -/
def affirms (word : String) : Bool :=
  word == "1" || word == "true"

/-- The ways in which properties are read into targets. -/
inductive ElementKind where
  | text
  | integer
  | boolean
  /-- A list of texts. -/
  | texts
  | filters
  | rules
  /-- A block of which nothing counts but that it is there. -/
  | whole
  deriving DecidableEq, Repr, Inhabited

/-- The target that a property is. A single value is at its own place and a block at that of its
label. A block in place of a value is left out, and so is a value in place of a block. -/
def ElementKind.target : ElementKind → Sourced String × Content → Target
  | .text, (_, .value t) => .text ⟨unquote t.value, t.source⟩
  | .integer, (_, .value t) =>
    .integer ⟨(Text.readInt64? (Text.strip (unquote t.value).toList)).getD 0, t.source⟩
  | .boolean, (_, .value t) =>
    .boolean ⟨affirms (Text.lower (Text.trim (unquote t.value))), t.source⟩
  | .texts, (label, .block _ items) => .textList ⟨items.filterMap Item.plain?, label.source⟩
  | .filters, (label, .block _ items) =>
    .filters ⟨(items.filterMap Item.entry?).map fun e => (filter e).value, label.source⟩
  | .rules, (label, .block _ items) =>
    .rules ⟨(items.filterMap Item.entry?).map fun e => (cacheRule label.value e).value,
      label.source⟩
  | .whole, (label, .block _ _) => .present label.source
  | _, _ => .missing

section Shapes

variable (label : Sourced String) (content : Content)

/-- A text is the target that its element says. -/
lemma target_text :
    Target.ofProperty .text (text label content).value =
      ElementKind.text.target (label, content) := by
  cases content <;> rfl

/-- A number is the target that its element says. -/
lemma target_integer :
    Target.ofProperty .integer (integer label content).value =
      ElementKind.integer.target (label, content) := by
  cases content with
  | block source items => rfl
  | value t =>
    have htext : (text label (.value t)).value = some ⟨unquote t.value, t.source⟩ := rfl
    rw [integer, Noted.value_bind, htext, ElementKind.target]
    dsimp only
    cases Text.readInt64? (Text.strip (unquote t.value).toList) <;> rfl

/-- A switch is the target that its element says. -/
lemma target_boolean :
    Target.ofProperty .boolean (boolean label content).value =
      ElementKind.boolean.target (label, content) := by
  cases content with
  | block source items => rfl
  | value t =>
    have htext : (text label (.value t)).value = some ⟨unquote t.value, t.source⟩ := rfl
    rw [boolean, Noted.value_bind, htext, ElementKind.target]
    dsimp only
    generalize Text.lower (Text.trim (unquote t.value)) = word
    unfold affirms
    cases word == "1" || word == "true" with
    | true => rfl
    | false => cases word == "0" || word == "false" <;> rfl

/-- A list of texts is the target that its element says. -/
lemma target_strings :
    Target.ofProperty .textList (strings label content).value =
      ElementKind.texts.target (label, content) := by
  cases content with
  | value t => rfl
  | block source items =>
    have hplain : (collect (plainValue label) items).value = items.filterMap Item.plain? := by
      refine value_collect (fun item => ?_) items
      rcases item with ⟨_ | inner, text⟩ | ⟨_ | inner, source, items⟩ <;> rfl
    rw [ElementKind.target, ← hplain]
    rfl

/-- A list of blocks is at its label, and its blocks are read one by one. -/
lemma value_entryList {α : Type} (scope : String) (read : Entry → Noted α) :
    (entryList scope read label content).value = content.items?.map fun items =>
      ⟨(items.filterMap Item.entry?).map fun e => (read e).value, label.source⟩ := by
  cases content with
  | value t => rfl
  | block source items =>
    rw [Content.items?, Option.map_some, ← value_readEntries scope read items]
    rfl

/-- A list of filters is the target that its element says. -/
lemma target_filter :
    Target.ofProperty .filters (entryList "filter" filter label content).value =
      ElementKind.filters.target (label, content) := by
  rw [value_entryList]
  cases content <;> rfl

/-- A list of rules is the target that its element says. -/
lemma target_ruleList :
    Target.ofProperty .rules (ruleList label content).value =
      ElementKind.rules.target (label, content) := by
  rw [ruleList, value_entryList]
  cases content <;> rfl

/-- Of renders it is only told whether they are there. -/
lemma target_renders :
    Target.ofProperty (fun v => .present v.source)
        (entryList "renders" render label content).value =
      ElementKind.whole.target (label, content) := by
  rw [value_entryList]
  cases content <;> rfl

/-- Of a cache it is only told whether it is there. -/
lemma target_cache :
    Target.ofProperty (fun c => .present c.source) (cache label content).value =
      ElementKind.whole.target (label, content) := by
  cases content with
  | value t => rfl
  | block source items =>
    exact congrArg Target.present (source_cacheProperties { source := label.source } items)

end Shapes

/-! ### Tables of properties -/

/-- The properties of a farm that paths lead to. -/
def farmElements : List (String × ElementKind) :=
  [("clientheaders", .texts), ("virtualhosts", .texts), ("renders", .whole), ("filter", .filters),
    ("cache", .whole), ("retryDelay", .integer), ("numberOfRetries", .integer),
    ("unavailablePenalty", .integer), ("failover", .boolean), ("propagateSyndPost", .boolean),
    ("stickyConnectionsFor", .text)]

/-- The properties of a cache that paths lead to. -/
def cacheElements : List (String × ElementKind) :=
  [("docroot", .text), ("statfile", .text), ("mode", .text), ("statfileslevel", .integer),
    ("gracePeriod", .integer), ("serveStaleOnError", .boolean), ("allowAuthorized", .boolean),
    ("enableTTL", .boolean), ("rules", .rules), ("invalidate", .rules),
    ("allowedClients", .rules), ("ignoreUrlParams", .rules), ("headers", .texts)]

end Any

open Any

/-- What the paths to the properties of a farm lead to. -/
def Farm.targets (f : Farm) : List ((String × ElementKind) × Target) :=
  farmElements.zip
    [.ofProperty .textList f.clientHeaders, .ofProperty .textList f.virtualHosts,
      .ofProperty (fun v => .present v.source) f.renders, .ofProperty .filters f.filter,
      .ofProperty (fun c => .present c.source) f.cache, .ofProperty .integer f.retryDelay,
      .ofProperty .integer f.numberOfRetries, .ofProperty .integer f.unavailablePenalty,
      .ofProperty .boolean f.failover, .ofProperty .boolean f.propagateSyndPost,
      .ofProperty .text f.stickyConnectionsFor]

/-- What the paths to the properties of a cache lead to. -/
def Cache.targets (c : Cache) : List ((String × ElementKind) × Target) :=
  cacheElements.zip
    [.ofProperty .text c.docroot, .ofProperty .text c.statfile, .ofProperty .text c.mode,
      .ofProperty .integer c.statfileslevel, .ofProperty .integer c.gracePeriod,
      .ofProperty .boolean c.serveStaleOnError, .ofProperty .boolean c.allowAuthorized,
      .ofProperty .boolean c.enableTTL, .ofProperty .rules c.rules, .ofProperty .rules c.invalidate,
      .ofProperty .rules c.allowedClients, .ofProperty .rules c.ignoreUrlParams,
      .ofProperty .textList c.headers]

/-- Each element of a farm has a target. -/
lemma Farm.exists_mem_targets (f : Farm) {element : String × ElementKind}
    (h : element ∈ farmElements) : ∃ target, (element, target) ∈ f.targets := by
  have hfst : f.targets.map Prod.fst = farmElements := rfl
  rw [← hfst] at h
  obtain ⟨row, hrow, rfl⟩ := List.mem_map.1 h
  exact ⟨row.2, hrow⟩

/-- Each element of a cache has a target. -/
lemma Cache.exists_mem_targets (c : Cache) {element : String × ElementKind}
    (h : element ∈ cacheElements) : ∃ target, (element, target) ∈ c.targets := by
  have hfst : c.targets.map Prod.fst = cacheElements := rfl
  rw [← hfst] at h
  obtain ⟨row, hrow, rfl⟩ := List.mem_map.1 h
  exact ⟨row.2, hrow⟩

/-- The paths of a farm are looked up in its table. -/
lemma Farm.locate_of_mem_targets (f : Farm) : ∀ row ∈ f.targets,
    f.locate ("farm." ++ row.1.1) = .ok row.2 := by
  simp only [targets, farmElements, List.zip_cons_cons, List.zip_nil_right, List.forall_mem_cons,
    List.not_mem_nil, false_implies, implies_true, and_true]
  exact ⟨rfl, rfl, rfl, rfl, rfl, rfl, rfl, rfl, rfl, rfl, rfl⟩

/-- The paths of a cache are looked up in its table. -/
lemma Farm.locate_of_mem_cacheTargets {f : Farm} {c : Cache} (hcache : f.cache = some c) :
    ∀ row ∈ c.targets, f.locate ("farm.cache." ++ row.1.1) = .ok row.2 := by
  obtain ⟨⟩ := f
  cases hcache
  simp only [Cache.targets, cacheElements, List.zip_cons_cons, List.zip_nil_right,
    List.forall_mem_cons, List.not_mem_nil, false_implies, implies_true, and_true]
  exact ⟨rfl, rfl, rfl, rfl, rfl, rfl, rfl, rfl, rfl, rfl, rfl, rfl, rfl⟩

/-- Without a cache its properties are missing. -/
lemma Farm.locate_of_no_cache {f : Farm} (hcache : f.cache = none) :
    ∀ element ∈ cacheElements, f.locate ("farm.cache." ++ element.1) = .ok .missing := by
  obtain ⟨⟩ := f
  cases hcache
  simp only [cacheElements, List.forall_mem_cons, List.not_mem_nil, false_implies, implies_true,
    and_true]
  exact ⟨rfl, rfl, rfl, rfl, rfl, rfl, rfl, rfl, rfl, rfl, rfl, rfl, rfl⟩

namespace Any

/-- A property of a cache sets what the path to it leads to. -/
lemma targets_cacheProperty (c : Cache) (label : Sourced String) (content : Content) :
    (cacheProperty c label content).value.targets = c.targets.map fun row =>
      (row.1, if label.value == row.1.1 then row.1.2.target (label, content) else row.2) := by
  unfold cacheProperty
  split
  case h_14 =>
    rw [value_ignored]
    simp_all [Cache.targets, cacheElements]
  all_goals
    next h =>
    simp [Cache.targets, cacheElements, h, target_text, target_integer, target_boolean,
      target_strings, target_ruleList]

/-- A property of a farm sets what the path to it leads to. -/
lemma targets_farmProperty (f : Farm) (label : Sourced String) (content : Content) :
    (farmProperty f label content).value.targets = f.targets.map fun row =>
      (row.1, if label.value == row.1.1 then row.1.2.target (label, content) else row.2) := by
  unfold farmProperty
  split
  case h_14 =>
    rw [value_ignored]
    simp_all [Farm.targets, farmElements]
  case h_12 =>
    next h => cases content <;> simp [Farm.targets, farmElements, h, block?]
  all_goals
    next h =>
    simp [Farm.targets, farmElements, h, target_text, target_integer, target_boolean,
      target_strings, target_filter, target_renders, target_cache]

/-- **Each property of a cache is the last one with its label.** -/
theorem mem_targets_cache {label : Sourced String} {items : List Item} {c : Cache}
    (hc : c = (properties "cache" cacheProperty { source := label.source } items).value) :
    ∀ row ∈ c.targets, row.2 = ((lastOf? row.1.1 items).map row.1.2.target).getD .missing := by
  subst hc
  refine forall_mem_table targets_cacheProperty ?_ _ _
  simp [Cache.targets, cacheElements, Target.ofProperty]

/-- **Each property of a farm is the last one with its label.** -/
theorem mem_targets_farm (e : Entry) : ∀ row ∈ (farm e).value.targets,
    row.2 = ((lastOf? row.1.1 e.items).map row.1.2.target).getD .missing := by
  refine forall_mem_table targets_farmProperty ?_ _ _
  simp [Farm.targets, farmElements, Target.ofProperty]

/-- Paths that are not looked up among the properties of a farm or of its cache. -/
def otherPaths : List String :=
  ["farm", "farm.label", "farm.health_check.url"]

/-- The paths of a farm. -/
lemma mem_paths_of_locate {f : Farm} {path : String} {target : Target}
    (h : f.locate path = .ok target) :
    path ∈ otherPaths ∨ path ∈ farmElements.map (fun element => "farm." ++ element.1) ∨
      path ∈ cacheElements.map (fun element => "farm.cache." ++ element.1) := by
  unfold Farm.locate at h
  split at h
  case h_28 => cases h
  all_goals decide

/-- **A path leads to the last property with its label**, and to nothing else. A path to a
property of the farm leads to the last item of the farm with the label at its end: it is missing
if there is no such item, or a value where there should be a block, or the other way round. A
path to a property of the cache leads to the last item with its label in the last `/cache`, if
that is a block. So no other item of the farm changes what a path leads to. There are no other
paths but those to the farm as a whole, to its label and to its health check.

**Proof sketch.** What the paths lead to is a table, of which a property sets the row with its
label alone (`targets_farmProperty`); so each row is as the last property with its label sets it
(`forall_mem_table`). -/
theorem locate_of_last (e : Entry) :
    (∀ element ∈ farmElements, (farm e).value.locate ("farm." ++ element.1) =
      .ok (((lastOf? element.1 e.items).map element.2.target).getD .missing)) ∧
    (∀ element ∈ cacheElements, (farm e).value.locate ("farm.cache." ++ element.1) =
      .ok ((((lastOf? "cache" e.items).bind fun p => p.2.items?).bind fun items =>
        (lastOf? element.1 items).map element.2.target).getD .missing)) ∧
    ∀ path target, (farm e).value.locate path = .ok target →
      path ∈ otherPaths ∨ path ∈ farmElements.map (fun element => "farm." ++ element.1) ∨
        path ∈ cacheElements.map (fun element => "farm.cache." ++ element.1) := by
  refine ⟨fun element helement => ?_, fun element helement => ?_,
    fun path target => mem_paths_of_locate⟩
  · obtain ⟨target, hrow⟩ := (farm e).value.exists_mem_targets helement
    rw [(farm e).value.locate_of_mem_targets _ hrow, mem_targets_farm e _ hrow]
  · have hcache := cache_farm e
    rcases hlast : lastOf? "cache" e.items with _ | ⟨label, text | ⟨brace, items⟩⟩
    · rw [hlast] at hcache
      exact Farm.locate_of_no_cache hcache element helement
    · rw [hlast] at hcache
      exact Farm.locate_of_no_cache hcache element helement
    · rw [hlast] at hcache
      obtain ⟨target, hrow⟩ := Cache.exists_mem_targets
        (properties "cache" cacheProperty { source := label.source } items).value helement
      rw [Farm.locate_of_mem_cacheTargets hcache _ hrow, mem_targets_cache rfl _ hrow]
      rfl

/-- A farm with two caches, with two delays of which the last one is no number, with a block in
place of a truth value, and with items that no path leads to. -/
def crowdedFarm : Entry where
  label := ⟨"site", siteLine 1⟩
  items :=
    [.value (some ⟨"retryDelay", siteLine 2⟩) ⟨"\"7\"", siteLine 2⟩,
      .block (some ⟨"cache", siteLine 3⟩) (siteLine 3)
        [.value (some ⟨"docroot", siteLine 3⟩) ⟨"a", siteLine 3⟩],
      .value none ⟨"stray", siteLine 4⟩,
      .block (some ⟨"cache", siteLine 5⟩) (siteLine 5)
        [.value (some ⟨"docroot", siteLine 6⟩) ⟨"b", siteLine 6⟩,
          .value (some ⟨"docroot", siteLine 7⟩) ⟨"'c'", siteLine 8⟩,
          .value (some ⟨"bogus", siteLine 9⟩) ⟨"d", siteLine 9⟩],
      .value (some ⟨"retryDelay", siteLine 10⟩) ⟨"soon", siteLine 10⟩,
      .block none (siteLine 11) [],
      .block (some ⟨"failover", siteLine 12⟩) (siteLine 12) []]

/-- The paths of this farm lead to what is written last. -/
theorem locate_crowdedFarm :
    ("retryDelay", ElementKind.integer) ∈ farmElements ∧
      ("docroot", ElementKind.text) ∈ cacheElements ∧
      (farm crowdedFarm).value.locate "farm.retryDelay" = .ok (.integer ⟨0, siteLine 10⟩) ∧
      (farm crowdedFarm).value.locate "farm.failover" = .ok .missing ∧
      (farm crowdedFarm).value.locate "farm.filter" = .ok .missing ∧
      (farm crowdedFarm).value.locate "farm.cache.docroot" = .ok (.text ⟨"c", siteLine 8⟩) ∧
      ("farm.cache.docroot" ∈ otherPaths ∨
        "farm.cache.docroot" ∈ farmElements.map (fun element => "farm." ++ element.1) ∨
        "farm.cache.docroot" ∈ cacheElements.map (fun element => "farm.cache." ++ element.1)) := by
  obtain ⟨hfarm, hcache, hpaths⟩ := locate_of_last crowdedFarm
  have hdocroot : (farm crowdedFarm).value.locate "farm.cache.docroot" =
      .ok (.text ⟨"c", siteLine 8⟩) := hcache ("docroot", .text) (by decide)
  exact ⟨by decide, by decide, hfarm ("retryDelay", .integer) (by decide),
    hfarm ("failover", .boolean) (by decide), hfarm ("filter", .filters) (by decide), hdocroot,
    hpaths _ _ hdocroot⟩

end Any

end ProxyLint
