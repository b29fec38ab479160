import ProxyLint.Proofs.Any.Balance
import ProxyLint.Proofs.Any.MissingBraces
import ProxyLint.Proofs.Farm.Elements
import ProxyLint.Proofs.Farm.Lists

set_option relaxedAutoImplicit false
set_option autoImplicit false

/-!
# Known labels

Two tables say what a farm may hold: one tells the reader of braces which labelled blocks can
stand in a farm, the other tells which properties are known once the tree is built. They do not
agree. A few known labels are refused when a block stands behind them: the farm around the block
is taken to be unclosed, and the block for the next farm. In a document with balanced braces and
known labels this is the only thing that can go wrong.

## Main definitions

* `ProxyLint.Any.farmBodies`, `ProxyLint.Any.cacheBodies` — what is written in farms and caches.
* `ProxyLint.Any.KnownLabels` — the labels in farms and caches are known ones.
* `ProxyLint.Any.refusedLabels` — the known labels of a farm that are refused in front of a block.

## Main results

* `ProxyLint.Any.fitAll_root_iff` — when items are in their places.
* `ProxyLint.FarmConfig.ofTokens_of_knownLabels` — when farms are read as they are written.
* `ProxyLint.FarmConfig.ofTokens_infoTokens` — a farm that is torn apart.
-/

namespace ProxyLint

/-- The faults of braces. -/
def Fault.isOfBraces : Fault → Bool
  | .anyBraceMissing | .anyBraceUnclosed => true
  | _ => false

namespace Any

/-! ### Bodies of farms and caches -/

/-- What stands in the blocks with certain labels. -/
def blocksOf (p : String → Bool) (items : List Item) : List (List Item) :=
  (items.filterMap Item.labelled?).filterMap fun q => if p q.1.value then q.2.items? else none

/-- The labels of the blocks that have one. -/
def blockLabels (items : List Item) : List String :=
  (items.filterMap Item.labelled?).filterMap fun q => q.2.items?.map fun _ => q.1.value

/-- What is written in the farms that have a label. -/
def farmBodies (items : List Item) : List (List Item) :=
  (farmLists items).flatMap (blocksOf fun _ => true)

/-- What is written in the caches of these farms. -/
def cacheBodies (items : List Item) : List (List Item) :=
  (farmBodies items).flatMap (blocksOf (· == "cache"))

/-- The labelled blocks among items are the blocks with a label. -/
lemma mem_filterMap_labelled?_block {items inner : List Item} {label : Sourced String}
    {source : Source} :
    (label, .block source inner) ∈ items.filterMap Item.labelled? ↔
      .block (some label) source inner ∈ items := by
  rw [List.mem_filterMap]
  constructor
  · rintro ⟨⟨_ | _, _⟩ | ⟨_ | _, _, _⟩, hmem, h⟩ <;> cases h
    exact hmem
  · exact fun h => ⟨_, h, rfl⟩

/-- A block is listed if its label is among those that are asked for. -/
lemma mem_blocksOf {p : String → Bool} {items inner : List Item} :
    inner ∈ blocksOf p items ↔
      ∃ label source, .block (some label) source inner ∈ items ∧ p label.value = true := by
  unfold blocksOf
  rw [List.mem_filterMap]
  constructor
  · rintro ⟨⟨label, text | ⟨source, body⟩⟩, hmem, h⟩
    · simp [Content.items?] at h
    · simp only [Content.items?, Option.ite_none_right_eq_some, Option.some.injEq] at h
      obtain ⟨hp, rfl⟩ := h
      exact ⟨label, source, mem_filterMap_labelled?_block.1 hmem, hp⟩
  · rintro ⟨label, source, hmem, hp⟩
    exact ⟨_, mem_filterMap_labelled?_block.2 hmem, if_pos hp⟩

/-- The labels of blocks are listed, and no others. -/
lemma mem_blockLabels {name : String} {items : List Item} :
    name ∈ blockLabels items ↔
      ∃ label source inner, .block (some label) source inner ∈ items ∧ label.value = name := by
  unfold blockLabels
  rw [List.mem_filterMap]
  constructor
  · rintro ⟨⟨label, text | ⟨source, body⟩⟩, hmem, h⟩
    · cases h
    · exact ⟨label, source, body, mem_filterMap_labelled?_block.1 hmem, Option.some.inj h⟩
  · rintro ⟨label, source, inner, hmem, rfl⟩
    exact ⟨_, mem_filterMap_labelled?_block.2 hmem, rfl⟩

/-! ### Items in their places -/

mutual

/-- In a block of no importance everything fits. -/
lemma Item.fits_other (item : Item) : item.fits .other = true := by
  match item with
  | .value _ _ => rfl
  | .block none _ items => exact fitAll_other items
  | .block (some _) _ items => exact fitAll_other items

/-- Nothing is a farm or a cache but at its place. -/
lemma Item.fitAll_other (items : List Item) : fitAll .other items = true := by
  match items with
  | [] => rfl
  | item :: items =>
    rw [fitAll, item.fits_other, fitAll_other items]
    rfl

end

/-- An item is in its place unless it is a labelled block that is not. -/
lemma fits_iff (role : Role) (item : Item) :
    item.fits role = true ↔ ∀ label source inner, item = .block (some label) source inner →
      role.admits label.value = true ∧
        Item.fitAll (role.child (some label.value)) inner = true := by
  rcases item with ⟨_, _⟩ | ⟨_ | label, source, inner⟩
  · simp [Item.fits]
  · have hchild : role.child none = .other := by cases role <;> rfl
    simp [Item.fits, hchild, Item.fitAll_other]
  · simp only [Item.fits, Option.all_some, Option.map_some, Bool.and_eq_true, Item.block.injEq,
      Option.some.injEq]
    constructor
    · rintro h _ _ _ ⟨rfl, rfl, rfl⟩
      exact h
    · exact fun h => h label source inner ⟨rfl, rfl, rfl⟩

/-- Items fit if each of them does. -/
lemma fitAll_iff_forall_mem (role : Role) (items : List Item) :
    Item.fitAll role items = true ↔ ∀ item ∈ items, item.fits role = true := by
  induction items with
  | nil => simp [Item.fitAll]
  | cons item items ih => simp [Item.fitAll, ih]

/-- Items are in their places if they have labels that are admitted, and if the items of those
blocks are in their places that are anything special. -/
lemma fitAll_iff_of_child {role : Role} (child : Role) (p : String → Bool)
    (hchild : ∀ name, role.child (some name) = if p name then child else .other)
    (items : List Item) :
    Item.fitAll role items = true ↔
      (∀ name ∈ blockLabels items, role.admits name = true) ∧
        ∀ inner ∈ blocksOf p items, Item.fitAll child inner = true := by
  rw [fitAll_iff_forall_mem]
  constructor
  · intro h
    refine ⟨fun name hname => ?_, fun inner hinner => ?_⟩
    · obtain ⟨label, source, inner, hmem, rfl⟩ := mem_blockLabels.1 hname
      exact ((fits_iff role _).1 (h _ hmem) label source inner rfl).1
    · obtain ⟨label, source, hmem, hp⟩ := mem_blocksOf.1 hinner
      have hfits := ((fits_iff role _).1 (h _ hmem) label source inner rfl).2
      rw [hchild, if_pos hp] at hfits
      exact hfits
  · rintro ⟨hlabels, hblocks⟩ item hmem
    rw [fits_iff]
    rintro label source inner rfl
    refine ⟨hlabels _ (mem_blockLabels.2 ⟨label, source, inner, hmem, rfl⟩), ?_⟩
    rw [hchild]
    split
    · next hp => exact hblocks inner (mem_blocksOf.2 ⟨label, source, hmem, hp⟩)
    · exact Item.fitAll_other inner

/-- **Items are in their places** if and only if no farm and no cache holds a labelled block but
those that it may hold.

**Proof sketch.** Level by level: the root, a list of farms, a farm and a cache each have one kind
of block that is looked into further, and hold no labelled blocks but those that they admit
(`fitAll_iff_of_child`). -/
theorem fitAll_root_iff (items : List Item) :
    Item.fitAll .root items = true ↔
      (∀ body ∈ farmBodies items, blockLabels body ⊆ farmBlocks) ∧
        ∀ body ∈ cacheBodies items, blockLabels body ⊆ cacheBlocks := by
  have hroot : ∀ items, Item.fitAll .root items = true ↔
      ∀ list ∈ farmLists items, Item.fitAll .farms list = true := by
    intro items
    rw [fitAll_iff_of_child .farms (· == "farms") fun name => by simp [Role.child]]
    exact and_iff_right fun _ _ => rfl
  have hfarms : ∀ list, Item.fitAll .farms list = true ↔
      ∀ body ∈ blocksOf (fun _ => true) list, Item.fitAll .farm body = true := by
    intro list
    rw [fitAll_iff_of_child .farm (fun _ => true) fun name => rfl]
    exact and_iff_right fun _ _ => rfl
  have hcache : ∀ body, Item.fitAll .cache body = true ↔ blockLabels body ⊆ cacheBlocks := by
    intro body
    rw [fitAll_iff_of_child .other (fun _ => false) fun name => rfl]
    simp [Item.fitAll_other, Role.admits, Role.accepts, List.subset_def]
  have hfarm : ∀ body, Item.fitAll .farm body = true ↔ blockLabels body ⊆ farmBlocks ∧
      ∀ inner ∈ blocksOf (· == "cache") body, blockLabels inner ⊆ cacheBlocks := by
    intro body
    rw [fitAll_iff_of_child .cache (· == "cache") fun name => by simp [Role.child]]
    simp [hcache, Role.admits, Role.accepts, List.subset_def]
  simp only [hroot, hfarms, hfarm, farmBodies, cacheBodies, List.mem_flatMap]
  constructor
  · intro h
    refine ⟨?_, ?_⟩
    · rintro body ⟨list, hlist, hbody⟩
      exact (h list hlist body hbody).1
    · rintro inner ⟨body, ⟨list, hlist, hbody⟩, hinner⟩
      exact (h list hlist body hbody).2 inner hinner
  · rintro ⟨hbodies, hcaches⟩ list hlist body hbody
    exact ⟨hbodies body ⟨list, hlist, hbody⟩,
      fun inner hinner => hcaches inner ⟨body, ⟨list, hlist, hbody⟩, hinner⟩⟩

/-! ### Known labels -/

/-- The labels that are known in a farm. -/
def knownFarmLabels : List String :=
  farmElements.map Prod.fst ++ ["health_check", "homepage"] ++ ignoredFarmLabels

/-- The known labels of a farm that are refused in front of a block. -/
def refusedLabels : List String :=
  ["retryDelay", "numberOfRetries", "unavailablePenalty", "failover", "propagateSyndPost",
    "stickyConnectionsFor", "homepage", "info"]

/-- Whether properties of a kind are single values. The others are blocks. -/
def ElementKind.isSingle : ElementKind → Bool
  | .text | .integer | .boolean => true
  | .texts | .filters | .rules | .whole => false

/-- A property of a cache is known, and it is a value or a block as it should be. -/
def KnownInCache (p : Sourced String × Content) : Prop :=
  p.1.value ∈ ignoredCacheLabels ∨
    ∃ element ∈ cacheElements, element.1 = p.1.value ∧ p.2.items?.isSome = !element.2.isSingle

instance (p : Sourced String × Content) : Decidable (KnownInCache p) :=
  inferInstanceAs (Decidable (_ ∨ _))

/-- The labels in farms and caches are known ones. In a farm each may stand in front of a value
or a block, in a cache in front of what it should. -/
structure KnownLabels (items : List Item) : Prop where
  farm : ∀ body ∈ farmBodies items, ∀ p ∈ body.filterMap Item.labelled?,
    p.1.value ∈ knownFarmLabels
  cache : ∀ body ∈ cacheBodies items, ∀ p ∈ body.filterMap Item.labelled?, KnownInCache p

/-- The reader of braces refuses these of the known labels, and no others. -/
lemma mem_farmBlocks_iff {name : String} (h : name ∈ knownFarmLabels) :
    name ∈ farmBlocks ↔ name ∉ refusedLabels := by
  revert name
  decide

/-- A known property of a cache that is a block may stand there. -/
lemma KnownInCache.mem_cacheBlocks {label : Sourced String} {source : Source} {inner : List Item}
    (h : KnownInCache (label, .block source inner)) : label.value ∈ cacheBlocks := by
  rcases h with hmem | ⟨element, hmem, hlabel, hblock⟩
  · have hignored : ignoredCacheLabels ⊆ cacheBlocks := by decide
    exact hignored hmem
  · have htable : ∀ element ∈ cacheElements, true = !element.2.isSingle →
        element.1 ∈ cacheBlocks := by decide
    exact hlabel ▸ htable element hmem hblock

/-- Known labels are in their places unless some are refused. -/
lemma KnownLabels.fitAll_iff {items : List Item} (h : KnownLabels items) :
    Item.fitAll .root items = true ↔
      ∀ body ∈ farmBodies items, ∀ name ∈ blockLabels body, name ∉ refusedLabels := by
  have hcache : ∀ body ∈ cacheBodies items, blockLabels body ⊆ cacheBlocks := by
    intro body hbody name hname
    obtain ⟨label, source, inner, hmem, rfl⟩ := mem_blockLabels.1 hname
    exact (h.cache body hbody _ (mem_filterMap_labelled?_block.2 hmem)).mem_cacheBlocks
  rw [fitAll_root_iff, and_iff_left hcache]
  refine forall₂_congr fun body hbody => forall₂_congr fun name hname => ?_
  obtain ⟨label, source, inner, hmem, rfl⟩ := mem_blockLabels.1 hname
  exact mem_farmBlocks_iff (h.farm body hbody _ (mem_filterMap_labelled?_block.2 hmem))

/-! ### Blocks in place of values -/

/-- What is noted about a block in place of a value. -/
def unexpectedBlock (label : Sourced String) : Finding :=
  ⟨.anyUnexpectedValue, "/" ++ label.value ++ " expects a value, found a block", label.source⟩

section Found

variable {α β σ : Type} {found : Finding}

/-- What is noted about a property of a block is noted about the block. -/
lemma mem_findings_properties {read : σ → Sourced String → Content → Noted σ}
    {p : Sourced String × Content} (hread : ∀ s, found ∈ (read s p.1 p.2).findings)
    (scope : String) {items : List Item} (hmem : p ∈ items.filterMap Item.labelled?) (start : σ) :
    found ∈ (properties scope read start items).findings := by
  unfold properties
  induction items generalizing start with
  | nil => cases hmem
  | cons item items ih =>
    rw [List.foldlM_cons, Noted.findings_bind, List.mem_append, Noted.findings_bind,
      value_property?]
    obtain ⟨item', hitem', hp⟩ := List.mem_filterMap.1 hmem
    rcases List.mem_cons.1 hitem' with rfl | hitem'
    · rw [hp]
      exact .inl (List.mem_append_right _ (hread start))
    · exact .inr (ih (List.mem_filterMap.2 ⟨item', hitem', hp⟩) _)

/-- What is noted for one member of a list is noted for the list. -/
lemma mem_findings_collect {read : α → Noted (List β)} {a : α} {as : List α} (hmem : a ∈ as)
    (hread : found ∈ (read a).findings) : found ∈ (collect read as).findings := by
  induction as with
  | nil => cases hmem
  | cons b as ih =>
    rw [collect, Noted.findings_bind, Noted.findings_bind, Noted.findings_pure, List.append_nil,
      List.mem_append]
    rcases List.mem_cons.1 hmem with rfl | hmem
    · exact .inl hread
    · exact .inr (ih hmem)

/-- What is noted about an entry of a list is noted about the list. -/
lemma mem_findings_readEntries {read : Entry → Noted α} {e : Entry} {items : List Item}
    (scope : String) (hmem : e ∈ items.filterMap Item.entry?)
    (hread : found ∈ (read e).findings) : found ∈ (readEntries scope read items).findings := by
  rw [readEntries, Noted.findings_bind, value_entries]
  refine List.mem_append_right _ (mem_findings_collect hmem ?_)
  exact List.mem_append_left _ hread

/-- What is noted about a farm of any list is noted about the configuration. -/
lemma mem_findings_decode {items list : List Item} {e : Entry} (hlist : list ∈ farmLists items)
    (hmem : e ∈ list.filterMap Item.entry?) (hfarm : found ∈ (farm e).findings) :
    found ∈ (decode items).findings := by
  obtain ⟨label, source, hblock, hlabel⟩ := mem_blocksOf (p := (· == "farms")).1 hlist
  refine mem_findings_properties (p := (label, .block source list)) (fun c => ?_) _
    (mem_filterMap_labelled?_block.2 hblock) _
  obtain ⟨name, place⟩ := label
  obtain rfl : name = "farms" := beq_iff_eq.1 hlabel
  exact List.mem_append_right _
    (List.mem_append_left _ (mem_findings_readEntries "farms" hmem hfarm))

end Found

/-- A block in the place of a single value is noted as unexpected. -/
lemma unexpectedBlock_mem_farmProperty (f : Farm) (place source : Source) (inner : List Item) :
    ∀ element ∈ farmElements, element.2.isSingle = true →
      unexpectedBlock ⟨element.1, place⟩ ∈
        (farmProperty f ⟨element.1, place⟩ (.block source inner)).findings := by
  simp only [farmElements, ElementKind.isSingle, List.forall_mem_cons, List.not_mem_nil,
    Bool.false_eq_true, false_implies, forall_const, true_and, and_true]
  exact ⟨List.mem_cons_self, List.mem_cons_self, List.mem_cons_self, List.mem_cons_self,
    List.mem_cons_self, List.mem_cons_self⟩

/-- **A block in place of a single value of a farm is noted.** -/
theorem unexpectedBlock_mem_farm {e : Entry} {label : Sourced String} {source : Source}
    {inner : List Item} {kind : ElementKind} (helement : (label.value, kind) ∈ farmElements)
    (hkind : kind.isSingle = true) (hmem : .block (some label) source inner ∈ e.items) :
    unexpectedBlock label ∈ (farm e).findings := by
  refine mem_findings_properties (p := (label, .block source inner)) (fun f => ?_) _
    (mem_filterMap_labelled?_block.2 hmem) _
  exact unexpectedBlock_mem_farmProperty f label.source source inner _ helement hkind

end Any

namespace FarmConfig

open Any

/-- **Known labels are read as they are written, unless they are refused.** The braces of a
document are balanced, so that it spells items, and the labels in its farms and caches are known
ones. Then the labels that stand alone are the only faults of braces that are noted if and only if
no farm holds a block with a label that is refused. In this case the items are read as they are
written: there is a farm for each block directly in the last list of farms, with all that is
written in its braces, and for nothing else. A block in place of a single value of a farm is noted
as such wherever it is read.

**Proof sketch.** Known labels that are not refused are those that may stand in front of a block
(`KnownLabels.fitAll_iff`), so the items are read back (`build_eq_of_fitAll`). A label that is
refused makes the reader take a block for unclosed (`exists_isUnclosed_build`). -/
theorem ofTokens_of_knownLabels {ts : List Token} (hbalanced : isBalanced 0 ts = true) :
    (∃ items, Spells items (dropBare ts)) ∧
    ∀ items, Spells items (dropBare ts) → KnownLabels items →
      ((ofTokens ts).findings.filter (fun f => f.fault.isOfBraces) = (bareLabels ts).map dangling ↔
        ∀ body ∈ farmBodies items, ∀ name ∈ blockLabels body, name ∉ refusedLabels) ∧
      ((∀ body ∈ farmBodies items, ∀ name ∈ blockLabels body, name ∉ refusedLabels) →
        ofTokens ts = ⟨(decode items).value,
          (bareLabels ts).map dangling ++ (decode items).findings⟩ ∧
        (ofTokens ts).value.farms = (((farmLists items).getLast?.getD []).filterMap
          Item.entry?).map fun e => (farm e).value) ∧
      ∀ list ∈ farmLists items, ∀ e ∈ list.filterMap Item.entry?, ∀ label source inner kind,
        .block (some label) source inner ∈ e.items → (label.value, kind) ∈ farmElements →
          kind.isSingle = true → unexpectedBlock label ∈ (decode items).findings := by
  refine ⟨(isBalanced_iff_exists_spells ts).1 hbalanced, fun items hspells hknown => ?_⟩
  rw [← hknown.fitAll_iff]
  have hread : Item.fitAll .root items = true → ofTokens ts = ⟨(decode items).value,
      (bareLabels ts).map dangling ++ (decode items).findings⟩ := by
    intro hfits
    rw [ofTokens, build_eq_of_fitAll hspells hfits]
    rfl
  refine ⟨⟨fun hfound => ?_, fun hfits => ?_⟩, fun hfits => ⟨hread hfits, ?_⟩, ?_⟩
  · -- labels that stand alone are noted as missing something, never as unclosed
    by_contra hfits
    obtain ⟨f, hf, hunclosed⟩ := exists_isUnclosed_build hspells (Bool.eq_false_iff.2 hfits)
    have hmem : f ∈ (ofTokens ts).findings.filter fun f => f.fault.isOfBraces := by
      refine List.mem_filter.2 ⟨List.mem_append_left _ hf, ?_⟩
      rw [beq_iff_eq.1 hunclosed]
      rfl
    rw [hfound] at hmem
    obtain ⟨label, -, rfl⟩ := List.mem_map.1 hmem
    cases hunclosed
  · have hbare : ∀ f ∈ (bareLabels ts).map dangling, f.fault.isOfBraces = true := by
      intro f hf
      obtain ⟨label, -, rfl⟩ := List.mem_map.1 hf
      rfl
    have hvalues : ∀ f ∈ (decode items).findings, ¬ f.fault.isOfBraces = true := by
      intro f hf hbraces
      have hof := ofValues_decode items f hf
      revert hof hbraces
      cases f.fault <;> simp [Fault.isOfValues, Fault.isOfBraces]
    rw [hread hfits, List.filter_append, List.filter_eq_self.2 hbare,
      List.filter_eq_nil_iff.2 hvalues, List.append_nil]
  · rw [hread hfits]
    exact farms_decode items
  · intro list hlist e he label source inner kind hmem helement hkind
    exact mem_findings_decode hlist he (unexpectedBlock_mem_farm helement hkind hmem)

/-- Two farms, one of them without a label. -/
def knownItems : List Item :=
  [.block (some ⟨"farms", siteLine 2⟩) (siteLine 2)
    [.block (some ⟨"site", siteLine 3⟩) (siteLine 3)
        [.block (some ⟨"statistics", siteLine 4⟩) (siteLine 4) [.value none ⟨"x", siteLine 4⟩],
          .block (some ⟨"cache", siteLine 5⟩) (siteLine 5)
            [.value (some ⟨"docroot", siteLine 6⟩) ⟨"/var", siteLine 6⟩,
              .block (some ⟨"rules", siteLine 7⟩) (siteLine 7) []],
          .value (some ⟨"failover", siteLine 8⟩) ⟨"1", siteLine 8⟩],
      .block none (siteLine 9)
        [.block (some ⟨"retryDelay", siteLine 10⟩) (siteLine 10) []]]]

/-- These farms, behind a label that stands alone. -/
def knownTokens : List Token :=
  [⟨.label "name", siteLine 1⟩, ⟨.label "farms", siteLine 2⟩, ⟨.opening, siteLine 2⟩,
    ⟨.label "site", siteLine 3⟩, ⟨.opening, siteLine 3⟩,
    ⟨.label "statistics", siteLine 4⟩, ⟨.opening, siteLine 4⟩, ⟨.value "x", siteLine 4⟩,
    ⟨.closing, siteLine 4⟩,
    ⟨.label "cache", siteLine 5⟩, ⟨.opening, siteLine 5⟩,
    ⟨.label "docroot", siteLine 6⟩, ⟨.value "/var", siteLine 6⟩,
    ⟨.label "rules", siteLine 7⟩, ⟨.opening, siteLine 7⟩, ⟨.closing, siteLine 7⟩,
    ⟨.closing, siteLine 7⟩,
    ⟨.label "failover", siteLine 8⟩, ⟨.value "1", siteLine 8⟩, ⟨.closing, siteLine 8⟩,
    ⟨.opening, siteLine 9⟩,
    ⟨.label "retryDelay", siteLine 10⟩, ⟨.opening, siteLine 10⟩, ⟨.closing, siteLine 10⟩,
    ⟨.closing, siteLine 10⟩, ⟨.closing, siteLine 11⟩]

/-- Both farms are read as they are written. Of the faults of braces only the label that stands
alone is noted, and so is the block in place of a delay. -/
theorem ofTokens_knownTokens :
    isBalanced 0 knownTokens = true ∧ Spells knownItems (dropBare knownTokens) ∧
      KnownLabels knownItems ∧
      (ofTokens knownTokens).findings.filter (fun f => f.fault.isOfBraces) =
        [dangling ⟨"name", siteLine 1⟩] ∧
      (ofTokens knownTokens).value.farms.map Farm.label =
        [⟨"site", siteLine 3⟩, ⟨"", siteLine 9⟩] ∧
      unexpectedBlock ⟨"retryDelay", siteLine 10⟩ ∈ (decode knownItems).findings := by
  have hbalanced : isBalanced 0 knownTokens = true := by decide
  have hspells : Spells knownItems (dropBare knownTokens) :=
    .block (siteLine 11)
      (.block (siteLine 8)
        (.block (siteLine 4) (.value .nil)
          (.block (siteLine 7) (.value (.block (siteLine 7) .nil .nil)) (.value .nil)))
        (.block (siteLine 10) (.block (siteLine 10) .nil .nil) .nil)) .nil
  have hknown : KnownLabels knownItems := ⟨by decide, by decide⟩
  have hrefused : ∀ body ∈ farmBodies knownItems, ∀ name ∈ blockLabels body,
      name ∉ refusedLabels := by decide
  obtain ⟨-, hitems⟩ := ofTokens_of_knownLabels hbalanced
  obtain ⟨hbraces, hread, hsingle⟩ := hitems knownItems hspells hknown
  refine ⟨hbalanced, hspells, hknown, hbraces.2 hrefused, ?_, ?_⟩
  · rw [(hread hrefused).2]
    rfl
  · exact hsingle _ (List.mem_singleton.2 rfl) ⟨⟨"", siteLine 9⟩, _⟩
      (List.mem_cons_of_mem _ (List.mem_singleton.2 rfl)) ⟨"retryDelay", siteLine 10⟩
      (siteLine 10) [] .integer (List.mem_singleton.2 rfl) (by decide) rfl

/-- A farm with a block that is not analysed, and with a value behind it. -/
def infoItems : List Item :=
  [.block (some ⟨"farms", siteLine 1⟩) (siteLine 1)
    [.block (some ⟨"site", siteLine 2⟩) (siteLine 2)
      [.block (some ⟨"info", siteLine 3⟩) (siteLine 3) [.value none ⟨"x", siteLine 3⟩],
        .value (some ⟨"failover", siteLine 4⟩) ⟨"1", siteLine 4⟩]]]

/-- The spelling of this farm. -/
def infoTokens : List Token :=
  [⟨.label "farms", siteLine 1⟩, ⟨.opening, siteLine 1⟩,
    ⟨.label "site", siteLine 2⟩, ⟨.opening, siteLine 2⟩,
    ⟨.label "info", siteLine 3⟩, ⟨.opening, siteLine 3⟩, ⟨.value "x", siteLine 3⟩,
    ⟨.closing, siteLine 3⟩,
    ⟨.label "failover", siteLine 4⟩, ⟨.value "1", siteLine 4⟩,
    ⟨.closing, siteLine 5⟩, ⟨.closing, siteLine 6⟩]

/-- The block is taken for a farm, the value gets lost with the farm in which it is written, and
braces are noted to be missing where none is. -/
theorem ofTokens_infoTokens :
    isBalanced 0 infoTokens = true ∧ Spells infoItems infoTokens ∧ KnownLabels infoItems ∧
      bareLabels infoTokens = [] ∧
      (decode infoItems).value.farms.map (fun f => (f.label.value, f.failover.isSome)) =
        [("site", true)] ∧
      (ofTokens infoTokens).value.farms.map (fun f => (f.label.value, f.failover.isSome)) =
        [("site", false), ("info", false)] ∧
      (ofTokens infoTokens).findings.filter (fun f => f.fault.isOfBraces) =
        [⟨.anyBraceUnclosed, "block /site is never closed", siteLine 2⟩, stray (siteLine 6)] := by
  have hspells : Spells infoItems infoTokens :=
    .block (siteLine 6)
      (.block (siteLine 5) (.block (siteLine 3) (.value .nil) (.value .nil)) .nil) .nil
  exact ⟨by decide, hspells, ⟨by decide, by decide⟩, by decide, by decide, by decide, by decide⟩

end FarmConfig

end ProxyLint
