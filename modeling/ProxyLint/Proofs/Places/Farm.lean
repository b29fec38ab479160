import Mathlib.Data.List.Forall2
import Mathlib.Data.List.Induction
import ProxyLint.Farm.Decode
import ProxyLint.Proofs.Places.Any

set_option relaxedAutoImplicit false
set_option autoImplicit false

/-!
# Places of farms

Of several properties with one label the last one counts. A single value has the place of the
value, a list, a cache or a farm that of its label, and a block without a label that of its
brace.

## Main definitions

* `ProxyLint.Any.lastOf?` — the property with a label that counts.
* `ProxyLint.FarmConfig.WrittenAs` — a configuration has the places of a tree.

## Main results

* `ProxyLint.Any.value_properties` — what reading the properties of a block comes to.
* `ProxyLint.Any.forall_mem_table` — a table of properties is filled by those that count.
* `ProxyLint.Any.writtenAs_decode` — the configuration of a tree has its places.
-/

namespace ProxyLint

namespace Any

/-! ### Properties of a block -/

/-- The label and the content of an item with a label. -/
def Item.labelled? : Item → Option (Sourced String × Content)
  | .value label? text => label?.map fun label => (label, .value text)
  | .block label? source items => label?.map fun label => (label, .block source items)

/-- The items of a content that is a block. -/
def Content.items? : Content → Option (List Item)
  | .value _ => none
  | .block _ items => some items

/-- The property with a label that counts, which is the last one. -/
def lastOf? (name : String) (items : List Item) : Option (Sourced String × Content) :=
  ((items.filterMap Item.labelled?).filter fun p => p.1.value == name).getLast?

/-- The items of the last block with a label. -/
def lastBlockOf? (name : String) (items : List Item) : Option (List Item) :=
  ((items.filterMap Item.labelled?).filterMap fun p =>
    if p.1.value == name then p.2.items? else none).getLast?

/-- What is read from a labelled item is its label and its content. -/
lemma value_property? (scope : String) (item : Item) :
    (property? scope item).value = item.labelled? := by
  rcases item with ⟨_ | label, text⟩ | ⟨_ | label, source, items⟩ <;> rfl

section Properties

variable {σ β : Type} {read : σ → Sourced String → Content → Noted σ}

/-- **Reading the properties of a block**, as it is seen by a view of the state that each property
updates. -/
theorem value_properties (view : σ → β) (update : β → Sourced String × Content → β)
    (hread : ∀ s label content,
      view (read s label content).value = update (view s) (label, content))
    (scope : String) (start : σ) (items : List Item) :
    view (properties scope read start items).value =
      (items.filterMap Item.labelled?).foldl update (view start) := by
  unfold properties
  induction items generalizing start with
  | nil => rfl
  | cons item items ih =>
    rw [List.foldlM_cons, Noted.value_bind, ih, Noted.value_bind, value_property?,
      List.filterMap_cons]
    cases item.labelled? with
    | none => rfl
    | some p =>
      dsimp only
      rw [hread, List.foldl_cons]

/-- Of several values that are set one after the other the last one stays. -/
lemma foldl_getD {α : Type} (pick : α → Option β) (as : List α) (b : β) :
    as.foldl (fun b a => (pick a).getD b) b = (as.filterMap pick).getLast?.getD b := by
  induction as using List.reverseRecOn with
  | nil => rfl
  | append_singleton as a ih =>
    rw [List.foldl_concat, ih, List.filterMap_append]
    cases hpick : pick a <;> simp [hpick]

/-- What the last property with a label sets stays. -/
lemma foldl_lastOf? (name : String) (set : Sourced String × Content → β) (b : β)
    (items : List Item) :
    (items.filterMap Item.labelled?).foldl (fun b p => if p.1.value == name then set p else b) b =
      ((lastOf? name items).map set).getD b := by
  have hpick := foldl_getD (fun p : Sourced String × Content =>
    if p.1.value == name then some (set p) else none) (items.filterMap Item.labelled?) b
  rw [lastOf?, ← List.getLast?_map, ← List.filterMap_eq_map, List.filterMap_filter]
  refine Eq.trans ?_ hpick
  congr 1
  funext b p
  split <;> rfl

/-- What the last block with a label sets stays. -/
lemma foldl_lastBlockOf? (name : String) (set : List Item → β) (b : β) (items : List Item) :
    (items.filterMap Item.labelled?).foldl
        (fun b p => if p.1.value == name then (p.2.items?.map set).getD b else b) b =
      ((lastBlockOf? name items).map set).getD b := by
  have hpick := foldl_getD (fun p : Sourced String × Content =>
    (if p.1.value == name then p.2.items? else none).map set) (items.filterMap Item.labelled?) b
  rw [lastBlockOf?, ← List.getLast?_map, List.map_filterMap]
  refine Eq.trans ?_ hpick
  congr 1
  funext b p
  split <;> rfl

end Properties

/-! ### Traces -/

/-- Where a property is written. -/
structure Trace where
  /-- Its own place. -/
  source : Source
  /-- The labels of its entries with their places. -/
  entries : List (Sourced String) := []
  deriving DecidableEq, Repr, Inhabited

/-- An item as a block of a list: with its label, or with an empty label at its brace. -/
def Item.entry? : Item → Option Entry
  | .value _ _ => none
  | .block (some label) _ items => some ⟨label, items⟩
  | .block none source items => some ⟨⟨"", source⟩, items⟩

/-- The shapes of properties. -/
inductive Shape where
  /-- A single value. -/
  | scalar
  /-- A block as a whole. -/
  | whole
  /-- A list of blocks. -/
  | blocks
  deriving DecidableEq, Repr, Inhabited

/-- Where a property of a shape is written: a value at the value, a block at its label. A property
of another shape is left out. -/
def Shape.trace? : Shape → Sourced String × Content → Option Trace
  | .scalar, (_, .value text) => some { source := text.source }
  | .whole, (label, .block _ _) => some { source := label.source }
  | .blocks, (label, .block _ items) =>
    some { source := label.source, entries := (items.filterMap Item.entry?).map Entry.label }
  | _, _ => none

/-- A table, each row of which is set by the properties with its label, is filled by those that
count.

**Proof sketch.** Each property updates all rows of the table at once; so each row by itself
goes through the updates of its own (`foldl_lastOf?`). -/
theorem forall_mem_table {σ κ β : Type} {read : σ → Sourced String → Content → Noted σ}
    {table : σ → List ((String × κ) × β)} {set : κ → Sourced String × Content → β}
    (hread : ∀ s label content, table (read s label content).value = (table s).map fun row =>
      (row.1, if label.value == row.1.1 then set row.1.2 (label, content) else row.2))
    {start : σ} {b : β} (hstart : ∀ row ∈ table start, row.2 = b) (scope : String)
    (items : List Item) : ∀ row ∈ table (properties scope read start items).value,
      row.2 = ((lastOf? row.1.1 items).map (set row.1.2)).getD b := by
  have htable : ∀ (ps : List (Sourced String × Content)) (rows : List ((String × κ) × β)),
      ps.foldl (fun rows p => rows.map fun row =>
          (row.1, if p.1.value == row.1.1 then set row.1.2 p else row.2)) rows =
        rows.map fun row => (row.1, ps.foldl
          (fun b p => if p.1.value == row.1.1 then set row.1.2 p else b) row.2) := by
    intro ps
    induction ps with
    | nil => exact fun rows => (List.map_id rows).symm
    | cons p ps ih =>
      intro rows
      rw [List.foldl_cons, ih, List.map_map]
      rfl
  rw [value_properties table (fun rows p => rows.map fun row =>
    (row.1, if p.1.value == row.1.1 then set row.1.2 p else row.2)) hread, htable]
  intro row hrow
  obtain ⟨old, hold, rfl⟩ := List.mem_map.1 hrow
  dsimp only
  rw [foldl_lastOf?, hstart old hold]

/-- A table of traces is filled by the properties that count. -/
theorem forall_mem_traces {σ : Type} {read : σ → Sourced String → Content → Noted σ}
    {traces : σ → List ((String × Shape) × Option Trace)}
    (hread : ∀ s label content, traces (read s label content).value = (traces s).map fun row =>
      (row.1, if label.value == row.1.1 then row.1.2.trace? (label, content) else row.2))
    {start : σ} (hstart : ∀ row ∈ traces start, row.2 = none) (scope : String)
    (items : List Item) : ∀ row ∈ traces (properties scope read start items).value,
      row.2 = (lastOf? row.1.1 items).bind row.1.2.trace? := by
  intro row hrow
  rw [forall_mem_table hread hstart scope items row hrow]
  cases lastOf? row.1.1 items <;> rfl

end Any

/-- Where a property is written. -/
def Property.trace {α : Type} (p : Property α) : Option Any.Trace :=
  p.map fun v => { source := v.source }

/-- Where a list is written, with its entries. -/
def Property.listTrace {α : Type} (head : α → Sourced String) (p : Property (List α)) :
    Option Any.Trace :=
  p.map fun v => { source := v.source, entries := v.value.map head }

namespace Any

/-- A text is written where its value is. -/
lemma trace_text (label : Sourced String) (content : Content) :
    Property.trace (text label content).value = Shape.scalar.trace? (label, content) := by
  cases content <;> rfl

/-- A number is written where its value is. -/
lemma trace_integer (label : Sourced String) (content : Content) :
    Property.trace (integer label content).value = Shape.scalar.trace? (label, content) := by
  cases content with
  | block source items => rfl
  | value t =>
    have htext : (text label (.value t)).value = some ⟨unquote t.value, t.source⟩ := rfl
    unfold integer
    rw [Noted.value_bind, htext]
    dsimp only
    split <;> rfl

/-- A switch is written where its value is. -/
lemma trace_boolean (label : Sourced String) (content : Content) :
    Property.trace (boolean label content).value = Shape.scalar.trace? (label, content) := by
  cases content with
  | block source items => rfl
  | value t =>
    have htext : (text label (.value t)).value = some ⟨unquote t.value, t.source⟩ := rfl
    unfold boolean
    rw [Noted.value_bind, htext]
    dsimp only
    split
    · rfl
    · split <;> rfl

/-- A list of texts is written where its label is. -/
lemma trace_strings (label : Sourced String) (content : Content) :
    Property.trace (strings label content).value = Shape.whole.trace? (label, content) := by
  cases content <;> rfl

/-- Of the members of a list those are kept that are picked out. -/
lemma value_collect {α β : Type} {read : α → Noted (List β)} {pick : α → Option β}
    (hread : ∀ a, (read a).value = (pick a).toList) (as : List α) :
    (collect read as).value = as.filterMap pick := by
  induction as with
  | nil => rfl
  | cons a as ih =>
    rw [collect, Noted.value_bind, Noted.value_bind, Noted.value_pure, ih, hread,
      List.filterMap_cons]
    cases pick a <;> rfl

section Entries

variable {α : Type} (scope : String) (read : Entry → Noted α)

/-- Of the items of a list the blocks are its entries. -/
lemma value_entries (items : List Item) :
    (entries scope items).value = items.filterMap Item.entry? := by
  refine value_collect (fun item => ?_) items
  rcases item with ⟨_ | label, text⟩ | ⟨_ | label, source, items⟩ <;> rfl

/-- The entries of a list are read one by one. -/
lemma value_readEntries (items : List Item) :
    (readEntries scope read items).value =
      (items.filterMap Item.entry?).map fun e => (read e).value := by
  unfold readEntries
  rw [Noted.value_bind, value_entries]
  induction items.filterMap Item.entry? with
  | nil => rfl
  | cons e es ih =>
    rw [collect, Noted.value_bind, Noted.value_bind, Noted.value_pure, ih]
    rfl

/-- The entries of a list have the labels of its blocks if each has the label of its block. -/
lemma listTrace_entryList {head : α → Sourced String} (hread : ∀ e, head (read e).value = e.label)
    (label : Sourced String) (content : Content) :
    Property.listTrace head (entryList scope read label content).value =
      Shape.blocks.trace? (label, content) := by
  cases content with
  | value text => rfl
  | block source items =>
    have hvalue : (entryList scope read label (.block source items)).value =
      some ⟨(readEntries scope read items).value, label.source⟩ := rfl
    have hlabels : ((items.filterMap Item.entry?).map fun e => (read e).value).map head =
        (items.filterMap Item.entry?).map Entry.label := by
      rw [List.map_map]
      exact List.map_congr_left fun e _ => hread e
    rw [hvalue, value_readEntries, Property.listTrace, Option.map_some, hlabels]
    rfl

end Entries

/-- A label that is not known is noted, unless it is one of those that are ignored; either way
nothing is read. -/
lemma value_ignored {σ : Type} (isKnown : Bool) (scope : String) (label : Sourced String) (s : σ) :
    (do
      if !isKnown then unknownLabel scope label
      return s : Noted σ).value = s := by
  cases isKnown <;> rfl

/-! ### Entries of lists -/

end Any

/-- The label of a render. -/
def Render.head (r : Render) : Sourced String :=
  ⟨r.label, r.source⟩

/-- The label of a filter. -/
def Filter.head (f : Filter) : Sourced String :=
  ⟨f.label, f.source⟩

/-- The label of an entry of a rule list. -/
def CacheRule.head (r : CacheRule) : Sourced String :=
  ⟨r.label, r.source⟩

namespace Any

/-- A view that no property changes is as at the start. -/
lemma value_properties_const {σ β : Type} {read : σ → Sourced String → Content → Noted σ}
    (view : σ → β) (hread : ∀ s label content, view (read s label content).value = view s)
    (scope : String) (start : σ) (items : List Item) :
    view (properties scope read start items).value = view start := by
  rw [value_properties view (fun b _ => b) hread]
  exact List.foldl_fixed _

/-- The head of a render is its label. -/
lemma head_render (e : Entry) : (render e).value.head = e.label := by
  refine value_properties_const Render.head (fun r label content => ?_) _ _ _
  unfold renderProperty
  split
  case h_4 => rw [value_ignored]
  all_goals rfl

/-- The head of a filter is its label. -/
lemma head_filter (e : Entry) : (filter e).value.head = e.label := by
  refine value_properties_const Filter.head (fun f label content => ?_) _ _ _
  unfold filterProperty
  split
  · next field _ => cases field <;> rfl
  · rfl

/-- The head of a rule of the cache is its label. -/
lemma head_cacheRule (scope : String) (e : Entry) : (cacheRule scope e).value.head = e.label := by
  refine value_properties_const CacheRule.head (fun r label content => ?_) _ _ _
  unfold cacheRuleProperty
  split <;> rfl

end Any

/-! ### Caches -/

open Any

/-- Where the properties of a cache are written, by label and shape. -/
def Cache.traces (c : Cache) : List ((String × Shape) × Option Trace) :=
  [(("docroot", .scalar), Property.trace c.docroot),
    (("statfile", .scalar), Property.trace c.statfile),
    (("mode", .scalar), Property.trace c.mode),
    (("statfileslevel", .scalar), Property.trace c.statfileslevel),
    (("gracePeriod", .scalar), Property.trace c.gracePeriod),
    (("serveStaleOnError", .scalar), Property.trace c.serveStaleOnError),
    (("allowAuthorized", .scalar), Property.trace c.allowAuthorized),
    (("enableTTL", .scalar), Property.trace c.enableTTL),
    (("rules", .blocks), Property.listTrace CacheRule.head c.rules),
    (("invalidate", .blocks), Property.listTrace CacheRule.head c.invalidate),
    (("allowedClients", .blocks), Property.listTrace CacheRule.head c.allowedClients),
    (("ignoreUrlParams", .blocks), Property.listTrace CacheRule.head c.ignoreUrlParams),
    (("headers", .whole), Property.trace c.headers)]

/-- A cache has the places of its label and of the items of its block. -/
structure Cache.WrittenAs (c : Cache) (label : Sourced String) (items : List Item) : Prop where
  source : c.source = label.source
  properties : ∀ row ∈ c.traces, row.2 = (lastOf? row.1.1 items).bind row.1.2.trace?

/-- Where the properties of a farm are written, by label and shape. -/
def Farm.traces (f : Farm) : List ((String × Shape) × Option Trace) :=
  [(("clientheaders", .whole), Property.trace f.clientHeaders),
    (("virtualhosts", .whole), Property.trace f.virtualHosts),
    (("renders", .blocks), Property.listTrace Render.head f.renders),
    (("filter", .blocks), Property.listTrace Filter.head f.filter),
    (("cache", .whole), f.cache.map fun c => { source := c.source }),
    (("retryDelay", .scalar), Property.trace f.retryDelay),
    (("numberOfRetries", .scalar), Property.trace f.numberOfRetries),
    (("unavailablePenalty", .scalar), Property.trace f.unavailablePenalty),
    (("failover", .scalar), Property.trace f.failover),
    (("propagateSyndPost", .scalar), Property.trace f.propagateSyndPost),
    (("stickyConnectionsFor", .scalar), Property.trace f.stickyConnectionsFor)]

/-- A farm has the places of its block. -/
structure Farm.WrittenAs (f : Farm) (e : Entry) : Prop where
  label : f.label = e.label
  properties : ∀ row ∈ f.traces, row.2 = (lastOf? row.1.1 e.items).bind row.1.2.trace?
  cache : ∀ c, f.cache = some c → ∃ label brace items,
    lastOf? "cache" e.items = some (label, .block brace items) ∧ c.WrittenAs label items
  healthCheck : Property.trace f.healthCheckUrl =
    (lastBlockOf? "health_check" e.items).bind fun items =>
      (lastOf? "url" items).bind Shape.scalar.trace?

/-- Where the single values of a configuration are written. -/
def FarmConfig.traces (c : FarmConfig) : List ((String × Shape) × Option Trace) :=
  [(("name", .scalar), Property.trace c.name),
    (("ignoreEINTR", .scalar), Property.trace c.ignoreEINTR)]

/-- A configuration has the places of a tree. -/
structure FarmConfig.WrittenAs (c : FarmConfig) (items : List Item) : Prop where
  properties : ∀ row ∈ c.traces, row.2 = (lastOf? row.1.1 items).bind row.1.2.trace?
  farms : List.Forall₂ Farm.WrittenAs c.farms
    (((lastBlockOf? "farms" items).getD []).filterMap Item.entry?)

namespace Any

/-- A property of a cache sets what is written under its label. -/
lemma traces_cacheProperty (c : Cache) (label : Sourced String) (content : Content) :
    (cacheProperty c label content).value.traces = c.traces.map fun row =>
      (row.1, if label.value == row.1.1 then row.1.2.trace? (label, content) else row.2) := by
  unfold cacheProperty
  split
  case h_14 =>
    rw [value_ignored]
    simp_all [Cache.traces]
  all_goals
    next h =>
    simp [Cache.traces, h, ruleList, trace_text, trace_integer, trace_boolean, trace_strings,
      listTrace_entryList, head_cacheRule]

/-- The properties of a cache do not move it. -/
lemma source_cacheProperties (start : Cache) (items : List Item) :
    (properties "cache" cacheProperty start items).value.source = start.source := by
  refine value_properties_const Cache.source (fun c label content => ?_) _ _ _
  unfold cacheProperty
  split
  case h_14 => rw [value_ignored]
  all_goals rfl

/-- A property of a farm sets what is written under its label. -/
lemma traces_farmProperty (f : Farm) (label : Sourced String) (content : Content) :
    (farmProperty f label content).value.traces = f.traces.map fun row =>
      (row.1, if label.value == row.1.1 then row.1.2.trace? (label, content) else row.2) := by
  unfold farmProperty
  split
  case h_14 =>
    rw [value_ignored]
    simp_all [Farm.traces]
  case h_12 =>
    next h => cases content <;> simp [Farm.traces, h, block?]
  case h_5 =>
    next h => cases content <;> simp [Farm.traces, h, cache, block?, Shape.trace?,
      source_cacheProperties]
  all_goals
    next h =>
    simp [Farm.traces, h, trace_text, trace_integer, trace_boolean, trace_strings,
      listTrace_entryList, head_render, head_filter]

/-- What else a property of a farm sets: a cache, and the address of a health check. -/
lemma farmProperty_others (f : Farm) (label : Sourced String) (content : Content) :
    (farmProperty f label content).value.label = f.label ∧
      ((farmProperty f label content).value.cache =
        if label.value == "cache" then (cache label content).value else f.cache) ∧
      ((farmProperty f label content).value.healthCheckUrl =
        if label.value == "health_check" then (content.items?.map fun items =>
          (properties "health_check" healthCheckProperty none items).value).getD f.healthCheckUrl
        else f.healthCheckUrl) := by
  unfold farmProperty
  split
  case h_14 =>
    rw [value_ignored]
    simp_all
  case h_12 =>
    next h => cases content <;> simp [h, block?, Content.items?]
  all_goals
    next h => simp [h]

/-- The cache of a farm is the last property with its label. -/
lemma cache_farm (e : Entry) :
    (farm e).value.cache = (lastOf? "cache" e.items).bind fun p => (cache p.1 p.2).value := by
  have hcache := value_properties Farm.cache
    (fun b p => if p.1.value == "cache" then (cache p.1 p.2).value else b)
    (fun f label content => (farmProperty_others f label content).2.1) "farm"
    { label := e.label } e.items
  rw [foldl_lastOf?] at hcache
  change (farm e).value.cache = _ at hcache
  rw [hcache]
  cases lastOf? "cache" e.items <;> rfl

/-- A cache that is a block is read, and its properties are where they are written. -/
lemma writtenAs_cache (label : Sourced String) (brace : Source) (items : List Item) :
    ∃ c, (cache label (.block brace items)).value = some c ∧ c.WrittenAs label items := by
  refine ⟨(properties "cache" cacheProperty { source := label.source } items).value, rfl,
    source_cacheProperties _ _, forall_mem_traces traces_cacheProperty ?_ _ _⟩
  simp [Cache.traces, Property.trace, Property.listTrace]

/-- The address of a health check is written where its value is. -/
lemma trace_healthCheck (items : List Item) :
    Property.trace (properties "health_check" healthCheckProperty none items).value =
      (lastOf? "url" items).bind Shape.scalar.trace? := by
  have hread : ∀ url label content, Property.trace (healthCheckProperty url label content).value =
      if label.value == "url" then Shape.scalar.trace? (label, content)
      else Property.trace url := by
    intro url label content
    unfold healthCheckProperty
    split
    · next h => simp [h, trace_text]
    · next h => simp [show label.value ≠ "url" from h]
  rw [value_properties Property.trace
    (fun b p => if p.1.value == "url" then Shape.scalar.trace? p else b) hread, foldl_lastOf?]
  cases lastOf? "url" items <;> rfl

/-- A farm has the places of its block.

**Proof sketch.** A farm is the properties of its block read one after the other, each of which
updates what it is about and nothing else (`farmProperty_others`), so that each comes from the last
label of its name. -/
theorem writtenAs_farm (e : Entry) : (farm e).value.WrittenAs e where
  label := value_properties_const Farm.label (fun f label content =>
    (farmProperty_others f label content).1) _ _ _
  properties := by
    refine forall_mem_traces traces_farmProperty ?_ _ _
    simp [Farm.traces, Property.trace, Property.listTrace]
  cache := by
    intro c hc
    have hcache := cache_farm e
    rw [hc] at hcache
    rcases hlast : lastOf? "cache" e.items with _ | ⟨label, text | ⟨brace, items⟩⟩
    · rw [hlast] at hcache
      cases hcache
    · rw [hlast] at hcache
      cases hcache
    · obtain ⟨c', hc', hwritten⟩ := writtenAs_cache label brace items
      rw [hlast, Option.bind_some, hc'] at hcache
      cases hcache
      exact ⟨label, brace, items, rfl, hwritten⟩
  healthCheck := by
    have hurl := value_properties Farm.healthCheckUrl
      (fun b p => if p.1.value == "health_check" then (p.2.items?.map fun items =>
        (properties "health_check" healthCheckProperty none items).value).getD b else b)
      (fun f label content => (farmProperty_others f label content).2.2) "farm"
      { label := e.label } e.items
    rw [foldl_lastBlockOf?] at hurl
    change (farm e).value.healthCheckUrl = _ at hurl
    rw [hurl]
    cases lastBlockOf? "health_check" e.items with
    | none => rfl
    | some items => exact trace_healthCheck items

/-- What a property of the whole configuration sets. -/
lemma configProperty_views (c : FarmConfig) (label : Sourced String) (content : Content) :
    ((configProperty c label content).value.traces = c.traces.map fun row =>
        (row.1, if label.value == row.1.1 then row.1.2.trace? (label, content) else row.2)) ∧
      ((configProperty c label content).value.farms =
        if label.value == "farms" then (content.items?.map fun items =>
          (readEntries "farms" farm items).value).getD c.farms
        else c.farms) := by
  unfold configProperty
  split
  case h_3 =>
    next h => cases content <;> simp [FarmConfig.traces, h, block?, Content.items?]
  case h_4 => simp_all [FarmConfig.traces]
  all_goals
    next h => simp [FarmConfig.traces, h, trace_text, trace_boolean]

/-- The farms of a configuration are the entries of the last list of farms. -/
lemma farms_decode (items : List Item) :
    (decode items).value.farms =
      (((lastBlockOf? "farms" items).getD []).filterMap Item.entry?).map
        fun e => (farm e).value := by
  have hfarms := value_properties FarmConfig.farms
    (fun b p => if p.1.value == "farms" then (p.2.items?.map fun items =>
      (readEntries "farms" farm items).value).getD b else b)
    (fun c label content => (configProperty_views c label content).2) "dispatcher" {} items
  rw [foldl_lastBlockOf?] at hfarms
  change (decode items).value.farms = _ at hfarms
  rw [hfarms]
  cases lastBlockOf? "farms" items with
  | none => rfl
  | some inner => exact value_readEntries "farms" farm inner

/-- **The configuration of a tree has its places.** -/
theorem writtenAs_decode (items : List Item) : (decode items).value.WrittenAs items where
  properties := forall_mem_traces (fun c label content => (configProperty_views c label content).1)
    (by simp [FarmConfig.traces, Property.trace]) _ _
  farms := by
    rw [farms_decode]
    cases lastBlockOf? "farms" items with
    | none => exact .nil
    | some inner =>
      rw [Option.getD_some, List.forall₂_map_left_iff, List.forall₂_same]
      exact fun e _ => writtenAs_farm e

end Any

end ProxyLint
