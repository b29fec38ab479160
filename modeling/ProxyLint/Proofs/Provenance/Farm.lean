import ProxyLint.Farm.Decode
import ProxyLint.Proofs.Provenance.Any

set_option relaxedAutoImplicit false
set_option autoImplicit false

/-!
# Places of farms

A tree of blocks becomes a typed configuration, whatever the places in it are.
Every reader of a property, of an entry and of a list commutes with forgetting
places, and so does the whole reading of lines.

## Main results

* `ProxyLint.Any.properties_forget` — labelled items are read in the same way
  wherever they are written if each of them is.
* `ProxyLint.Any.decode_forget` — so is a whole tree.
* `ProxyLint.FarmConfig.ofLines_forget` — so are lines.
-/

namespace ProxyLint.Any

open Placed

/-! ### Shapes -/

instance : Placed Content :=
  ⟨fun
    | .value text => .value (forget text)
    | .block _ items => .block .unknown (forget items)⟩

instance : Placed Entry := ⟨fun e => ⟨forget e.label, forget e.items⟩⟩

/-- A labelled item is read the same wherever it is written. -/
lemma property?_forget (scope : String) (item : Item) :
    property? scope (forget item) = forget (property? scope item) := by
  cases item with
  | value label? text => cases label? <;> simp only [forget_value] <;> rfl
  | block label? source items => cases label? <;> simp only [forget_block] <;> rfl

/-- Labelled items are read in the same way wherever they are written if each of
them is. -/
theorem properties_forget {σ : Type} [Placed σ] (scope : String)
    {read : σ → Sourced String → Content → Noted σ}
    (hread : ∀ s label content,
      read (forget s) (forget label) (forget content) = forget (read s label content))
    (start : σ) (items : List Item) :
    properties scope read (forget start) (forget items) =
      forget (properties scope read start items) := by
  refine foldlM_forget (fun state item => ?_) items start
  rw [property?_forget]
  refine forget_bind (fun found => ?_) _
  cases found with
  | none => rfl
  | some p => exact hread state p.1 p.2

/-- An unknown label is the same fault wherever it is written. -/
lemma unknownLabel_forget (scope : String) (label : Sourced String) :
    unknownLabel scope (forget label) = forget (unknownLabel scope label) := rfl

/-- A deprecated label is the same fault wherever it is written. -/
lemma deprecatedLabel_forget (scope : String) (label : Sourced String) :
    deprecatedLabel scope (forget label) = forget (deprecatedLabel scope label) := rfl

/-- A label that is not known is noted, unless it is one of those that are ignored. -/
lemma ignored_forget {α : Type} [Placed α] (scope : String) (ignored : List String)
    (label : Sourced String) (a : α) :
    (do
      if !ignored.contains label.value then unknownLabel scope (forget label)
      return forget a : Noted α) =
    forget (do
      if !ignored.contains label.value then unknownLabel scope label
      return a : Noted α) := by
  simp only
  split
  · rw [unknownLabel_forget]
    exact forget_bind (fun (_ : Unit) => rfl) _
  · rfl

/-- What is read and then put somewhere is the same wherever it is written. -/
lemma put_forget {α β : Type} [Placed α] [Placed β] {x x' : Noted α} {put put' : α → β}
    (hx : x' = forget x) (hput : ∀ a, put' (forget a) = forget (put a)) :
    (do return put' (← x') : Noted β) = forget (do return put (← x) : Noted β) := by
  rw [hx]
  refine forget_bind (fun a => ?_) _
  rw [hput, forget_pure]

/-- A block is read the same wherever it is written. -/
lemma block?_forget (label : Sourced String) (content : Content) :
    block? (forget label) (forget content) = forget (block? label content) := by
  cases content <;> rfl

/-- A text is read the same wherever it is written. -/
lemma text_forget (label : Sourced String) (content : Content) :
    text (forget label) (forget content) = forget (text label content) := by
  cases content <;> rfl

/-- A number is read the same wherever it is written. -/
lemma integer_forget (label : Sourced String) (content : Content) :
    integer (forget label) (forget content) = forget (integer label content) := by
  unfold integer
  rw [text_forget]
  refine forget_bind (fun found => ?_) _
  cases found with
  | none => rfl
  | some t =>
    simp only [forget_some, value_forget_sourced, forget_string]
    cases Text.readInt64? (Text.strip t.value.toList) <;> rfl

/-- A switch is read the same wherever it is written. -/
lemma boolean_forget (label : Sourced String) (content : Content) :
    boolean (forget label) (forget content) = forget (boolean label content) := by
  unfold boolean
  rw [text_forget]
  refine forget_bind (fun found => ?_) _
  cases found with
  | none => rfl
  | some t =>
    simp only [forget_some, value_forget_sourced, forget_string]
    split
    · rfl
    · split <;> rfl

/-- A value in a list is read the same wherever it is written. -/
lemma plainValue_forget (label : Sourced String) (item : Item) :
    plainValue (forget label) (forget item) = forget (plainValue label item) := by
  cases item with
  | value label? text => cases label? <;> simp only [forget_value] <;> rfl
  | block label? source items => cases label? <;> simp only [forget_block] <;> rfl

/-- Joined lists are read in the same way wherever their members are written if each
member is. -/
lemma collect_forget {α β : Type} [Placed α] [Placed β] {read read' : α → Noted (List β)}
    (hread : ∀ a, read' (forget a) = forget (read a)) (as : List α) :
    collect read' (forget as) = forget (collect read as) := by
  induction as with
  | nil => rfl
  | cons a as ih =>
    rw [forget_cons, collect, collect, hread, ih]
    refine forget_bind (fun first => ?_) _
    refine forget_bind (fun others => ?_) _
    rw [forget_pure, forget_append]

/-- A list of texts is read the same wherever it is written. -/
lemma strings_forget (label : Sourced String) (content : Content) :
    strings (forget label) (forget content) = forget (strings label content) := by
  unfold strings
  rw [block?_forget]
  refine forget_bind (fun found => ?_) _
  cases found with
  | none => rfl
  | some items =>
    simp only [forget_some]
    rw [collect_forget (plainValue_forget label)]
    exact forget_bind (fun (_ : List String) => rfl) _

/-- An entry is read the same wherever it is written. -/
lemma entry_forget (scope : String) (item : Item) :
    entry scope (forget item) = forget (entry scope item) := by
  cases item with
  | value label? text => cases label? <;> simp only [forget_value] <;> rfl
  | block label? source items => cases label? <;> simp only [forget_block] <;> rfl

section Entries

variable {α : Type} [Placed α] {read : Entry → Noted α}

/-- Entries are read the same wherever they are written if each of them is. -/
lemma readEntries_forget (scope : String) (hread : ∀ e, read (forget e) = forget (read e))
    (items : List Item) :
    readEntries scope read (forget items) = forget (readEntries scope read items) := by
  unfold readEntries entries
  rw [collect_forget (entry_forget scope)]
  refine forget_bind (fun es => ?_) _
  refine collect_forget (fun e => ?_) es
  rw [hread]
  exact forget_bind (fun (_ : α) => rfl) _

/-- A list of entries is read the same wherever it is written if each entry is. -/
lemma entryList_forget (scope : String) (hread : ∀ e, read (forget e) = forget (read e))
    (label : Sourced String) (content : Content) :
    entryList scope read (forget label) (forget content) =
      forget (entryList scope read label content) := by
  unfold entryList
  rw [block?_forget]
  refine forget_bind (fun found => ?_) _
  cases found with
  | none => rfl
  | some items =>
    simp only [forget_some]
    rw [readEntries_forget scope hread]
    exact forget_bind (fun (_ : List α) => rfl) _

end Entries

/-! ### Entries of lists -/

instance : Placed Render := ⟨fun r => { r with source := .unknown }⟩

instance : Placed Filter := ⟨fun f => { f with source := .unknown }⟩

instance : Placed CacheRule := ⟨fun r => { r with source := .unknown }⟩

/-- A text in a rule is read the same wherever it is written. -/
lemma plainText_forget (label : Sourced String) (content : Content) :
    plainText (forget label) (forget content) = forget (plainText label content) := by
  unfold plainText
  rw [text_forget]
  refine forget_bind (fun found => ?_) _
  cases found <;> rfl

/-- A text that is read and then put somewhere. -/
lemma putText_forget {β : Type} [Placed β] {put put' : Option String → β}
    (label : Sourced String) (content : Content) (hput : ∀ a, put' a = forget (put a)) :
    (do return put' (← plainText (forget label) (forget content)) : Noted β) =
      forget (do return put (← plainText label content) : Noted β) := by
  refine put_forget (plainText_forget label content) fun a => ?_
  cases a <;> exact hput _

/-- A property of a render is read the same wherever it is written. -/
lemma renderProperty_forget (r : Render) (label : Sourced String) (content : Content) :
    renderProperty (forget r) (forget label) (forget content) =
      forget (renderProperty r label content) := by
  unfold renderProperty
  rw [value_forget_sourced, forget_string]
  split
  · exact putText_forget label content fun _ => rfl
  · exact putText_forget label content fun _ => rfl
  · refine put_forget (integer_forget label content) fun n => ?_
    cases n <;> rfl
  · exact ignored_forget "render" ignoredRenderLabels label r

/-- A render is read the same wherever it is written. -/
lemma render_forget (e : Entry) : render (forget e) = forget (render e) :=
  properties_forget "render" renderProperty_forget
    { label := e.label.value, source := e.label.source } e.items

/-- A property of a filter is read the same wherever it is written. -/
lemma filterProperty_forget (f : Filter) (label : Sourced String) (content : Content) :
    filterProperty (forget f) (forget label) (forget content) =
      forget (filterProperty f label content) := by
  unfold filterProperty
  rw [value_forget_sourced, forget_string]
  split
  · simp only
    split
    · rw [deprecatedLabel_forget]
      refine forget_bind (fun _ => ?_) _
      exact putText_forget label content fun _ => rfl
    · exact putText_forget label content fun _ => rfl
  · rw [unknownLabel_forget]
    exact forget_bind (fun (_ : Unit) => rfl) _

/-- A filter is read the same wherever it is written. -/
lemma filter_forget (e : Entry) : filter (forget e) = forget (filter e) :=
  properties_forget "filter" filterProperty_forget
    { label := e.label.value, source := e.label.source } e.items

/-- A property of a rule of the cache is read the same wherever it is written. -/
lemma cacheRuleProperty_forget (scope : String) (r : CacheRule) (label : Sourced String)
    (content : Content) :
    cacheRuleProperty scope (forget r) (forget label) (forget content) =
      forget (cacheRuleProperty scope r label content) := by
  unfold cacheRuleProperty
  rw [value_forget_sourced, forget_string]
  split
  · exact putText_forget label content fun _ => rfl
  · exact putText_forget label content fun _ => rfl
  · rw [unknownLabel_forget]
    exact forget_bind (fun (_ : Unit) => rfl) _

/-- A rule of the cache is read the same wherever it is written. -/
lemma cacheRule_forget (scope : String) (e : Entry) :
    cacheRule scope (forget e) = forget (cacheRule scope e) :=
  properties_forget scope (cacheRuleProperty_forget scope)
    { label := e.label.value, source := e.label.source } e.items

/-- A list of rules is read the same wherever it is written. -/
lemma ruleList_forget (label : Sourced String) (content : Content) :
    ruleList (forget label) (forget content) = forget (ruleList label content) :=
  entryList_forget label.value (cacheRule_forget label.value) label content

/-! ### Caches and farms -/

instance : Placed Cache :=
  ⟨fun c =>
    { source := .unknown
      docroot := forget c.docroot
      statfile := forget c.statfile
      mode := forget c.mode
      statfileslevel := forget c.statfileslevel
      gracePeriod := forget c.gracePeriod
      serveStaleOnError := forget c.serveStaleOnError
      allowAuthorized := forget c.allowAuthorized
      enableTTL := forget c.enableTTL
      rules := forget c.rules
      invalidate := forget c.invalidate
      allowedClients := forget c.allowedClients
      ignoreUrlParams := forget c.ignoreUrlParams
      headers := forget c.headers }⟩

instance : Placed Farm :=
  ⟨fun f =>
    { label := forget f.label
      clientHeaders := forget f.clientHeaders
      virtualHosts := forget f.virtualHosts
      renders := forget f.renders
      filter := forget f.filter
      cache := forget f.cache
      retryDelay := forget f.retryDelay
      numberOfRetries := forget f.numberOfRetries
      unavailablePenalty := forget f.unavailablePenalty
      failover := forget f.failover
      propagateSyndPost := forget f.propagateSyndPost
      stickyConnectionsFor := forget f.stickyConnectionsFor
      healthCheckUrl := forget f.healthCheckUrl }⟩

instance : Placed FarmConfig :=
  ⟨fun c => ⟨forget c.name, forget c.ignoreEINTR, forget c.farms⟩⟩

/-- A property of a cache is read the same wherever it is written. -/
lemma cacheProperty_forget (c : Cache) (label : Sourced String) (content : Content) :
    cacheProperty (forget c) (forget label) (forget content) =
      forget (cacheProperty c label content) := by
  unfold cacheProperty
  rw [value_forget_sourced, forget_string]
  split
  · exact put_forget (text_forget label content) fun _ => rfl
  · exact put_forget (text_forget label content) fun _ => rfl
  · exact put_forget (text_forget label content) fun _ => rfl
  · exact put_forget (integer_forget label content) fun _ => rfl
  · exact put_forget (integer_forget label content) fun _ => rfl
  · exact put_forget (boolean_forget label content) fun _ => rfl
  · exact put_forget (boolean_forget label content) fun _ => rfl
  · exact put_forget (boolean_forget label content) fun _ => rfl
  · exact put_forget (ruleList_forget label content) fun _ => rfl
  · exact put_forget (ruleList_forget label content) fun _ => rfl
  · exact put_forget (ruleList_forget label content) fun _ => rfl
  · exact put_forget (ruleList_forget label content) fun _ => rfl
  · exact put_forget (strings_forget label content) fun _ => rfl
  · exact ignored_forget "cache" ignoredCacheLabels label c

/-- A cache is read the same wherever it is written. -/
lemma cache_forget (label : Sourced String) (content : Content) :
    cache (forget label) (forget content) = forget (cache label content) := by
  unfold cache
  rw [block?_forget]
  refine forget_bind (fun found => ?_) _
  cases found with
  | none => rfl
  | some items =>
    have hitems := properties_forget "cache" cacheProperty_forget { source := label.source } items
    exact put_forget hitems fun _ => rfl

/-- A property of a health check is read the same wherever it is written. -/
lemma healthCheckProperty_forget (url : Property String) (label : Sourced String)
    (content : Content) :
    healthCheckProperty (forget url) (forget label) (forget content) =
      forget (healthCheckProperty url label content) := by
  unfold healthCheckProperty
  rw [value_forget_sourced, forget_string]
  split
  · exact text_forget label content
  · rw [unknownLabel_forget]
    exact forget_bind (fun (_ : Unit) => rfl) _

/-- A property of a farm is read the same wherever it is written. -/
lemma farmProperty_forget (f : Farm) (label : Sourced String) (content : Content) :
    farmProperty (forget f) (forget label) (forget content) =
      forget (farmProperty f label content) := by
  unfold farmProperty
  rw [value_forget_sourced, forget_string]
  split
  · exact put_forget (strings_forget label content) fun _ => rfl
  · exact put_forget (strings_forget label content) fun _ => rfl
  · exact put_forget (entryList_forget "renders" render_forget label content) fun _ => rfl
  · exact put_forget (entryList_forget "filter" filter_forget label content) fun _ => rfl
  · exact put_forget (cache_forget label content) fun _ => rfl
  · exact put_forget (integer_forget label content) fun _ => rfl
  · exact put_forget (integer_forget label content) fun _ => rfl
  · exact put_forget (integer_forget label content) fun _ => rfl
  · exact put_forget (boolean_forget label content) fun _ => rfl
  · exact put_forget (boolean_forget label content) fun _ => rfl
  · exact put_forget (text_forget label content) fun _ => rfl
  · rw [block?_forget]
    refine forget_bind (fun found => ?_) _
    cases found with
    | none => rfl
    | some items =>
      have hitems := properties_forget "health_check" healthCheckProperty_forget none items
      exact put_forget hitems fun _ => rfl
  · rw [deprecatedLabel_forget]
    exact forget_bind (fun (_ : Unit) => rfl) _
  · exact ignored_forget "farm" ignoredFarmLabels label f

/-- A farm is read the same wherever it is written. -/
lemma farm_forget (e : Entry) : farm (forget e) = forget (farm e) :=
  properties_forget "farm" farmProperty_forget { label := e.label } e.items

/-! ### Configurations -/

/-- A property of the configuration is read the same wherever it is written. -/
lemma configProperty_forget (c : FarmConfig) (label : Sourced String) (content : Content) :
    configProperty (forget c) (forget label) (forget content) =
      forget (configProperty c label content) := by
  unfold configProperty
  rw [value_forget_sourced, forget_string]
  split
  · exact put_forget (text_forget label content) fun _ => rfl
  · exact put_forget (boolean_forget label content) fun _ => rfl
  · rw [block?_forget]
    refine forget_bind (fun found => ?_) _
    cases found with
    | none => rfl
    | some items => exact put_forget (readEntries_forget "farms" farm_forget items) fun _ => rfl
  · rw [unknownLabel_forget]
    exact forget_bind (fun (_ : Unit) => rfl) _

/-- The configuration of a tree is the same wherever the tree is written. -/
theorem decode_forget (items : List Item) : decode (forget items) = forget (decode items) :=
  properties_forget "dispatcher" configProperty_forget {} items

end ProxyLint.Any

namespace ProxyLint.FarmConfig

open Placed

/-- **The configuration of lines is the same wherever the lines are written.** -/
theorem ofLines_forget (ls : List Line) : ofLines (forget ls) = forget (ofLines ls) := by
  unfold ofLines
  rw [Any.tokens_forget]
  refine forget_bind (fun tokens => ?_) _
  rw [Any.build_forget]
  exact forget_bind Any.decode_forget _

end ProxyLint.FarmConfig
