import ProxyLint.Any.Block
import ProxyLint.Farm
import ProxyLint.Include

/-!
# Reading farms

A block tree becomes a typed configuration. Of several properties with one label
the last one counts. What does not fit is noted and left out; an integer that
cannot be read counts as 0, and a truth value as false.

## Main definitions

* `ProxyLint.Any.text`, `integer`, `boolean`, `strings` — the shapes of values.
* `ProxyLint.Any.entries` — the blocks of a list.
* `ProxyLint.Any.decode` — the configuration that a tree stands for.
* `ProxyLint.FarmConfig.ofLines` — the configuration that lines stand for.
-/

set_option relaxedAutoImplicit false
set_option autoImplicit false

namespace ProxyLint.Any

/-! ### Shapes -/

/-- What a label stands in front of. -/
inductive Content where
  /-- A value, as written. -/
  | value (text : Sourced String)
  /-- A block. -/
  | block (source : Source) (items : List Item)
  deriving Repr, Inhabited

/-- The label and the content of an item; an item without a label is noted. -/
def property? (scope : String) : Item → Noted (Option (Sourced String × Content))
  | .value (some label) text => pure (some (label, .value text))
  | .block (some label) source items => pure (some (label, .block source items))
  | .value none text => do
    note .anyUnexpectedValue ("unexpected value " ++ text.value ++ " in " ++ scope) text.source
    return none
  | .block none source _ => do
    note .anyUnexpectedValue ("unlabeled block in " ++ scope) source
    return none

/-- Reads the labelled items of a block one after the other. -/
def properties {σ : Type} (scope : String) (read : σ → Sourced String → Content → Noted σ)
    (start : σ) (items : List Item) : Noted σ :=
  items.foldlM (fun state item => do
    match ← property? scope item with
    | some (label, content) => read state label content
    | none => return state) start

/-- Notes a label that is not known. -/
def unknownLabel (scope : String) (label : Sourced String) : Noted Unit :=
  note .anyUnknownLabel ("unknown property /" ++ label.value ++ " in " ++ scope) label.source

/-- Notes a label that is out of use. -/
def deprecatedLabel (scope : String) (label : Sourced String) : Noted Unit :=
  note .anyDeprecatedProperty ("/" ++ label.value ++ " in " ++ scope ++ " is deprecated")
    label.source

/-- The items of a block; a value is noted. -/
def block? (label : Sourced String) : Content → Noted (Option (List Item))
  | .block _ items => pure (some items)
  | .value text => do
    note .anyUnexpectedValue ("/" ++ label.value ++ " expects a block, found " ++ text.value)
      label.source
    return none

/-- A text without its quotes; a block is noted. -/
def text (label : Sourced String) : Content → Noted (Property String)
  | .value t => pure (some ⟨unquote t.value, t.source⟩)
  | .block _ _ => do
    note .anyUnexpectedValue ("/" ++ label.value ++ " expects a value, found a block") label.source
    return none

/-- An integer. -/
def integer (label : Sourced String) (content : Content) : Noted (Property Int) := do
  match ← text label content with
  | none => return none
  | some t =>
    match Text.readInt64? (Text.strip t.value.toList) with
    | some n => return some ⟨n, t.source⟩
    | none =>
      note .anyInvalidInteger
        ("/" ++ label.value ++ " expects an integer, found \"" ++ t.value ++ "\"") t.source
      return some ⟨0, t.source⟩

/-- A truth value. -/
def boolean (label : Sourced String) (content : Content) : Noted (Property Bool) := do
  match ← text label content with
  | none => return none
  | some t =>
    let word := Text.lower (Text.trim t.value)
    if word == "1" || word == "true" then return some ⟨true, t.source⟩
    else if word == "0" || word == "false" then return some ⟨false, t.source⟩
    else
      note .anyUnexpectedValue
        ("/" ++ label.value ++ " expects \"0\" or \"1\", found \"" ++ word ++ "\"") t.source
      return some ⟨false, t.source⟩

/-- One value of a list of texts; anything with a label or braces is noted. -/
def plainValue (label : Sourced String) : Item → Noted (List String)
  | .value none t => pure [unquote t.value]
  | .value (some inner) _ | .block (some inner) _ _ => do
    note .anyUnexpectedValue
      ("/" ++ label.value ++ " expects plain values, found /" ++ inner.value) inner.source
    return []
  | .block none source _ => do
    note .anyUnexpectedValue ("/" ++ label.value ++ " expects plain values, found a block") source
    return []

/-- The lists that a function reads from the members of a list, joined. -/
def collect {α β : Type} (read : α → Noted (List β)) : List α → Noted (List β)
  | [] => pure []
  | a :: rest => do
    let first ← read a
    let others ← collect read rest
    return first ++ others

/-- A list of texts. -/
def strings (label : Sourced String) (content : Content) : Noted (Property (List String)) := do
  match ← block? label content with
  | none => return none
  | some items =>
    let values ← collect (plainValue label) items
    return some ⟨values, label.source⟩

/-- A block of a list, with its label, or with an empty label at its brace. -/
structure Entry where
  /-- The label and where the entry is written. -/
  label : Sourced String
  /-- The items of the block. -/
  items : List Item
  deriving Repr, Inhabited

/-- An item as a block of a list; values are noted. -/
def entry (scope : String) : Item → Noted (List Entry)
  | .block (some label) _ items => pure [⟨label, items⟩]
  | .block none source items => pure [⟨⟨"", source⟩, items⟩]
  | .value (some label) t => do
    note .anyUnexpectedValue
      ("/" ++ label.value ++ " in " ++ scope ++ " must be a block, found " ++ t.value) t.source
    return []
  | .value none t => do
    note .anyUnexpectedValue ("unexpected value " ++ t.value ++ " in " ++ scope) t.source
    return []

/-- The blocks of a list. -/
def entries (scope : String) (items : List Item) : Noted (List Entry) :=
  collect (entry scope) items

/-- The blocks of a list, each read by a function once all are known. -/
def readEntries {α : Type} (scope : String) (read : Entry → Noted α) (items : List Item) :
    Noted (List α) := do
  let es ← entries scope items
  collect (fun e => do return [← read e]) es

/-- A list of blocks behind a label. -/
def entryList {α : Type} (scope : String) (read : Entry → Noted α) (label : Sourced String)
    (content : Content) : Noted (Property (List α)) := do
  match ← block? label content with
  | none => return none
  | some items =>
    let values ← readEntries scope read items
    return some ⟨values, label.source⟩

/-! ### Entries of lists -/

/-- The text of a property, without its place. -/
def plainText (label : Sourced String) (content : Content) : Noted (Option String) := do
  return (← text label content).map Sourced.value

/-- Labels of a render that are not analysed. -/
def ignoredRenderLabels : List String :=
  ["receiveTimeout", "ipv4", "secure", "always-resolve"]

/-- Reads a property of a render. -/
def renderProperty (r : Render) (label : Sourced String) (content : Content) : Noted Render :=
  match label.value with
  | "hostname" => do return { r with hostname := ← plainText label content }
  | "port" => do return { r with port := ← plainText label content }
  | "timeout" => do return { r with timeout := (← integer label content).map Sourced.value }
  | name => do
    if !ignoredRenderLabels.contains name then unknownLabel "render" label
    return r

/-- An entry of `/renders`. -/
def render (e : Entry) : Noted Render :=
  properties "render" renderProperty { label := e.label.value, source := e.label.source } e.items

/-- Reads a property of a filter. -/
def filterProperty (f : Filter) (label : Sourced String) (content : Content) : Noted Filter :=
  match FilterField.ofLabel? label.value with
  | some field => do
    if field == .glob then deprecatedLabel "filter" label
    return { f with fields := f.fields.set field (← plainText label content) }
  | none => do
    unknownLabel "filter" label
    return f

/-- An entry of `/filter`. -/
def filter (e : Entry) : Noted Filter :=
  properties "filter" filterProperty { label := e.label.value, source := e.label.source } e.items

/-- Reads a property of an entry of a rule list. -/
def cacheRuleProperty (scope : String) (r : CacheRule) (label : Sourced String)
    (content : Content) : Noted CacheRule :=
  match label.value with
  | "type" => do return { r with type := ← plainText label content }
  | "glob" => do return { r with glob := ← plainText label content }
  | _ => do
    unknownLabel scope label
    return r

/-- An entry of a rule list. -/
def cacheRule (scope : String) (e : Entry) : Noted CacheRule :=
  properties scope (cacheRuleProperty scope)
    { label := e.label.value, source := e.label.source } e.items

/-- A rule list of the cache; its label names it in messages. -/
def ruleList (label : Sourced String) (content : Content) : Noted (Property (List CacheRule)) :=
  entryList label.value (cacheRule label.value) label content

/-! ### Caches and farms -/

/-- Labels of a cache that are not analysed. -/
def ignoredCacheLabels : List String :=
  ["invalidateHandler"]

/-- Reads a property of a cache. -/
def cacheProperty (c : Cache) (label : Sourced String) (content : Content) : Noted Cache :=
  match label.value with
  | "docroot" => do return { c with docroot := ← text label content }
  | "statfile" => do return { c with statfile := ← text label content }
  | "mode" => do return { c with mode := ← text label content }
  | "statfileslevel" => do return { c with statfileslevel := ← integer label content }
  | "gracePeriod" => do return { c with gracePeriod := ← integer label content }
  | "serveStaleOnError" => do return { c with serveStaleOnError := ← boolean label content }
  | "allowAuthorized" => do return { c with allowAuthorized := ← boolean label content }
  | "enableTTL" => do return { c with enableTTL := ← boolean label content }
  | "rules" => do return { c with rules := ← ruleList label content }
  | "invalidate" => do return { c with invalidate := ← ruleList label content }
  | "allowedClients" => do return { c with allowedClients := ← ruleList label content }
  | "ignoreUrlParams" => do return { c with ignoreUrlParams := ← ruleList label content }
  | "headers" => do return { c with headers := ← strings label content }
  | name => do
    if !ignoredCacheLabels.contains name then unknownLabel "cache" label
    return c

/-- The cache of a farm. -/
def cache (label : Sourced String) (content : Content) : Noted (Option Cache) := do
  match ← block? label content with
  | none => return none
  | some items => return some (← properties "cache" cacheProperty { source := label.source } items)

/-- Reads a property of a health check, of which only the address counts. -/
def healthCheckProperty (url : Property String) (label : Sourced String) (content : Content) :
    Noted (Property String) :=
  match label.value with
  | "url" => text label content
  | _ => do
    unknownLabel "health_check" label
    return url

/-- Labels of a farm that are not analysed. -/
def ignoredFarmLabels : List String :=
  ["sessionmanagement", "statistics", "stickyConnections", "auth_checker", "vanity_urls", "info"]

/-- Reads a property of a farm. -/
def farmProperty (f : Farm) (label : Sourced String) (content : Content) : Noted Farm :=
  match label.value with
  | "clientheaders" => do return { f with clientHeaders := ← strings label content }
  | "virtualhosts" => do return { f with virtualHosts := ← strings label content }
  | "renders" => do return { f with renders := ← entryList "renders" render label content }
  | "filter" => do return { f with filter := ← entryList "filter" filter label content }
  | "cache" => do return { f with cache := ← cache label content }
  | "retryDelay" => do return { f with retryDelay := ← integer label content }
  | "numberOfRetries" => do return { f with numberOfRetries := ← integer label content }
  | "unavailablePenalty" => do return { f with unavailablePenalty := ← integer label content }
  | "failover" => do return { f with failover := ← boolean label content }
  | "propagateSyndPost" => do return { f with propagateSyndPost := ← boolean label content }
  | "stickyConnectionsFor" => do return { f with stickyConnectionsFor := ← text label content }
  | "health_check" => do
    match ← block? label content with
    | none => return f
    | some items =>
      return { f with healthCheckUrl := ← properties "health_check" healthCheckProperty none items }
  | "homepage" => do
    deprecatedLabel "farm" label
    return f
  | name => do
    if !ignoredFarmLabels.contains name then unknownLabel "farm" label
    return f

/-- An entry of `/farms`. -/
def farm (e : Entry) : Noted Farm :=
  properties "farm" farmProperty { label := e.label } e.items

/-! ### Configurations -/

/-- Reads a property of the whole configuration. -/
def configProperty (c : FarmConfig) (label : Sourced String) (content : Content) :
    Noted FarmConfig :=
  match label.value with
  | "name" => do return { c with name := ← text label content }
  | "ignoreEINTR" => do return { c with ignoreEINTR := ← boolean label content }
  | "farms" => do
    match ← block? label content with
    | none => return c
    | some items => return { c with farms := ← readEntries "farms" farm items }
  | _ => do
    unknownLabel "dispatcher" label
    return c

/-- The configuration that a tree stands for. -/
def decode (items : List Item) : Noted FarmConfig :=
  properties "dispatcher" configProperty {} items

end ProxyLint.Any

namespace ProxyLint.FarmConfig

/-- The configuration that lines stand for. -/
def ofLines (lines : List Line) : Noted FarmConfig := do
  let tokens ← Any.tokens lines
  let items ← Any.build tokens
  Any.decode items

/-- The configuration that resolved lines stand for, with what was found while
they were resolved; or why they could not be resolved. -/
def ofOutcome (o : Include.Outcome) : Except Include.Failure (Noted FarmConfig) :=
  o.lines.map fun lines =>
    let read := ofLines lines
    ⟨read.value, o.findings ++ read.findings⟩

end ProxyLint.FarmConfig
