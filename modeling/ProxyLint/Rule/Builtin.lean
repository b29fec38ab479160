import ProxyLint.Rule.Gathering

/-!
# Built-in rules

The rules that come with the library, and selections of them.

## Main definitions

* `ProxyLint.Builtin.core` — the built-in rule list.
* `ProxyLint.Preset` — selections of the built-in rules.
-/

set_option relaxedAutoImplicit false
set_option autoImplicit false

namespace ProxyLint.Builtin

/-- The origin of the built-in rules. -/
def coreOrigin : String :=
  "core-rules.json"

/-- The rule `default-filter-deny-rules`. -/
def defaultFilterDenyRules : Rule where
  id := "default-filter-deny-rules"
  element := "farm.filter"
  description :=
    "The filter list should start by denying every request and then allow specific " ++
    "paths."
  severity := .blocker
  checks := [{ condition := .filterListStartsWith { type := some "deny", url := some "*" }
               context := some "the first filter must deny all requests" }]
  tags := ["dispatcher", "security", "filter"]
  effort := some "10min"
  origin := coreOrigin
  type := .vulnerability
  documentationUrl := some <|
    "https://experienceleague.adobe.com/docs/experience-manager-dispatcher/using/configuring/" ++
    "dispatcher-configuration.html#configuring-access-to-content-filter"

/-- The rule `cache-rules-deny-all-first`. -/
def cacheRulesDenyAllFirst : Rule where
  id := "cache-rules-deny-all-first"
  element := "farm.cache.rules"
  description :=
    "Cache rules should start by denying everything so that only explicitly allowed " ++
    "content is cached."
  severity := .major
  farmTypes := [.publish]
  checks := [{ condition := .ruleListStartsWith { type := some "deny", glob := some "*" } }]
  tags := ["dispatcher", "cache"]
  effort := some "5min"
  origin := coreOrigin
  type := .codeSmell

/-- The rule `statfileslevel-minimum`. -/
def statfileslevelMinimum : Rule where
  id := "statfileslevel-minimum"
  element := "farm.cache.statfileslevel"
  description :=
    "A statfileslevel of at least 2 keeps invalidation from flushing the whole cache."
  severity := .minor
  farmTypes := [.publish]
  checks := [{ condition := .integerGreaterOrEqual 2
               context := some "invalidation would touch the whole docroot" }]
  tags := ["dispatcher", "cache", "performance"]
  effort := some "5min"
  origin := coreOrigin
  type := .codeSmell

/-- The rule `serve-stale-on-error`. -/
def serveStaleOnError : Rule where
  id := "serve-stale-on-error"
  element := "farm.cache.serveStaleOnError"
  description := "Serving stale content while the render is unavailable improves resilience."
  severity := .minor
  farmTypes := [.publish]
  checks := [{ condition := .booleanEquals true }]
  tags := ["dispatcher", "cache", "resilience"]
  effort := some "5min"
  origin := coreOrigin
  type := .codeSmell

/-- The rule `grace-period-enabled`. -/
def gracePeriodEnabled : Rule where
  id := "grace-period-enabled"
  element := "farm.cache.gracePeriod"
  description :=
    "A grace period lets auto-invalidated content be served while it is re-fetched."
  severity := .minor
  farmTypes := [.publish]
  checks := [{ condition := .integerGreaterOrEqual 1 }]
  tags := ["dispatcher", "cache", "performance"]
  effort := some "5min"
  origin := coreOrigin
  type := .codeSmell

/-- The rule `enable-ttl`. -/
def enableTtl : Rule where
  id := "enable-ttl"
  element := "farm.cache.enableTTL"
  description := "Honouring cache headers from the backend requires enableTTL."
  severity := .minor
  farmTypes := [.publish]
  checks := [{ condition := .booleanEquals true }]
  tags := ["dispatcher", "cache"]
  effort := some "5min"
  origin := coreOrigin
  type := .codeSmell

/-- The rule `ignore-url-params-deny-first`. -/
def ignoreUrlParamsDenyFirst : Rule where
  id := "ignore-url-params-deny-first"
  element := "farm.cache.ignoreUrlParams"
  description :=
    "ignoreUrlParams should start by denying every parameter and then ignore known " ++
    "marketing parameters."
  severity := .minor
  farmTypes := [.publish]
  checks := [{ condition := .ruleListStartsWith { type := some "deny", glob := some "*" } }]
  tags := ["dispatcher", "cache"]
  effort := some "5min"
  origin := coreOrigin
  type := .codeSmell

/-- The rule `invalidate-deny-all-first`. -/
def invalidateDenyAllFirst : Rule where
  id := "invalidate-deny-all-first"
  element := "farm.cache.invalidate"
  description := "Invalidation rules should start by denying everything."
  severity := .major
  farmTypes := [.publish]
  checks := [{ condition := .ruleListStartsWith { type := some "deny", glob := some "*" } }]
  tags := ["dispatcher", "cache"]
  effort := some "5min"
  origin := coreOrigin
  type := .codeSmell

/-- The rule `allow-authorized-disabled`. -/
def allowAuthorizedDisabled : Rule where
  id := "allow-authorized-disabled"
  element := "farm.cache.allowAuthorized"
  description := "Caching authorized responses can leak protected content to anonymous users."
  severity := .critical
  farmTypes := [.publish]
  checks := [{ condition := .booleanEquals true, failIf := true }]
  tags := ["dispatcher", "cache", "security"]
  effort := some "10min"
  origin := coreOrigin
  type := .vulnerability

/-- The rule `unique-farm-labels`. -/
def uniqueFarmLabels : Rule where
  id := "unique-farm-labels"
  element := "farm"
  description :=
    "Farm labels must be unique; a later farm silently shadows an earlier one with " ++
    "the same label."
  severity := .major
  checks := [{ condition := .isUniqueLabel }]
  tags := ["dispatcher"]
  effort := some "5min"
  origin := coreOrigin
  type := .bug

/-- The rule `cache-headers-configured`. -/
def cacheHeadersConfigured : Rule where
  id := "cache-headers-configured"
  element := "farm.cache.headers"
  description :=
    "Cache response headers such as Cache-Control so they are replayed from the " ++
    "cache."
  severity := .info
  farmTypes := [.publish]
  checks := [{ condition := .isPresent }]
  tags := ["dispatcher", "cache"]
  effort := some "10min"
  enabled := false
  origin := coreOrigin
  type := .codeSmell

/-- The rule `require-all-granted`. -/
def requireAllGranted : Rule where
  id := "require-all-granted"
  element := "httpd.directory.root"
  description := "The root directory section must grant access explicitly."
  severity := .major
  checks := [{ condition := .hasDirective ⟨"Require", ["all", "granted"]⟩ }]
  tags := ["httpd"]
  effort := some "5min"
  origin := coreOrigin
  type := .bug

/-- The rule `vhost-document-root`. -/
def vhostDocumentRoot : Rule where
  id := "vhost-document-root"
  element := "httpd.vhost"
  description := "Every virtual host should declare a DocumentRoot."
  severity := .minor
  checks := [{ condition := .hasDirective ⟨"DocumentRoot", []⟩ }]
  tags := ["httpd"]
  effort := some "5min"
  origin := coreOrigin
  type := .codeSmell

/-- The rule `no-server-signature`. -/
def noServerSignature : Rule where
  id := "no-server-signature"
  element := "httpd.vhost"
  description := "Server signatures disclose the server version on generated pages."
  severity := .minor
  checks := [{ condition := .hasDirective ⟨"ServerSignature", ["On"]⟩, failIf := true }]
  tags := ["httpd", "security"]
  effort := some "5min"
  origin := coreOrigin
  type := .securityHotspot

/-- The built-in rule list. -/
def core : RuleList where
  mode := .extend
  rules :=
    [defaultFilterDenyRules, cacheRulesDenyAllFirst, statfileslevelMinimum,
    serveStaleOnError, gracePeriodEnabled, enableTtl,
    ignoreUrlParamsDenyFirst, invalidateDenyAllFirst, allowAuthorizedDisabled,
    uniqueFarmLabels, cacheHeadersConfigured, requireAllGranted,
    vhostDocumentRoot, noServerSignature]

end ProxyLint.Builtin

namespace ProxyLint

/-- Selections of the built-in rules. -/
inductive Preset where
  /-- The rules as they come. -/
  | recommended
  /-- Every rule enabled. -/
  | strict
  /-- Only critical rules and blockers. -/
  | minimal
  deriving DecidableEq, Repr, Inhabited

namespace Preset

/-- The presets in order. -/
def all : List Preset :=
  [.recommended, .strict, .minimal]

/-- The written form. -/
def text : Preset → String
  | .recommended => "recommended"
  | .strict => "strict"
  | .minimal => "minimal"

/-- Reads a preset in any letter case. -/
def ofText? (s : String) : Option Preset :=
  ofSpelling? text all s

/-- The rules of a preset. -/
def rules : Preset → RuleList
  | .recommended => Builtin.core
  | .strict => Builtin.core.withAllEnabled
  | .minimal =>
    { Builtin.core with
      rules := Builtin.core.rules.filter fun r => Severity.rank .critical ≤ r.severity.rank }

end Preset

end ProxyLint
