import ProxyLint.Rule.Condition
import ProxyLint.Rule.Kind
import ProxyLint.Source

/-!
# Farms

The typed form of a configuration of nested labels. Single values keep the place
of the value, lists that of their label. Texts are stored without their quotes.

## Main definitions

* `ProxyLint.FarmConfig` — a whole configuration.
* `ProxyLint.Farm`, `ProxyLint.Cache` — a farm and its cache.
* `ProxyLint.Filter`, `ProxyLint.CacheRule`, `ProxyLint.Render` — entries of lists.
-/

set_option relaxedAutoImplicit false
set_option autoImplicit false

namespace ProxyLint

/-- A property that may be configured. -/
abbrev Property (α : Type) := Option (Sourced α)

/-- An entry of `/renders`. -/
structure Render where
  /-- The label; empty if there is none. -/
  label : String
  /-- Where the entry is written. -/
  source : Source
  /-- Value of `/hostname`. -/
  hostname : Option String := none
  /-- Value of `/port`. -/
  port : Option String := none
  /-- Value of `/timeout`. -/
  timeout : Option Int := none
  deriving DecidableEq, Repr, Inhabited

/-- An entry of `/filter`. -/
structure Filter where
  /-- The label; empty if there is none. -/
  label : String
  /-- Where the entry is written. -/
  source : Source
  /-- The texts it sets. -/
  fields : FilterFields := {}
  deriving DecidableEq, Repr, Inhabited

/-- An entry of a rule list of the cache. -/
structure CacheRule where
  /-- The label; empty if there is none. -/
  label : String
  /-- Where the entry is written. -/
  source : Source
  /-- Value of `/type`. -/
  type : Option String := none
  /-- Value of `/glob`. -/
  glob : Option String := none
  deriving DecidableEq, Repr, Inhabited

/-- The `/cache` of a farm. -/
structure Cache where
  /-- Where the label is written. -/
  source : Source
  docroot : Property String := none
  statfile : Property String := none
  mode : Property String := none
  statfileslevel : Property Int := none
  gracePeriod : Property Int := none
  serveStaleOnError : Property Bool := none
  allowAuthorized : Property Bool := none
  enableTTL : Property Bool := none
  rules : Property (List CacheRule) := none
  invalidate : Property (List CacheRule) := none
  allowedClients : Property (List CacheRule) := none
  ignoreUrlParams : Property (List CacheRule) := none
  headers : Property (List String) := none
  deriving DecidableEq, Repr, Inhabited

/-- An entry of `/farms`. -/
structure Farm where
  /-- The label, empty if there is none, and where the farm is written. -/
  label : Sourced String
  clientHeaders : Property (List String) := none
  virtualHosts : Property (List String) := none
  renders : Property (List Render) := none
  filter : Property (List Filter) := none
  cache : Option Cache := none
  retryDelay : Property Int := none
  numberOfRetries : Property Int := none
  unavailablePenalty : Property Int := none
  failover : Property Bool := none
  propagateSyndPost : Property Bool := none
  stickyConnectionsFor : Property String := none
  healthCheckUrl : Property String := none
  deriving DecidableEq, Repr, Inhabited

/-- A farm whose label mentions `author` stands in front of an author instance. -/
def Farm.type (f : Farm) : FarmType :=
  if Text.occursIn "author".toList (Text.lower f.label.value).toList then .author else .publish

/-- A whole configuration. -/
structure FarmConfig where
  /-- Value of `/name`. -/
  name : Property String := none
  /-- Value of `/ignoreEINTR`. -/
  ignoreEINTR : Property Bool := none
  /-- The farms in order. -/
  farms : List Farm := []
  deriving DecidableEq, Repr, Inhabited

end ProxyLint
