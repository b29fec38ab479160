import ProxyLint.Farm
import ProxyLint.Httpd

/-!
# Targets of checks

A rule names an element by a dotted path. In a farm the path leads to one
property; in a configuration of the web server it selects sections, one word
after the other, starting at the whole configuration.

## Main definitions

* `ProxyLint.Target` — what a check looks at.
* `ProxyLint.Misfit` — why a rule does not fit what it is applied to.
* `ProxyLint.Farm.locate` — the property of a farm that a path leads to.
* `ProxyLint.HttpdConfig.select` — the sections that a path selects.
-/

set_option relaxedAutoImplicit false
set_option autoImplicit false

namespace ProxyLint

/-- Why a rule does not fit what it is applied to. -/
inductive Misfit where
  /-- The path leads to nothing. -/
  | unknownElement
  /-- The path has to start with another word. -/
  | wrongRoot (expected : String)
  /-- A word of the path is not known. -/
  | unknownPathToken (token : String)
  /-- The condition does not apply to such a target. -/
  | incompatibleTarget (condition target : String)
  deriving DecidableEq, Repr, Inhabited

/-- The reason in words. -/
def Misfit.message : Misfit → String
  | .unknownElement => "unknown element"
  | .wrongRoot expected => "element must start with `" ++ expected ++ "`"
  | .unknownPathToken token => "unknown path token `" ++ token ++ "`"
  | .incompatibleTarget condition target =>
    condition ++ " cannot be applied to a " ++ target

/-- What a check looks at. -/
inductive Target where
  /-- A property that is not configured. -/
  | missing
  /-- Something that is there, such as a farm or its cache. -/
  | present (source : Source)
  | boolean (v : Sourced Bool)
  | integer (v : Sourced Int)
  | text (v : Sourced String)
  | textList (v : Sourced (List String))
  | filters (v : Sourced (List Filter))
  | rules (v : Sourced (List CacheRule))
  /-- Several farms at once. -/
  | farms (fs : List Farm)
  /-- A section by its number. -/
  | section (config : HttpdConfig) (id : Nat)
  deriving DecidableEq, Repr, Inhabited

namespace Target

/-- What kind of target it is. -/
def kind : Target → String
  | .missing => "missing value"
  | .present _ => "element"
  | .boolean _ => "boolean"
  | .integer _ => "integer"
  | .text _ => "string"
  | .textList _ => "string list"
  | .filters _ => "filter list"
  | .rules _ => "rule list"
  | .farms _ => "farm collection"
  | .section _ _ => "section"

/-- Where the target is written. -/
def source? : Target → Option Source
  | .missing | .farms _ => none
  | .present source => some source
  | .boolean v => some v.source
  | .integer v => some v.source
  | .text v => some v.source
  | .textList v => some v.source
  | .filters v => some v.source
  | .rules v => some v.source
  | .section config id => (config.get? id).map Section.source

/-- The target of a property. -/
def ofProperty {α : Type} (wrap : α → Target) : Option α → Target
  | some a => wrap a
  | none => .missing

end Target

/-- The property of a farm that a path leads to. -/
def Farm.locate (f : Farm) (element : String) : Except Misfit Target :=
  let inCache {α : Type} (get : Cache → Option α) : Option α := f.cache.bind get
  match element with
  | "farm" => .ok (.present f.label.source)
  | "farm.label" => .ok (.text f.label)
  | "farm.clientheaders" => .ok (.ofProperty .textList f.clientHeaders)
  | "farm.virtualhosts" => .ok (.ofProperty .textList f.virtualHosts)
  | "farm.renders" => .ok (.ofProperty (fun v => .present v.source) f.renders)
  | "farm.filter" => .ok (.ofProperty .filters f.filter)
  | "farm.retryDelay" => .ok (.ofProperty .integer f.retryDelay)
  | "farm.numberOfRetries" => .ok (.ofProperty .integer f.numberOfRetries)
  | "farm.unavailablePenalty" => .ok (.ofProperty .integer f.unavailablePenalty)
  | "farm.failover" => .ok (.ofProperty .boolean f.failover)
  | "farm.propagateSyndPost" => .ok (.ofProperty .boolean f.propagateSyndPost)
  | "farm.stickyConnectionsFor" => .ok (.ofProperty .text f.stickyConnectionsFor)
  | "farm.health_check.url" => .ok (.ofProperty .text f.healthCheckUrl)
  | "farm.cache" => .ok (.ofProperty (fun c => .present c.source) f.cache)
  | "farm.cache.docroot" => .ok (.ofProperty .text (inCache Cache.docroot))
  | "farm.cache.statfile" => .ok (.ofProperty .text (inCache Cache.statfile))
  | "farm.cache.mode" => .ok (.ofProperty .text (inCache Cache.mode))
  | "farm.cache.statfileslevel" => .ok (.ofProperty .integer (inCache Cache.statfileslevel))
  | "farm.cache.gracePeriod" => .ok (.ofProperty .integer (inCache Cache.gracePeriod))
  | "farm.cache.serveStaleOnError" => .ok (.ofProperty .boolean (inCache Cache.serveStaleOnError))
  | "farm.cache.allowAuthorized" => .ok (.ofProperty .boolean (inCache Cache.allowAuthorized))
  | "farm.cache.enableTTL" => .ok (.ofProperty .boolean (inCache Cache.enableTTL))
  | "farm.cache.rules" => .ok (.ofProperty .rules (inCache Cache.rules))
  | "farm.cache.invalidate" => .ok (.ofProperty .rules (inCache Cache.invalidate))
  | "farm.cache.allowedClients" => .ok (.ofProperty .rules (inCache Cache.allowedClients))
  | "farm.cache.ignoreUrlParams" => .ok (.ofProperty .rules (inCache Cache.ignoreUrlParams))
  | "farm.cache.headers" => .ok (.ofProperty .textList (inCache Cache.headers))
  | _ => .error .unknownElement

/-! ### Paths to sections -/

/-- A word of a path to sections. -/
inductive PathWord where
  /-- Goes on to the sections of a kind anywhere inside. -/
  | inside (kind : SectionKind)
  /-- Keeps the sections with the one argument `/`. -/
  | ofRoot
  deriving DecidableEq, Repr, Inhabited

/-- The words of paths to sections. -/
def PathWord.all : List (String × PathWord) :=
  [("vhost", .inside .virtualHost), ("directory", .inside .directory),
    ("location", .inside .location), ("files", .inside .files),
    ("ifmodule", .inside .ifModule), ("root", .ofRoot)]

/-- Reads a word in any letter case. -/
def PathWord.ofText? (token : String) : Option PathWord :=
  (all.find? fun w => Text.sameLetters w.1 token).map Prod.snd

namespace HttpdConfig

/-- The sections that a word leads to from the current ones, by number. -/
def follow (c : HttpdConfig) (current : List Nat) : PathWord → List Nat
  | .inside kind =>
    let below := current.flatMap c.descendants
    (List.range c.size).filter fun i =>
      below.contains i && ((c.get? i).any fun s => s.kind == kind)
  | .ofRoot => current.filter fun i => (c.get? i).any fun s => s.arguments == ["/"]

/-- The sections that the later words of a path lead to; every word has to be
known. -/
def followAll (c : HttpdConfig) (current : List Nat) : List String → Except Misfit (List Nat)
  | [] => .ok current
  | token :: rest =>
    match PathWord.ofText? token with
    | some w => followAll c (c.follow current w) rest
    | none => .error (.unknownPathToken token)

/-- The sections that a path selects. A path of one word, or with an unknown
second word, selects none. -/
def select (c : HttpdConfig) (element : String) : Except Misfit (List Nat) :=
  match Text.fields '.' element with
  | first :: rest =>
    if first != "httpd" then .error (.wrongRoot "httpd")
    else
      match rest with
      | [] => .ok []
      | second :: _ => if (PathWord.ofText? second).isNone then .ok [] else c.followAll [0] rest
  | [] => .error (.wrongRoot "httpd")

end HttpdConfig

end ProxyLint
