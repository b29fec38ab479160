import ProxyLint.Any.Token

/-!
# Block trees

Tokens are read into a tree of items: values and blocks, each with or without a
label. Reading never fails. A closing brace without an open block is noted and
dropped; a label without a value is noted and dropped; a block that is still open
at the end is noted and closed there.

A farm and its cache hold a known set of labelled blocks. A labelled block that
cannot stand in the innermost open block, but can stand in one around it, shows
that closing braces are missing: the blocks in between are noted and closed.

## Main definitions

* `ProxyLint.Any.Item` — a value or a block, with or without a label.
* `ProxyLint.Any.Role` — what the place of a block makes it.
* `ProxyLint.Any.Builder` — the open blocks while tokens are read.
* `ProxyLint.Any.build` — the items of a sequence of tokens.
-/

set_option relaxedAutoImplicit false
set_option autoImplicit false

namespace ProxyLint.Any

/-- A value or a block, with or without a label. -/
inductive Item where
  /-- A value, as written. -/
  | value (label? : Option (Sourced String)) (text : Sourced String)
  /-- A block, with the place of its opening brace. -/
  | block (label? : Option (Sourced String)) (source : Source) (items : List Item)
  deriving Repr, Inhabited

/-- The label of an item. -/
def Item.label? : Item → Option (Sourced String)
  | .value label? _ => label?
  | .block label? _ _ => label?

/-- What the place of a block makes it. -/
inductive Role where
  /-- The whole configuration. -/
  | root
  /-- The list of farms. -/
  | farms
  /-- One farm. -/
  | farm
  /-- The cache of a farm. -/
  | cache
  /-- Anything else. -/
  | other
  deriving DecidableEq, Repr, Inhabited

/-- The labels of the blocks of a farm. -/
def farmBlocks : List String :=
  ["clientheaders", "virtualhosts", "renders", "filter", "cache", "health_check",
    "sessionmanagement", "statistics", "stickyConnections", "auth_checker", "vanity_urls"]

/-- The labels of the blocks of a cache. -/
def cacheBlocks : List String :=
  ["rules", "invalidate", "allowedClients", "ignoreUrlParams", "headers", "invalidateHandler"]

namespace Role

/-- The role of a block inside one with the given role. -/
def child (role : Role) (label? : Option String) : Role :=
  match role, label? with
  | .root, some label => if label = "farms" then .farms else .other
  | .farms, some _ => .farm
  | .farm, some label => if label = "cache" then .cache else .other
  | _, _ => .other

/-- Whether a block with the given role may hold a block with that label. -/
def accepts (role : Role) (label : String) : Bool :=
  match role with
  | .root => label == "farms"
  | .farm => farmBlocks.contains label
  | .cache => cacheBlocks.contains label
  | .farms | .other => true

end Role

/-- An open block. -/
structure Frame where
  /-- Its label. -/
  label? : Option (Sourced String)
  /-- Its role. -/
  role : Role
  /-- The place of its opening brace. -/
  source : Source
  /-- The items so far. -/
  items : Array Item := #[]
  deriving Repr, Inhabited

namespace Frame

/-- The open block with one more item. -/
def push (f : Frame) (item : Item) : Frame :=
  { f with items := f.items.push item }

/-- The block as an item, once it is closed. -/
def item (f : Frame) : Item :=
  .block f.label? f.source f.items.toList

/-- Notes that the block is never closed. -/
def noteUnclosed (f : Frame) : Noted Unit :=
  let context :=
    match f.label? with
    | some label => "block /" ++ label.value ++ " is never closed"
    | none => "block is never closed"
  note .anyBraceUnclosed context f.source

end Frame

/-- The open blocks while tokens are read, and the label that waits for its
value. -/
structure Builder where
  /-- The innermost open block. -/
  top : Frame
  /-- The blocks around it, innermost first. -/
  outer : List Frame := []
  /-- The label that waits for its value. -/
  pending? : Option (Sourced String) := none
  deriving Repr, Inhabited

namespace Builder

/-- Drops the label that waits for a value, and notes it. -/
def dropPending (b : Builder) : Noted Builder := do
  match b.pending? with
  | some label =>
    note .anyBraceMissing ("/" ++ label.value ++ " has no value or block") label.source
  | none => pure ()
  return { b with pending? := none }

/-- Closes blocks from the inside until one accepts the label. -/
def closeUntil (label : String) (top : Frame) : List Frame → Noted (Frame × List Frame)
  | [] => pure (top, [])
  | parent :: outer =>
    if top.role.accepts label then pure (top, parent :: outer)
    else do
      top.noteUnclosed
      closeUntil label (parent.push top.item) outer

/-- Closes the blocks that cannot hold a block with that label, if a block
around them can. -/
def recover (b : Builder) (label : String) : Noted Builder :=
  if b.top.role.accepts label || !b.outer.any fun f => f.role.accepts label then pure b
  else do
    let (top, outer) ← closeUntil label b.top b.outer
    return { b with top, outer }

/-- Opens a block with the label that waits for its value. -/
def openBlock (b : Builder) (source : Source) : Noted Builder := do
  let label? := b.pending?
  let b ←
    match label? with
    | some label => b.recover label.value
    | none => pure b
  let role := b.top.role.child (label?.map Sourced.value)
  return { top := ⟨label?, role, source, #[]⟩, outer := b.top :: b.outer, pending? := none }

/-- Closes the innermost block; the whole configuration stays open. -/
def closeBlock (b : Builder) (source : Source) : Noted Builder := do
  let b ← b.dropPending
  match b.outer with
  | parent :: outer => return { b with top := parent.push b.top.item, outer }
  | [] =>
    note .anyBraceMissing "unexpected '\x7d'" source
    return b

/-- Reads one token. -/
def step (b : Builder) (token : Token) : Noted Builder :=
  match token.symbol with
  | .label name => do
    let b ← b.dropPending
    return { b with pending? := some ⟨name, token.source⟩ }
  | .value text =>
    pure { b with top := b.top.push (.value b.pending? ⟨text, token.source⟩), pending? := none }
  | .opening => b.openBlock token.source
  | .closing => b.closeBlock token.source

/-- Closes all blocks that are still open, from the inside. -/
def closeAll (top : Frame) : List Frame → Noted Frame
  | [] => pure top
  | parent :: outer => do
    top.noteUnclosed
    closeAll (parent.push top.item) outer

/-- The items of the configuration once all tokens are read. -/
def finish (b : Builder) : Noted (List Item) := do
  let b ← b.dropPending
  let root ← closeAll b.top b.outer
  return root.items.toList

end Builder

/-- The items of a sequence of tokens. -/
def build (tokens : List Token) : Noted (List Item) := do
  let source := (tokens.head?.map Token.source).getD Source.unknown
  let start : Builder := { top := ⟨none, .root, source, #[]⟩ }
  let b ← tokens.foldlM Builder.step start
  b.finish

end ProxyLint.Any
