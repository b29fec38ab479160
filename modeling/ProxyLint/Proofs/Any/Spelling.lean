import Mathlib.Data.List.Basic
import ProxyLint.Any.Block

set_option relaxedAutoImplicit false
set_option autoImplicit false

/-!
# Spelled items

A tree of items has a natural spelling: each item is its label, if it has one, followed by
its value, or by the spelling of what it holds between braces. The spelling is read back as
the tree. What could go wrong is the recovery of missing braces, which closes open blocks in
front of a labelled block that cannot stand in them. Only a farm and a cache refuse labelled
blocks that could stand further out, so reading is exact as soon as these hold what they may.

## Main definitions

* `ProxyLint.Any.Spells` — tokens spell items.
* `ProxyLint.Any.Item.fitAll` — the farms and caches among items hold no labelled blocks but
  those that they may hold.

## Main results

* `ProxyLint.Any.foldlM_step_of_spells` — a spelling adds its items to the innermost open
  block.
* `ProxyLint.Any.build_of_spells` — every spelling of items is read back as these items.
-/

namespace ProxyLint.Any

/-! ### Spellings -/

/-- The token of a label. -/
def Token.ofLabel (label : Sourced String) : Token :=
  ⟨.label label.value, label.source⟩

/-- The tokens of the label that an item may have. -/
def labelTokens (label? : Option (Sourced String)) : List Token :=
  label?.toList.map .ofLabel

/-- Tokens spell items. Labels, values and opening braces stand at the places which the items
record; a closing brace, of which nothing is recorded, may stand anywhere. -/
inductive Spells : List Item → List Token → Prop where
  | nil : Spells [] []
  | value {label? : Option (Sourced String)} {text : Sourced String} {items : List Item}
      {ts : List Token} :
    Spells items ts →
    Spells (.value label? text :: items)
      (labelTokens label? ++ ⟨.value text.value, text.source⟩ :: ts)
  | block {label? : Option (Sourced String)} {source : Source} {inner items : List Item}
      {ts ts' : List Token} (closer : Source) :
    Spells inner ts → Spells items ts' →
    Spells (.block label? source inner :: items)
      (labelTokens label? ++ ⟨.opening, source⟩ :: (ts ++ ⟨.closing, closer⟩ :: ts'))

mutual

/-- An item in front of items that have a spelling has a spelling together with them. -/
lemma Item.exists_spells (item : Item) {items : List Item} {ts : List Token}
    (h : Spells items ts) : ∃ ts', Spells (item :: items) ts' := by
  match item with
  | .value label? text => exact ⟨_, .value h⟩
  | .block label? source inner =>
    obtain ⟨_, hinner⟩ := exists_spells inner
    exact ⟨_, .block source hinner h⟩

/-- All items have a spelling. -/
lemma exists_spells (items : List Item) : ∃ ts, Spells items ts := by
  match items with
  | [] => exact ⟨[], .nil⟩
  | item :: items =>
    obtain ⟨_, hitems⟩ := exists_spells items
    exact item.exists_spells hitems

end

/-! ### Blocks in their places -/

/-- Whether a labelled block may stand in a block with the given role. Only a farm and a cache
restrict what they hold. -/
def Role.admits (role : Role) (label : String) : Bool :=
  match role with
  | .farm | .cache => role.accepts label
  | .root | .farms | .other => true

mutual

/-- Whether an item in a block with the given role is in its place, and so are the items that
it holds. -/
def Item.fits (role : Role) : Item → Bool
  | .value _ _ => true
  | .block label? _ items =>
    (label?.all fun label => role.admits label.value) &&
      Item.fitAll (role.child (label?.map Sourced.value)) items

/-- Whether all items in a block with the given role are in their places. -/
def Item.fitAll (role : Role) : List Item → Bool
  | [] => true
  | item :: items => item.fits role && Item.fitAll role items

end

/-! ### Reading a spelling -/

/-- No block inside another is the root. -/
lemma Role.child_ne_root (role : Role) (label? : Option String) : role.child label? ≠ .root := by
  unfold child
  split <;> (try split) <;> exact fun h => nomatch h

namespace Frame

/-- The open block with more items. -/
def append (f : Frame) (items : List Item) : Frame :=
  { f with items := f.items ++ items }

/-- Appending no items changes nothing. -/
@[simp] lemma append_nil (f : Frame) : f.append [] = f := by
  simp [append]

/-- An item that is pushed is the first of those that are appended. -/
@[simp] lemma push_append (f : Frame) (item : Item) (items : List Item) :
    (f.push item).append items = f.append (item :: items) := by
  simp [append, push]

end Frame

namespace Builder

/-- A label waits for what follows it. -/
lemma foldlM_labelTokens {b : Builder} (hpending : b.pending? = none)
    (label? : Option (Sourced String)) (ts : List Token) :
    (labelTokens label? ++ ts).foldlM step b = ts.foldlM step { b with pending? := label? } := by
  obtain ⟨top, outer, pending?⟩ := b
  subst hpending
  cases label? <;> rfl

/-- No open block is closed in front of a block that may stand in the innermost one. -/
lemma recover_of_admits {b : Builder} {label : String}
    (hroot : b.top.role = .root → b.outer = []) (h : b.top.role.admits label = true) :
    b.recover label = pure b := by
  unfold recover
  refine if_pos ?_
  cases hrole : b.top.role with
  | root => simp [hroot hrole]
  | farms | other => rfl
  | farm | cache =>
    rw [hrole] at h
    exact Bool.or_eq_true_iff.2 (.inl h)

/-- A block that may stand in the innermost open one is opened there. -/
lemma openBlock_of_admits {b : Builder} (hroot : b.top.role = .root → b.outer = [])
    (h : (b.pending?.all fun label => b.top.role.admits label.value) = true) (source : Source) :
    b.openBlock source = pure
      { top := ⟨b.pending?, b.top.role.child (b.pending?.map Sourced.value), source, #[]⟩
        outer := b.top :: b.outer } := by
  unfold openBlock
  cases hpending : b.pending? with
  | none => rfl
  | some label =>
    rw [hpending] at h
    dsimp only
    rw [recover_of_admits hroot h]
    rfl

/-- A closing brace adds the innermost block to the one around it. -/
lemma step_closing_append (label? : Option (Sourced String)) (role : Role)
    (source closer : Source) (items : List Item) (parent : Frame) (outer : List Frame) :
    step { top := Frame.append ⟨label?, role, source, #[]⟩ items, outer := parent :: outer }
        ⟨.closing, closer⟩ =
      pure { top := parent.push (.block label? source items), outer } := by
  simp [step, closeBlock, dropPending, Frame.item, Frame.append]

end Builder

/-- **A spelling adds its items to the innermost open block**, and nothing is found.

**Proof sketch.** Induction on the spelling. At an opening brace the new block is the innermost
one, it is empty, and it is not the whole configuration; the spelling of what it holds fills it,
and the closing brace adds it to the block around it. -/
theorem foldlM_step_of_spells {items : List Item} {ts : List Token} (h : Spells items ts)
    (b : Builder) (hpending : b.pending? = none) (hroot : b.top.role = .root → b.outer = [])
    (hfits : Item.fitAll b.top.role items = true) :
    ts.foldlM Builder.step b = pure { b with top := b.top.append items } := by
  induction h generalizing b with
  | nil => simp
  | @value label? text items ts _ ih =>
    rw [Item.fitAll, Item.fits, Bool.true_and] at hfits
    have hrest := ih { b with top := b.top.push (.value label? text), pending? := none } rfl hroot
      hfits
    rw [Frame.push_append] at hrest
    rw [Builder.foldlM_labelTokens hpending, List.foldlM_cons, hpending]
    exact hrest
  | @block label? source inner items ts ts' closer _ _ ihinner ih =>
    rw [Item.fitAll, Item.fits, Bool.and_eq_true, Bool.and_eq_true] at hfits
    obtain ⟨⟨hlabel, hinner⟩, hitems⟩ := hfits
    have hopen : Builder.step { b with pending? := label? } ⟨.opening, source⟩ = pure
        { top := ⟨label?, b.top.role.child (label?.map Sourced.value), source, #[]⟩
          outer := b.top :: b.outer } :=
      Builder.openBlock_of_admits (b := { b with pending? := label? }) hroot hlabel source
    have hfill := ihinner
      { top := ⟨label?, b.top.role.child (label?.map Sourced.value), source, #[]⟩
        outer := b.top :: b.outer } rfl (fun hrole => absurd hrole (Role.child_ne_root _ _)) hinner
    have hclose := Builder.step_closing_append label?
      (b.top.role.child (label?.map Sourced.value)) source closer inner b.top b.outer
    have hrest := ih { b with top := b.top.push (.block label? source inner), pending? := none }
      rfl hroot hitems
    rw [Frame.push_append] at hrest
    rw [Builder.foldlM_labelTokens hpending, List.foldlM_cons, hopen, pure_bind,
      List.foldlM_append, hfill, pure_bind, List.foldlM_cons, hclose, pure_bind, hrest, hpending]

/-- **Every spelling of items is read back as these items**, each with the places of its label,
its value and its opening brace, and nothing is found. There is a spelling for all items; they
are asked only that no farm and no cache among them holds a labelled block of another kind than
it may hold. -/
theorem build_of_spells {items : List Item} (hfits : Item.fitAll .root items = true) :
    (∃ ts, Spells items ts) ∧ ∀ ts, Spells items ts → build ts = pure items := by
  refine ⟨exists_spells items, fun ts h => ?_⟩
  unfold build
  dsimp only
  rw [foldlM_step_of_spells h _ rfl (fun _ => rfl) hfits]
  simp [Builder.finish, Builder.dropPending, Builder.closeAll, Frame.append]

/-- Line `n` of a file. -/
def siteLine (n : Nat) : Source :=
  ⟨some "d.any", some n, none⟩

/-- Two farms, the first with a cache. A block in the whole configuration, one in the list of
farms and one in a list of a farm may have any label or none. -/
def siteItems : List Item :=
  [.value (some ⟨"name", siteLine 1⟩) ⟨"x", siteLine 2⟩,
    .block (some ⟨"bogus", siteLine 3⟩) (siteLine 3) [.value none ⟨"y", siteLine 3⟩],
    .block (some ⟨"farms", siteLine 4⟩) (siteLine 5)
      [.block (some ⟨"publish", siteLine 6⟩) (siteLine 6)
        [.block (some ⟨"cache", siteLine 7⟩) (siteLine 7)
          [.block (some ⟨"rules", siteLine 8⟩) (siteLine 8) [.block none (siteLine 8) []]]],
        .block (some ⟨"author", siteLine 9⟩) (siteLine 9) []]]

/-- Their spelling, with every closing brace on line 10. -/
def siteTokens : List Token :=
  [⟨.label "name", siteLine 1⟩, ⟨.value "x", siteLine 2⟩,
    ⟨.label "bogus", siteLine 3⟩, ⟨.opening, siteLine 3⟩, ⟨.value "y", siteLine 3⟩,
    ⟨.closing, siteLine 10⟩,
    ⟨.label "farms", siteLine 4⟩, ⟨.opening, siteLine 5⟩,
    ⟨.label "publish", siteLine 6⟩, ⟨.opening, siteLine 6⟩,
    ⟨.label "cache", siteLine 7⟩, ⟨.opening, siteLine 7⟩,
    ⟨.label "rules", siteLine 8⟩, ⟨.opening, siteLine 8⟩, ⟨.opening, siteLine 8⟩,
    ⟨.closing, siteLine 10⟩, ⟨.closing, siteLine 10⟩, ⟨.closing, siteLine 10⟩,
    ⟨.closing, siteLine 10⟩,
    ⟨.label "author", siteLine 9⟩, ⟨.opening, siteLine 9⟩, ⟨.closing, siteLine 10⟩,
    ⟨.closing, siteLine 10⟩]

/-- The two farms are read back from their spelling. -/
theorem build_siteTokens :
    Item.fitAll .root siteItems = true ∧ Spells siteItems siteTokens ∧
      build siteTokens = pure siteItems := by
  have hfits : Item.fitAll .root siteItems = true := by decide
  have hspells : Spells siteItems siteTokens :=
    .value (.block (siteLine 10) (.value .nil) (.block (siteLine 10)
      (.block (siteLine 10)
        (.block (siteLine 10) (.block (siteLine 10) (.block (siteLine 10) .nil .nil) .nil) .nil)
        (.block (siteLine 10) .nil .nil)) .nil))
  exact ⟨hfits, hspells, (build_of_spells hfits).2 siteTokens hspells⟩

end ProxyLint.Any
