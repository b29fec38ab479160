import ProxyLint.Any.Block
import ProxyLint.Proofs.Provenance.Basic

set_option relaxedAutoImplicit false
set_option autoImplicit false

/-!
# Places of tokens and blocks

Lines become tokens and tokens become a tree of blocks, whatever the places of
the lines are.

## Main results

* `ProxyLint.Any.tokens_forget`, `ProxyLint.Any.build_forget` — both readers commute
  with forgetting places.
-/

namespace ProxyLint.Any

open Placed

/-! ### Tokens -/

instance : Placed Token := ⟨fun t => { t with source := .unknown }⟩

/-- The place of a token is no part of its symbol. -/
@[simp] lemma symbol_forget (t : Token) : (forget t).symbol = t.symbol := rfl

/-- Forgetting the places of tokens leaves their symbols. -/
lemma forget_symbols (ss : List Symbol) (source : Source) :
    forget (ss.map fun s => (⟨s, source⟩ : Token)) = ss.map fun s => ⟨s, .unknown⟩ :=
  List.map_map

/-- The tokens of a line are the same wherever it is written. -/
lemma lineTokens_forget (l : Line) : lineTokens (forget l) = forget (lineTokens l) := by
  simp only [lineTokens, content_forget, source_forget_line]
  cases (scan l.content.toList).unmatched? with
  | none => exact congrArg pure (forget_symbols _ _).symm
  | some run => exact note_bind_forget (congrArg pure (forget_symbols _ _).symm) _ _ _

/-- The tokens of lines are the same wherever the lines are written. -/
theorem tokens_forget (ls : List Line) : tokens (forget ls) = forget (tokens ls) := by
  induction ls with
  | nil => rfl
  | cons l ls ih =>
    rw [forget_cons, tokens, tokens, lineTokens_forget, ih]
    refine forget_bind (fun first => ?_) _
    refine forget_bind (fun others => ?_) _
    rw [forget_pure, forget_append]

/-! ### Blocks -/

mutual

/-- An item with every place forgotten. -/
def Item.forget : Item → Item
  | .value label? text => .value (Placed.forget label?) (Placed.forget text)
  | .block label? _ items => .block (Placed.forget label?) .unknown (Item.forgetAll items)

/-- Items with every place forgotten. -/
def Item.forgetAll : List Item → List Item
  | [] => []
  | item :: items => item.forget :: Item.forgetAll items

end

instance : Placed Item := ⟨Item.forget⟩

/-- Items are forgotten one by one. -/
lemma forgetAll_eq (items : List Item) : Item.forgetAll items = forget items := by
  induction items with
  | nil => rfl
  | cons item items ih => rw [Item.forgetAll, ih]; rfl

/-- A value keeps its text. -/
@[simp] lemma forget_value (label? : Option (Sourced String)) (text : Sourced String) :
    forget (Item.value label? text) = .value (forget label?) (forget text) := by
  show Item.forget _ = _
  rw [Item.forget]

/-- A block keeps its items, with their places forgotten. -/
@[simp] lemma forget_block (label? : Option (Sourced String)) (source : Source)
    (items : List Item) :
    forget (Item.block label? source items) = .block (forget label?) .unknown (forget items) := by
  show Item.forget _ = _
  rw [Item.forget, forgetAll_eq]

instance : Placed Frame :=
  ⟨fun f => ⟨forget f.label?, f.role, .unknown, (forget f.items.toList).toArray⟩⟩

instance : Placed Builder :=
  ⟨fun b => ⟨forget b.top, forget b.outer, forget b.pending?⟩⟩

namespace Frame

/-- The place of a frame is no part of its role. -/
@[simp] lemma role_forget (f : Frame) : (forget f).role = f.role := rfl

/-- An item may be forgotten before it is put into a frame. -/
lemma push_forget (f : Frame) (item : Item) :
    (forget f).push (forget item) = forget (f.push item) := by
  simp [push, forget]

/-- A frame is closed to the same block wherever it has been opened. -/
lemma item_forget (f : Frame) : (forget f).item = forget f.item :=
  (forget_block f.label? f.source f.items.toList).symm

/-- An unclosed frame is the same fault wherever it has been opened. -/
lemma noteUnclosed_forget (f : Frame) : (forget f).noteUnclosed = forget f.noteUnclosed := by
  obtain ⟨label?, role, source, items⟩ := f
  cases label? <;> rfl

end Frame

namespace Builder

/-- The state of a reader is forgotten part by part. -/
@[simp] lemma forget_mk (top : Frame) (outer : List Frame) (pending? : Option (Sourced String)) :
    forget (⟨top, outer, pending?⟩ : Builder) = ⟨forget top, forget outer, forget pending?⟩ := rfl

/-- A dropped label is the same fault wherever it is written. -/
lemma dropPending_forget (b : Builder) : (forget b).dropPending = forget b.dropPending := by
  obtain ⟨top, outer, pending?⟩ := b
  cases pending? with
  | none => rfl
  | some label => rfl

/-- The same blocks are closed up to a label wherever they have been opened. -/
lemma closeUntil_forget (label : String) (top : Frame) (outer : List Frame) :
    closeUntil label (forget top) (forget outer) = forget (closeUntil label top outer) := by
  induction outer generalizing top with
  | nil => rfl
  | cons parent outer ih =>
    rw [forget_cons, closeUntil, closeUntil, Frame.role_forget]
    split
    · rfl
    · rw [Frame.noteUnclosed_forget, Frame.item_forget, Frame.push_forget]
      exact forget_bind (fun _ => ih _) _

/-- The same blocks are closed for a label that does not fit, wherever they have been opened. -/
lemma recover_forget (b : Builder) (label : String) :
    (forget b).recover label = forget (b.recover label) := by
  obtain ⟨top, outer, pending?⟩ := b
  have hany : (forget outer).any (fun f => f.role.accepts label) =
      outer.any fun f => f.role.accepts label := List.any_map
  unfold recover
  rw [forget_mk]
  dsimp only
  rw [hany, Frame.role_forget]
  split
  · rfl
  · rw [closeUntil_forget]
    refine forget_bind (fun cut => ?_) _
    obtain ⟨top', outer'⟩ := cut
    rfl

/-- The same block is opened wherever its brace is written. -/
lemma openBlock_forget (b : Builder) (source : Source) :
    (forget b).openBlock .unknown = forget (b.openBlock source) := by
  obtain ⟨top, outer, pending?⟩ := b
  cases pending? with
  | none => rfl
  | some label =>
    have hrecover := recover_forget ⟨top, outer, some label⟩ label.value
    simp only [openBlock, forget_mk, forget_some, value_forget_sourced, forget_string] at hrecover ⊢
    rw [hrecover]
    exact forget_bind (fun (_ : Builder) => rfl) _

/-- The same block is closed wherever its brace is written. -/
lemma closeBlock_forget (b : Builder) (source : Source) :
    (forget b).closeBlock .unknown = forget (b.closeBlock source) := by
  unfold closeBlock
  rw [dropPending_forget]
  refine forget_bind (fun b => ?_) _
  obtain ⟨top, outer, pending?⟩ := b
  cases outer with
  | nil => rfl
  | cons parent outer =>
    simp only [forget_mk, forget_cons, forget_pure, Frame.item_forget, Frame.push_forget]

/-- One token is read in the same way wherever it is written. -/
lemma step_forget (b : Builder) (t : Token) :
    (forget b).step (forget t) = forget (b.step t) := by
  obtain ⟨symbol, source⟩ := t
  cases symbol with
  | label name =>
    simp only [step, symbol_forget, dropPending_forget]
    exact forget_bind (fun (_ : Builder) => rfl) _
  | value text =>
    have hpush := Frame.push_forget b.top (.value b.pending? ⟨text, source⟩)
    rw [forget_value] at hpush
    simp only [step, symbol_forget, forget_pure, forget_mk, ← hpush]
    rfl
  | opening => exact openBlock_forget b source
  | closing => exact closeBlock_forget b source

/-- At the end the same blocks are closed wherever they have been opened. -/
lemma closeAll_forget (top : Frame) (outer : List Frame) :
    closeAll (forget top) (forget outer) = forget (closeAll top outer) := by
  induction outer generalizing top with
  | nil => rfl
  | cons parent outer ih =>
    rw [forget_cons, closeAll, closeAll, Frame.noteUnclosed_forget, Frame.item_forget,
      Frame.push_forget]
    exact forget_bind (fun _ => ih _) _

/-- In the end the same tree is read wherever its tokens are written. -/
lemma finish_forget (b : Builder) : (forget b).finish = forget b.finish := by
  unfold finish
  rw [dropPending_forget]
  refine forget_bind (fun b => ?_) _
  have hclose : closeAll (forget b).top (forget b).outer = forget (closeAll b.top b.outer) :=
    closeAll_forget b.top b.outer
  rw [hclose]
  refine forget_bind (fun root => ?_) _
  rw [forget_pure]
  rfl

end Builder

/-- The blocks of tokens are the same wherever the tokens are written. -/
theorem build_forget (ts : List Token) : build (forget ts) = forget (build ts) := by
  have hsource : (((forget ts).head?.map Token.source).getD Source.unknown) = .unknown := by
    cases ts <;> rfl
  have hsteps := foldlM_forget Builder.step_forget ts
    { top := ⟨none, .root, (ts.head?.map Token.source).getD Source.unknown, #[]⟩ }
  simp only [build, hsource]
  refine Eq.trans (congrArg (· >>= Builder.finish) hsteps) ?_
  exact forget_bind Builder.finish_forget _

end ProxyLint.Any
