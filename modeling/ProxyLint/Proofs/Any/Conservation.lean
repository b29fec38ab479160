import Mathlib.Data.List.Basic
import ProxyLint.Proofs.Any.Spelling

set_option relaxedAutoImplicit false
set_option autoImplicit false

/-!
# Conservation of tokens

Whatever tokens are read, none gets lost silently. The labels, values and opening braces are
those of the tree, in the order in which the tree holds them, except for labels without a value,
each of which is noted. Every opening brace has its closing brace or is noted, and every other
closing brace is noted.

## Main definitions

* `ProxyLint.Any.Interleaves` — a list consists of two others, each in its order.
* `ProxyLint.Any.Item.outlineAll` — the labels, values and opening braces of items in order.
* `ProxyLint.Any.Accounts` — what has been read is in the open blocks or has been noted.

## Main results

* `ProxyLint.Any.Accounts.step`, `ProxyLint.Any.Accounts.foldlM` — one token, and so every
  sequence of tokens, keeps the account.
* `ProxyLint.Any.build_keeps_tokens` — the account of a whole tree.
-/

namespace ProxyLint.Any

/-! ### Interleaved lists -/

/-- `Interleaves as bs cs` says that `cs` consists of `as` and `bs`, each in its order. -/
inductive Interleaves {α : Type} : List α → List α → List α → Prop where
  | nil : Interleaves [] [] []
  | left {a : α} {as bs cs : List α} : Interleaves as bs cs → Interleaves (a :: as) bs (a :: cs)
  | right {b : α} {as bs cs : List α} : Interleaves as bs cs → Interleaves as (b :: bs) (b :: cs)

namespace Interleaves

variable {α β : Type} {as bs cs : List α}

/-- A list is interleaved with nothing to itself. -/
lemma nil_right (as : List α) : Interleaves as [] as := by
  induction as with
  | nil => exact .nil
  | cons a as ih => exact .left ih

/-- Nothing is interleaved with a list to the list. -/
lemma nil_left (bs : List α) : Interleaves [] bs bs := by
  induction bs with
  | nil => exact .nil
  | cons b bs ih => exact .right ih

/-- Interleaved lists may be appended. -/
lemma append {as' bs' cs' : List α} (h : Interleaves as bs cs) (h' : Interleaves as' bs' cs') :
    Interleaves (as ++ as') (bs ++ bs') (cs ++ cs') := by
  induction h with
  | nil => exact h'
  | left _ ih => exact .left ih
  | right _ ih => exact .right ih

/-- The first list may go on alone. -/
lemma append_left (h : Interleaves as bs cs) (as' : List α) :
    Interleaves (as ++ as') bs (cs ++ as') := by
  simpa using h.append (nil_right as')

/-- The second list may go on alone. -/
lemma append_right (h : Interleaves as bs cs) (bs' : List α) :
    Interleaves as (bs ++ bs') (cs ++ bs') := by
  simpa using h.append (nil_left bs')

/-- Only a list itself is interleaved from it and nothing. -/
lemma eq_of_nil_right (h : Interleaves as [] cs) : as = cs := by
  generalize hbs : ([] : List α) = bs at h
  induction h with
  | nil => rfl
  | left _ ih => rw [ih hbs]
  | right _ _ => cases hbs

/-- Only a list itself is interleaved from nothing and it. -/
lemma eq_of_nil_left (h : Interleaves [] bs cs) : bs = cs := by
  generalize has : ([] : List α) = as at h
  induction h with
  | nil => rfl
  | left _ _ => cases has
  | right _ ih => rw [ih has]

/-- What stands in the first list stands in the interleaved one. -/
lemma mem_of_mem_left (h : Interleaves as bs cs) {a : α} (ha : a ∈ as) : a ∈ cs := by
  induction h with
  | nil => exact ha
  | left _ ih =>
    rcases List.mem_cons.1 ha with rfl | ha
    · exact List.mem_cons_self
    · exact List.mem_cons_of_mem _ (ih ha)
  | right _ ih => exact List.mem_cons_of_mem _ (ih ha)

/-- What is picked out of the parts is interleaved to what is picked out of the whole. -/
lemma filterMap (f : α → Option β) (h : Interleaves as bs cs) :
    Interleaves (as.filterMap f) (bs.filterMap f) (cs.filterMap f) := by
  induction h with
  | nil => exact .nil
  | @left a _ _ _ _ ih =>
    cases hf : f a with
    | none => simpa only [List.filterMap_cons, hf] using ih
    | some b => simpa only [List.filterMap_cons, hf] using ih.left
  | @right a _ _ _ _ ih =>
    cases hf : f a with
    | none => simpa only [List.filterMap_cons, hf] using ih
    | some b => simpa only [List.filterMap_cons, hf] using ih.right

end Interleaves

/-! ### Tokens by kind -/

namespace Token

/-- The label that a token is. -/
def label? (t : Token) : Option (Sourced String) :=
  match t.symbol with
  | .label name => some ⟨name, t.source⟩
  | _ => none

/-- The value that a token is. -/
def value? (t : Token) : Option (Sourced String) :=
  match t.symbol with
  | .value text => some ⟨text, t.source⟩
  | _ => none

/-- Whether a token is an opening brace. -/
def isOpening (t : Token) : Bool :=
  t.symbol == .opening

/-- Whether a token is a closing brace. -/
def isClosing (t : Token) : Bool :=
  t.symbol == .closing

end Token

/-! ### Findings by kind -/

/-- What is noted for a label without a value. -/
def dangling (label : Sourced String) : Finding :=
  ⟨.anyBraceMissing, "/" ++ label.value ++ " has no value or block", label.source⟩

/-- What is noted for a closing brace without an open block. -/
def stray (source : Source) : Finding :=
  ⟨.anyBraceMissing, "unexpected '\x7d'", source⟩

/-- Whether a finding is about a label without a value. -/
def isDangling (f : Finding) : Bool :=
  f.fault == .anyBraceMissing && " has no value or block".toList.isSuffixOf f.context.toList

/-- Whether a finding is about a closing brace without an open block. -/
def isStray (f : Finding) : Bool :=
  f.fault == .anyBraceMissing && f.context == "unexpected '\x7d'"

/-- Whether a finding is about a block that is not closed. -/
def isUnclosed (f : Finding) : Bool :=
  f.fault == .anyBraceUnclosed

/-- The fault of a label without content is told from its text. -/
@[simp] lemma isDangling_dangling (label : Sourced String) :
    isDangling (dangling label) = true := by
  simp [isDangling, dangling, List.isSuffixOf_iff_suffix]

/-- A label without content is not reported as a stray brace. -/
@[simp] lemma isStray_dangling (label : Sourced String) : isStray (dangling label) = false := by
  have hne : "/" ++ label.value ++ " has no value or block" ≠ "unexpected '\x7d'" := by
    intro h
    have hhead := congrArg (fun s : String => s.toList.head?) h
    simp at hhead
  simp [isStray, dangling, hne]

/-- A label without content is not reported as an unclosed block. -/
@[simp] lemma isUnclosed_dangling (label : Sourced String) : isUnclosed (dangling label) = false :=
  rfl

/-- The fault of a stray brace is not that of a label. -/
@[simp] lemma isDangling_stray (source : Source) : isDangling (stray source) = false := by
  show (true && " has no value or block".toList.isSuffixOf "unexpected '\x7d'".toList) = false
  decide

/-- The fault of a stray brace is told from its text. -/
@[simp] lemma isStray_stray (source : Source) : isStray (stray source) = true := rfl

/-- A stray brace is not reported as an unclosed block. -/
@[simp] lemma isUnclosed_stray (source : Source) : isUnclosed (stray source) = false := rfl

/-! ### Items in document order -/

mutual

/-- The label of an item and its value, or its opening brace and what it holds, in order. -/
def Item.outline : Item → List Token
  | .value label? text => labelTokens label? ++ [⟨.value text.value, text.source⟩]
  | .block label? source items => labelTokens label? ++ ⟨.opening, source⟩ :: Item.outlineAll items

/-- The labels, values and opening braces of items in order. -/
def Item.outlineAll : List Item → List Token
  | [] => []
  | item :: items => item.outline ++ Item.outlineAll items

end

/-- The outline of items in a row is put together from their outlines. -/
@[simp] lemma Item.outlineAll_append (items items' : List Item) :
    outlineAll (items ++ items') = outlineAll items ++ outlineAll items' := by
  induction items with
  | nil => rfl
  | cons item items ih => simp [outlineAll, ih]

/-- The labels, values and opening braces of the open blocks in order. The outermost block is
the whole configuration, which has no brace. -/
def outlineFrom (top : Frame) : List Frame → List Token
  | [] => Item.outlineAll top.items.toList
  | parent :: outer => outlineFrom parent outer ++ top.item.outline

/-- An item that is added to the innermost block comes last. -/
lemma outlineFrom_push (f : Frame) (item : Item) (outer : List Frame) :
    outlineFrom (f.push item) outer = outlineFrom f outer ++ item.outline := by
  cases outer with
  | nil => simp [outlineFrom, Frame.push, Item.outlineAll]
  | cons parent outer =>
    simp [outlineFrom, Frame.push, Frame.item, Item.outline, Item.outlineAll]

/-! ### Blocks that are not closed -/

/-- Some innermost blocks are closed without a closing brace, and as many findings say so. -/
structure Unwinds (top : Frame) (outer : List Frame) (top' : Frame) (outer' : List Frame)
    (found : List Finding) : Prop where
  outline : outlineFrom top' outer' = outlineFrom top outer
  length : outer'.length + found.length = outer.length
  unclosed : ∀ f ∈ found, f.fault = .anyBraceUnclosed

namespace Unwinds

/-- A stack that is not unwound notes nothing. -/
lemma refl (top : Frame) (outer : List Frame) : Unwinds top outer top outer [] where
  outline := rfl
  length := rfl
  unclosed := by simp

/-- Closing one block more notes what its closing notes. -/
lemma cons {top parent top' : Frame} {outer outer' : List Frame} {found : List Finding}
    (h : Unwinds (parent.push top.item) outer top' outer' found) :
    Unwinds top (parent :: outer) top' outer' (top.noteUnclosed.findings ++ found) where
  outline := h.outline.trans (outlineFrom_push _ _ _)
  length := by
    have hlength := h.length
    simp [Frame.noteUnclosed, note]
    omega
  unclosed := by
    intro f hf
    rcases List.mem_append.1 hf with hf | hf
    · rw [List.mem_singleton.1 hf]
    · exact h.unclosed f hf

end Unwinds

namespace Builder

/-- Blocks are closed up to a label from the innermost on. -/
lemma unwinds_closeUntil (label : String) (top : Frame) (outer : List Frame) :
    Unwinds top outer (closeUntil label top outer).value.1 (closeUntil label top outer).value.2
      (closeUntil label top outer).findings := by
  induction outer generalizing top with
  | nil => exact .refl top []
  | cons parent outer ih =>
    unfold closeUntil
    split
    · exact .refl top _
    · exact .cons (ih _)

/-- At the end all blocks are closed from the innermost on. -/
lemma unwinds_closeAll (top : Frame) (outer : List Frame) :
    Unwinds top outer (closeAll top outer).value [] (closeAll top outer).findings := by
  induction outer generalizing top with
  | nil => exact .refl top []
  | cons parent outer ih => exact .cons (ih _)

/-- Recovery closes some innermost blocks and does nothing else. -/
lemma exists_recover_eq (b : Builder) (label : String) : ∃ top outer found,
    Unwinds b.top b.outer top outer found ∧ b.recover label = ⟨{ b with top, outer }, found⟩ := by
  unfold recover
  split
  · exact ⟨b.top, b.outer, [], .refl _ _, rfl⟩
  · have hclose := unwinds_closeUntil label b.top b.outer
    rw [← List.append_nil (Noted.findings _)] at hclose
    exact ⟨_, _, _, hclose, rfl⟩

end Builder

/-! ### What a token does -/

namespace Builder

/-- A pending label that is dropped is noted as dangling. -/
lemma dropPending_eq (b : Builder) :
    b.dropPending = ⟨{ b with pending? := none }, b.pending?.toList.map dangling⟩ := by
  obtain ⟨top, outer, pending?⟩ := b
  cases pending? <;> rfl

/-- A label takes the place of the pending one. -/
lemma step_label (b : Builder) (name : String) (source : Source) :
    b.step ⟨.label name, source⟩ =
      ⟨{ b with pending? := some ⟨name, source⟩ }, b.pending?.toList.map dangling⟩ := by
  simp only [step, dropPending_eq]
  exact Noted.ext rfl (List.append_nil _)

/-- An opening brace opens a block with the label that waits, once some blocks may have been
closed. -/
lemma step_opening (b : Builder) (source : Source) : ∃ top outer found role,
    Unwinds b.top b.outer top outer found ∧ b.step ⟨.opening, source⟩ =
      ⟨{ top := ⟨b.pending?, role, source, #[]⟩, outer := top :: outer }, found⟩ := by
  obtain ⟨top, outer, pending?⟩ := b
  cases pending? with
  | none => exact ⟨top, outer, [], _, .refl _ _, rfl⟩
  | some label =>
    obtain ⟨top', outer', found, hunwinds, hrecover⟩ :=
      exists_recover_eq ⟨top, outer, some label⟩ label.value
    refine ⟨top', outer', found, top'.role.child (some label.value), hunwinds, ?_⟩
    simp only [step, openBlock, hrecover]
    exact Noted.ext rfl (List.append_nil _)

/-- A closing brace outside of all blocks is stray. -/
lemma step_closing_nil (top : Frame) (pending? : Option (Sourced String)) (source : Source) :
    step ⟨top, [], pending?⟩ ⟨.closing, source⟩ =
      ⟨{ top }, pending?.toList.map dangling ++ [stray source]⟩ := by
  simp only [step, closeBlock, dropPending_eq]
  rfl

/-- A closing brace closes the innermost block. -/
lemma step_closing_cons (top parent : Frame) (outer : List Frame)
    (pending? : Option (Sourced String)) (source : Source) :
    step ⟨top, parent :: outer, pending?⟩ ⟨.closing, source⟩ =
      ⟨{ top := parent.push top.item, outer }, pending?.toList.map dangling⟩ := by
  simp only [step, closeBlock, dropPending_eq]
  exact Noted.ext rfl (List.append_nil _)

/-- At the end the label that waits is dropped, and all blocks are closed. -/
lemma finish_eq (b : Builder) :
    b.finish = ⟨(closeAll b.top b.outer).value.items.toList,
      b.pending?.toList.map dangling ++ (closeAll b.top b.outer).findings⟩ := by
  simp only [finish, dropPending_eq]
  exact Noted.ext rfl (congrArg (_ ++ ·) (List.append_nil _))

end Builder

/-! ### The account -/

/-- What has been read so far is accounted for: the tokens `ts` are in the open blocks of the
builder or in the findings. -/
structure Accounts (ts : List Token) (b : Builder) (found : List Finding) : Prop where
  /-- Labels, values and opening braces are those of the open blocks and the labels that have
  been dropped; a label that waits for its value has been read last. -/
  kept : ∃ (front : List Token) (dropped : List (Sourced String)),
    (ts.filter fun t => !t.isClosing) = front ++ labelTokens b.pending? ∧
      Interleaves (outlineFrom b.top b.outer) (dropped.map .ofLabel) front ∧
      found.filter isDangling = dropped.map dangling
  /-- A block is open, or it has been closed, with or without a closing brace. -/
  opened : b.outer.length + found.countP isUnclosed ≤ ts.countP Token.isOpening
  /-- A closing brace has closed a block or has been noted. -/
  closed : ts.countP Token.isClosing + b.outer.length + found.countP isUnclosed =
    ts.countP Token.isOpening + found.countP isStray

namespace Accounts

variable {ts : List Token} {b : Builder} {found : List Finding}

/-- Before the first token nothing has to be accounted for. -/
lemma start (source : Source) : Accounts [] { top := ⟨none, .root, source, #[]⟩ } [] where
  kept := ⟨[], [], rfl, .nil, rfl⟩
  opened := Nat.le_refl _
  closed := rfl

/-- A label that is dropped is noted. -/
lemma drop_pending (h : Accounts ts b found) :
    Accounts ts { b with pending? := none } (found ++ b.pending?.toList.map dangling) := by
  obtain ⟨top, outer, pending?⟩ := b
  cases pending? with
  | none => simpa using h
  | some label =>
    obtain ⟨front, dropped, hts, hfront, hfound⟩ := h.kept
    refine ⟨⟨front ++ [.ofLabel label], dropped ++ [label], ?_, ?_, ?_⟩, ?_, ?_⟩
    · exact hts.trans (List.append_nil _).symm
    · rw [List.map_append]
      exact hfront.append_right _
    · simp [hfound]
    · simpa using h.opened
    · simpa using h.closed

/-- Blocks that are closed without a closing brace are noted. -/
lemma unwind (h : Accounts ts b found) {top : Frame} {outer : List Frame}
    {found' : List Finding} (hunwinds : Unwinds b.top b.outer top outer found') :
    Accounts ts { b with top, outer } (found ++ found') := by
  have hunclosed : found'.countP isUnclosed = found'.length := by
    rw [List.countP_eq_length]
    intro f hf
    simp [isUnclosed, hunwinds.unclosed f hf]
  have hstray : found'.countP isStray = 0 := by
    rw [List.countP_eq_zero]
    intro f hf
    simp [isStray, hunwinds.unclosed f hf]
  have hdangling : found'.filter isDangling = [] := by
    rw [List.filter_eq_nil_iff]
    intro f hf
    simp [isDangling, hunwinds.unclosed f hf]
  obtain ⟨front, dropped, hts, hfront, hfound⟩ := h.kept
  have hlength := hunwinds.length
  have hopened := h.opened
  have hclosed := h.closed
  refine ⟨⟨front, dropped, hts, ?_, ?_⟩, ?_, ?_⟩
  · rw [hunwinds.outline]
    exact hfront
  · rw [List.filter_append, hdangling, List.append_nil, hfound]
  · rw [List.countP_append, hunclosed]
    dsimp only
    omega
  · rw [List.countP_append, List.countP_append, hunclosed, hstray]
    dsimp only
    omega

/-- A label is read and waits for its value. -/
lemma push_label (h : Accounts ts b found) (hpending : b.pending? = none)
    (label : Sourced String) :
    Accounts (ts ++ [.ofLabel label]) { b with pending? := some label } found := by
  obtain ⟨front, dropped, hts, hfront, hfound⟩ := h.kept
  rw [hpending] at hts
  refine ⟨⟨front, dropped, ?_, hfront, hfound⟩, ?_, ?_⟩
  · rw [List.filter_append, hts]
    simp [labelTokens, Token.ofLabel, Token.isClosing]
  · simpa [Token.ofLabel, Token.isOpening] using h.opened
  · simpa [Token.ofLabel, Token.isOpening, Token.isClosing] using h.closed

/-- A value is read and put into the innermost block. -/
lemma push_value (h : Accounts ts b found) (text : Sourced String) :
    Accounts (ts ++ [⟨.value text.value, text.source⟩])
      { b with top := b.top.push (.value b.pending? text), pending? := none } found := by
  obtain ⟨front, dropped, hts, hfront, hfound⟩ := h.kept
  refine ⟨⟨front ++ (labelTokens b.pending? ++ [⟨.value text.value, text.source⟩]), dropped,
    ?_, ?_, hfound⟩, ?_, ?_⟩
  · rw [List.filter_append, hts]
    simp [labelTokens, Token.isClosing]
  · rw [outlineFrom_push, Item.outline]
    exact hfront.append_left _
  · simpa [Token.isOpening] using h.opened
  · simpa [Token.isOpening, Token.isClosing] using h.closed

/-- An opening brace is read and opens a block. -/
lemma push_opening (h : Accounts ts b found) (role : Role) (source : Source) :
    Accounts (ts ++ [⟨.opening, source⟩])
      { top := ⟨b.pending?, role, source, #[]⟩, outer := b.top :: b.outer } found := by
  obtain ⟨front, dropped, hts, hfront, hfound⟩ := h.kept
  have hopened := h.opened
  have hclosed := h.closed
  refine ⟨⟨front ++ (labelTokens b.pending? ++ [⟨.opening, source⟩]), dropped, ?_, ?_, hfound⟩,
    ?_, ?_⟩
  · rw [List.filter_append, hts]
    simp [labelTokens, Token.isClosing]
  · exact hfront.append_left _
  · simp [Token.isOpening] at hopened ⊢
    omega
  · simp [Token.isOpening, Token.isClosing] at hclosed ⊢
    omega

/-- A closing brace is read and closes the innermost block. -/
lemma push_closing {top parent : Frame} {outer : List Frame}
    (h : Accounts ts { top, outer := parent :: outer } found) (source : Source) :
    Accounts (ts ++ [⟨.closing, source⟩]) { top := parent.push top.item, outer } found := by
  obtain ⟨front, dropped, hts, hfront, hfound⟩ := h.kept
  have hopened := h.opened
  have hclosed := h.closed
  refine ⟨⟨front, dropped, ?_, ?_, hfound⟩, ?_, ?_⟩
  · rw [List.filter_append, hts]
    exact List.append_nil _
  · rw [outlineFrom_push]
    exact hfront
  · simp [Token.isOpening] at hopened ⊢
    omega
  · simp [Token.isOpening, Token.isClosing] at hclosed ⊢
    omega

/-- A closing brace without an open block is noted. -/
lemma push_stray {top : Frame} (h : Accounts ts { top } found) (source : Source) :
    Accounts (ts ++ [⟨.closing, source⟩]) { top } (found ++ [stray source]) := by
  obtain ⟨front, dropped, hts, hfront, hfound⟩ := h.kept
  have hclosed := h.closed
  refine ⟨⟨front, dropped, ?_, hfront, ?_⟩, ?_, ?_⟩
  · rw [List.filter_append, hts]
    exact List.append_nil _
  · simp [hfound]
  · simpa [Token.isOpening] using h.opened
  · simp [Token.isOpening, Token.isClosing] at hclosed ⊢
    omega

/-- **One token keeps the account.** -/
theorem step (h : Accounts ts b found) (t : Token) :
    Accounts (ts ++ [t]) (b.step t).value (found ++ (b.step t).findings) := by
  obtain ⟨symbol, source⟩ := t
  cases symbol with
  | label name =>
    rw [Builder.step_label]
    exact h.drop_pending.push_label rfl ⟨name, source⟩
  | value text =>
    have hvalue := h.push_value ⟨text, source⟩
    rw [← List.append_nil found] at hvalue
    exact hvalue
  | opening =>
    -- the label that waits is neither dropped nor moved by the blocks that are closed before it
    obtain ⟨top, outer, found', role, hunwinds, hopen⟩ := b.step_opening source
    rw [hopen]
    exact (h.unwind hunwinds).push_opening role source
  | closing =>
    have hdrop := h.drop_pending
    obtain ⟨top, outer, pending?⟩ := b
    cases outer with
    | nil =>
      rw [Builder.step_closing_nil, ← List.append_assoc]
      exact hdrop.push_stray source
    | cons parent outer =>
      rw [Builder.step_closing_cons]
      exact hdrop.push_closing source

/-- **A sequence of tokens keeps the account.** -/
theorem foldlM (h : Accounts ts b found) (ts' : List Token) :
    Accounts (ts ++ ts') (ts'.foldlM Builder.step b).value
      (found ++ (ts'.foldlM Builder.step b).findings) := by
  induction ts' generalizing ts b found with
  | nil => simpa using h
  | cons t ts' ih =>
    have hrest := ih (h.step t)
    rw [List.append_assoc, List.append_assoc] at hrest
    rw [List.foldlM_cons]
    exact hrest

end Accounts

/-! ### The whole tree -/

/-- What is read is in the tree or in the findings once all tokens are read. -/
lemma accounts_build (ts : List Token) : ∃ root : Frame,
    (build ts).value = root.items.toList ∧ Accounts ts { top := root } (build ts).findings := by
  have hread := (Accounts.start ((ts.head?.map Token.source).getD Source.unknown)).foldlM ts
  unfold build
  dsimp only
  rw [List.nil_append, List.nil_append] at hread
  generalize ts.foldlM Builder.step _ = read at hread ⊢
  have hfinish := hread.drop_pending.unwind
    (Builder.unwinds_closeAll read.value.top read.value.outer)
  refine ⟨(Builder.closeAll read.value.top read.value.outer).value, ?_, ?_⟩
  · rw [Noted.value_bind, Builder.finish_eq]
  · rw [Noted.findings_bind, Builder.finish_eq, ← List.append_assoc]
    exact hfinish

/-- The labels, values and opening braces among tokens are not closing braces. -/
lemma filterMap_filter_isClosing {α : Type} {f : Token → Option α}
    (hf : ∀ source, f ⟨.closing, source⟩ = none) (ts : List Token) :
    (ts.filter fun t => !t.isClosing).filterMap f = ts.filterMap f := by
  rw [List.filterMap_filter]
  refine List.filterMap_congr fun t _ => ?_
  obtain ⟨symbol, source⟩ := t
  cases symbol with
  | closing => exact (hf source).symm
  | label name | value text | opening => rfl

/-- A function that ignores labels finds nothing in a list of them. -/
lemma filterMap_map_ofLabel {α : Type} {f : Token → Option α}
    (hf : ∀ label, f (.ofLabel label) = none) (labels : List (Sourced String)) :
    (labels.map Token.ofLabel).filterMap f = [] := by
  simp [hf]

/-- **No token gets lost silently**, whatever tokens are read. The values of the tree in
document order are the values among the tokens; so are the blocks of the tree and the opening
braces. The labels among the tokens are those of the tree in document order and those that have
been noted to have no value. The closing braces are as many as the opening ones less the blocks
that have been noted not to be closed, and those that have been noted as unexpected.

**Proof sketch.** The account of an empty sequence is kept by every token (`Accounts.foldlM`)
and by what happens at the end (`accounts_build`). Labels, values and braces are then picked out
of the interleaving of tree and dropped labels. -/
theorem build_keeps_tokens (ts : List Token) :
    (Item.outlineAll (build ts).value).filterMap Token.value? = ts.filterMap Token.value? ∧
      (Item.outlineAll (build ts).value).filter Token.isOpening = ts.filter Token.isOpening ∧
      (∃ dropped, Interleaves ((Item.outlineAll (build ts).value).filterMap Token.label?) dropped
          (ts.filterMap Token.label?) ∧
        (build ts).findings.filter isDangling = dropped.map dangling) ∧
      (build ts).findings.countP isUnclosed ≤ ts.countP Token.isOpening ∧
      ts.countP Token.isClosing =
        (ts.countP Token.isOpening - (build ts).findings.countP isUnclosed) +
          (build ts).findings.countP isStray := by
  obtain ⟨root, hvalue, haccounts⟩ := accounts_build ts
  obtain ⟨front, dropped, hts, hfront, hfound⟩ := haccounts.kept
  have hopened := haccounts.opened
  have hclosed := haccounts.closed
  rw [labelTokens, Option.toList_none, List.map_nil, List.append_nil] at hts
  subst hts
  rw [hvalue]
  refine ⟨?_, ?_, ⟨dropped, ?_, hfound⟩, ?_, ?_⟩
  -- only labels are dropped, so the values and opening braces are all in the tree
  · have hvalues := hfront.filterMap Token.value?
    rw [filterMap_filter_isClosing fun _ => rfl, filterMap_map_ofLabel fun _ => rfl] at hvalues
    exact hvalues.eq_of_nil_right
  · have hopenings := hfront.filterMap (Option.guard fun t => t.isOpening)
    rw [filterMap_filter_isClosing fun _ => rfl, filterMap_map_ofLabel fun _ => rfl,
      List.filterMap_eq_filter] at hopenings
    exact hopenings.eq_of_nil_right
  · have hlabels := hfront.filterMap Token.label?
    have hsome : Token.label? ∘ Token.ofLabel = some := rfl
    rw [filterMap_filter_isClosing fun _ => rfl, List.filterMap_map, hsome,
      List.filterMap_some] at hlabels
    exact hlabels
  · simpa using hopened
  · simp only [List.length_nil] at hopened hclosed
    omega

end ProxyLint.Any
