import ProxyLint.Proofs.Any.Conservation

set_option relaxedAutoImplicit false
set_option autoImplicit false

/-!
# Balanced braces

A document with balanced braces spells items, once the labels are left out that have neither a
value nor a block behind them. These are noted and otherwise change nothing. Whether the items
are read back as they are written is then a matter of their places alone: a labelled block in a
farm or a cache that may not hold it makes the reader close blocks that are not finished, and
this is noted.

## Main definitions

* `ProxyLint.Any.isBalanced` — every brace has its counterpart.
* `ProxyLint.Any.dropBare`, `ProxyLint.Any.bareLabels` — tokens without the labels that stand
  alone, and these labels.
* `ProxyLint.Any.Loses` — two readings differ in labels that are lost, and in nothing else.

## Main results

* `ProxyLint.Any.isBalanced_iff_exists_spells` — what a document with balanced braces is.
* `ProxyLint.Any.loses_readAll` — labels that stand alone are noted, and change nothing else.
* `ProxyLint.Any.build_eq_of_fitAll` — items in their places are read back.
* `ProxyLint.Any.exists_isUnclosed_build` — items out of their places are noted.
-/

namespace ProxyLint.Any

/-! ### Balanced documents -/

/-- Whether every closing brace closes a block and every block is closed, where `depth` blocks
are open. -/
def isBalanced : Nat → List Token → Bool
  | depth, [] => depth == 0
  | depth, t :: ts =>
    match t.symbol, depth with
    | .label _, depth | .value _, depth => isBalanced depth ts
    | .opening, depth => isBalanced (depth + 1) ts
    | .closing, depth + 1 => isBalanced depth ts
    | .closing, 0 => false

/-- Whether tokens begin with a value or a block. -/
def startsContent : List Token → Bool
  | [] => false
  | t :: _ =>
    match t.symbol with
    | .value _ | .opening => true
    | .label _ | .closing => false

/-- Tokens without the labels that stand alone, with neither a value nor a block behind them. -/
def dropBare : List Token → List Token
  | [] => []
  | t :: ts => if t.label?.isSome && !startsContent ts then dropBare ts else t :: dropBare ts

/-- The labels that stand alone. -/
def bareLabels : List Token → List (Sourced String)
  | [] => []
  | t :: ts => (if startsContent ts then [] else t.label?.toList) ++ bareLabels ts

section Tokens

variable (source : Source) (name text : String) (ts : List Token)

/-- Values stay. -/
@[simp] lemma dropBare_value :
    dropBare (⟨.value text, source⟩ :: ts) = ⟨.value text, source⟩ :: dropBare ts := rfl

/-- Opening braces stay. -/
@[simp] lemma dropBare_opening :
    dropBare (⟨.opening, source⟩ :: ts) = ⟨.opening, source⟩ :: dropBare ts := rfl

/-- Closing braces stay. -/
@[simp] lemma dropBare_closing :
    dropBare (⟨.closing, source⟩ :: ts) = ⟨.closing, source⟩ :: dropBare ts := rfl

/-- A label that is followed by its content stays. -/
lemma dropBare_label_of_content (h : startsContent ts = true) :
    dropBare (⟨.label name, source⟩ :: ts) = ⟨.label name, source⟩ :: dropBare ts := by
  simp [dropBare, h]

/-- A label without content goes. -/
lemma dropBare_label_of_bare (h : startsContent ts = false) :
    dropBare (⟨.label name, source⟩ :: ts) = dropBare ts := by
  simp [dropBare, h, Token.label?]

/-- A label starts no content. -/
@[simp] lemma startsContent_label : startsContent (⟨.label name, source⟩ :: ts) = false := rfl

/-- A value starts content. -/
@[simp] lemma startsContent_value : startsContent (⟨.value text, source⟩ :: ts) = true := rfl

/-- An opening brace starts content. -/
@[simp] lemma startsContent_opening : startsContent (⟨.opening, source⟩ :: ts) = true := rfl

/-- A closing brace starts no content. -/
@[simp] lemma startsContent_closing : startsContent (⟨.closing, source⟩ :: ts) = false := rfl

/-- A label is bare if it is not followed by its content. -/
lemma bareLabels_label : bareLabels (⟨.label name, source⟩ :: ts) =
    (if startsContent ts then [] else [⟨name, source⟩]) ++ bareLabels ts := rfl

/-- A value adds no bare label. -/
@[simp] lemma bareLabels_value :
    bareLabels (⟨.value text, source⟩ :: ts) = bareLabels ts := by
  simp [bareLabels, Token.label?]

/-- An opening brace adds no bare label. -/
@[simp] lemma bareLabels_opening : bareLabels (⟨.opening, source⟩ :: ts) = bareLabels ts := by
  simp [bareLabels, Token.label?]

/-- A closing brace adds no bare label. -/
@[simp] lemma bareLabels_closing : bareLabels (⟨.closing, source⟩ :: ts) = bareLabels ts := by
  simp [bareLabels, Token.label?]

end Tokens

/-- A value or a block at the front is kept. -/
lemma startsContent_dropBare {ts : List Token} (h : startsContent ts = true) :
    startsContent (dropBare ts) = true := by
  cases ts with
  | nil => cases h
  | cons t ts =>
    obtain ⟨symbol, source⟩ := t
    cases symbol with
    | label name => cases h
    | value text => rfl
    | opening => rfl
    | closing => cases h

/-- Labels have no part in the balance of braces. -/
lemma isBalanced_dropBare (depth : Nat) (ts : List Token) :
    isBalanced depth (dropBare ts) = isBalanced depth ts := by
  induction ts generalizing depth with
  | nil => rfl
  | cons t ts ih =>
    obtain ⟨symbol, source⟩ := t
    cases symbol with
    | label name =>
      cases h : startsContent ts with
      | true => rw [dropBare_label_of_content source name ts h]; exact ih depth
      | false => rw [dropBare_label_of_bare source name ts h]; exact ih depth
    | value text => exact ih depth
    | opening => exact ih (depth + 1)
    | closing =>
      cases depth with
      | zero => rfl
      | succ depth => exact ih depth

/-- A spelling is balanced by itself. -/
lemma Spells.isBalanced_append {items : List Item} {ts : List Token} (h : Spells items ts)
    (depth : Nat) (rest : List Token) :
    isBalanced depth (ts ++ rest) = isBalanced depth rest := by
  have hlabel : ∀ (label? : Option (Sourced String)) (depth : Nat) (ts : List Token),
      isBalanced depth (labelTokens label? ++ ts) = isBalanced depth ts := by
    intro label? depth ts
    cases label? <;> rfl
  induction h generalizing depth rest with
  | nil => rfl
  | value _ ih =>
    rw [List.append_assoc, hlabel]
    exact ih depth rest
  | block closer _ _ ihinner ih =>
    rw [List.append_assoc, hlabel, List.cons_append, List.append_assoc, List.cons_append]
    change isBalanced (depth + 1) _ = _
    rw [ihinner]
    exact ih depth rest

/-- An item without a label that is spelled first may be given one. -/
lemma Spells.exists_labelled {items : List Item} {ts : List Token} (h : Spells items ts)
    (hstart : startsContent ts = true) (label : Sourced String) :
    ∃ items', Spells items' (.ofLabel label :: ts) := by
  cases h with
  | nil => cases hstart
  | @value label? text items ts h =>
    cases label? with
    | some inner => cases hstart
    | none => exact ⟨.value (some label) text :: items, .value h⟩
  | @block label? source inner items ts ts' closer hinner h =>
    cases label? with
    | some inner => cases hstart
    | none => exact ⟨.block (some label) source inner :: items, .block closer hinner h⟩

/-- What stands in front of the brace that closes the innermost of `depth` open blocks, or all
tokens if no block is open, in either case without the labels that stand alone. -/
inductive FrontOf : Nat → List Token → List Token → Prop where
  | all (ts : List Token) : FrontOf 0 ts (dropBare ts)
  | upTo {depth : Nat} {ts front rest : List Token} (closer : Source) :
    dropBare ts = front ++ ⟨.closing, closer⟩ :: dropBare rest → isBalanced depth rest = true →
    rest.length < ts.length → FrontOf (depth + 1) ts front

namespace FrontOf

variable {depth : Nat} {ts front rest : List Token}

/-- A front goes on behind the tokens that are read before it. -/
lemma append (h : FrontOf depth rest front) (before : List Token)
    (hdrop : dropBare ts = before ++ dropBare rest) (hlength : rest.length < ts.length) :
    FrontOf depth ts (before ++ front) := by
  cases h with
  | all =>
    rw [← hdrop]
    exact .all ts
  | upTo closer hrest hbalanced hlt =>
    refine .upTo closer ?_ hbalanced (Nat.lt_trans hlt hlength)
    rw [hdrop, hrest, List.append_assoc]

/-- A value or a block at the front stands in front of the closing brace. -/
lemma startsContent_front (h : FrontOf depth ts front) (hstart : startsContent ts = true) :
    startsContent front = true := by
  have hcontent := startsContent_dropBare hstart
  cases h with
  | all => exact hcontent
  | upTo closer hrest _ _ =>
    rw [hrest] at hcontent
    cases front with
    | nil => cases hcontent
    | cons t front => exact hcontent

end FrontOf

/-- Where blocks are open, the tokens up to the brace that closes the innermost one spell items.

**Proof sketch.** Induction on the number of tokens. Behind an opening brace the tokens up to its
counterpart spell what the block holds, and what follows the counterpart is shorter again. -/
lemma exists_spells_of_isBalanced (depth : Nat) (ts : List Token)
    (h : isBalanced depth ts = true) :
    ∃ items front, Spells items front ∧ FrontOf depth ts front := by
  induction hn : ts.length using Nat.strongRecOn generalizing depth ts with
  | ind n ih =>
    subst hn
    cases ts with
    | nil =>
      obtain rfl : depth = 0 := beq_iff_eq.1 h
      exact ⟨[], [], .nil, .all []⟩
    | cons t ts =>
      have hlt : ts.length < (t :: ts).length := Nat.lt_succ_self _
      obtain ⟨symbol, source⟩ := t
      cases symbol with
      | label name =>
        obtain ⟨items, front, hspells, hfront⟩ := ih ts.length hlt depth ts h rfl
        cases hstart : startsContent ts with
        | false =>
          exact ⟨items, front, hspells,
            hfront.append [] (dropBare_label_of_bare source name ts hstart) hlt⟩
        | true =>
          obtain ⟨items', hspells'⟩ :=
            hspells.exists_labelled (hfront.startsContent_front hstart) ⟨name, source⟩
          exact ⟨items', _, hspells',
            hfront.append [_] (dropBare_label_of_content source name ts hstart) hlt⟩
      | value text =>
        obtain ⟨items, front, hspells, hfront⟩ := ih ts.length hlt depth ts h rfl
        exact ⟨.value none ⟨text, source⟩ :: items, _, .value hspells, hfront.append [_] rfl hlt⟩
      | opening =>
        -- with one more block open, the tokens end at the brace that closes it
        obtain ⟨inner, front, hinner, hfront⟩ := ih ts.length hlt (depth + 1) ts h rfl
        obtain _ | @⟨_, _, _, rest, closer, hdrop, hrest, hlength⟩ := hfront
        obtain ⟨items, front', hitems, hfront'⟩ :=
          ih rest.length (Nat.lt_trans hlength hlt) depth rest hrest rfl
        refine ⟨.block none source inner :: items, _, .block closer hinner hitems, ?_⟩
        have happend := hfront'.append (⟨.opening, source⟩ :: (front ++ [⟨.closing, closer⟩]))
          (by rw [dropBare_opening, hdrop]; simp) (Nat.lt_trans hlength hlt)
        simpa [labelTokens] using happend
      | closing =>
        cases depth with
        | zero => cases h
        | succ depth => exact ⟨[], [], .nil, .upTo source rfl h hlt⟩

/-- **Braces are balanced if and only if the tokens spell items**, but for labels that stand
alone. -/
theorem isBalanced_iff_exists_spells (ts : List Token) :
    isBalanced 0 ts = true ↔ ∃ items, Spells items (dropBare ts) := by
  constructor
  · intro h
    obtain ⟨items, front, hspells, ⟨⟩⟩ := exists_spells_of_isBalanced 0 ts h
    exact ⟨items, hspells⟩
  · rintro ⟨items, hspells⟩
    have happend := hspells.isBalanced_append 0 []
    rw [List.append_nil, isBalanced_dropBare] at happend
    rw [happend]
    rfl

/-! ### Labels that stand alone -/

/-- Reads the rest of a document. -/
def Builder.readAll (b : Builder) (ts : List Token) : Noted (List Item) := do
  (← ts.foldlM step b).finish

/-- The label that waits is the next one to have a value or a block, if there is one. -/
def Builder.settle (b : Builder) (ts : List Token) : Builder :=
  { b with pending? := if startsContent ts then b.pending? else none }

/-- Labels without a value or a block are lost, and this is all the difference there is. -/
structure Loses {α : Type} (lost : List (Sourced String)) (clean noisy : Noted α) : Prop where
  value : noisy.value = clean.value
  findings : Interleaves clean.findings (lost.map dangling) noisy.findings

namespace Loses

variable {α : Type} {lost : List (Sourced String)} {clean noisy : Noted α}

/-- Nothing is lost between a result and itself. -/
lemma refl (x : Noted α) : Loses [] x x :=
  ⟨rfl, .nil_right _⟩

/-- Labels that are lost first, and then something that is found in any case. -/
lemma append (h : Loses lost clean noisy) (labels : List (Sourced String))
    (found : List Finding) :
    Loses (labels ++ lost) ⟨clean.value, found ++ clean.findings⟩
      ⟨noisy.value, (labels.map dangling ++ found) ++ noisy.findings⟩ where
  value := h.value
  findings := by
    rw [List.map_append]
    exact ((Interleaves.nil_left (labels.map dangling)).append_left found).append h.findings

end Loses

namespace Builder

/-- Tokens are read one by one, and so are their faults. -/
lemma readAll_cons (b : Builder) (t : Token) (ts : List Token) :
    b.readAll (t :: ts) = ⟨((b.step t).value.readAll ts).value,
      (b.step t).findings ++ ((b.step t).value.readAll ts).findings⟩ := by
  simp only [readAll, List.foldlM_cons, bind_assoc]
  rfl

/-- In front of content a pending label stays pending. -/
lemma settle_of_content (b : Builder) {ts : List Token} (h : startsContent ts = true) :
    b.settle ts = b := by
  simp [settle, h]

/-- Elsewhere a pending label is given up. -/
lemma settle_of_bare (b : Builder) {ts : List Token} (h : startsContent ts = false) :
    b.settle ts = { b with pending? := none } := by
  simp [settle, h]

/-- Where no label waits there is nothing to settle. -/
lemma settle_of_none {b : Builder} (h : b.pending? = none) (ts : List Token) : b.settle ts = b := by
  obtain ⟨top, outer, pending?⟩ := b
  subst h
  simp [settle]

end Builder

/-- A token other than a label leaves no label waiting. -/
lemma Loses.cons {b clean next : Builder} {t : Token} {ts : List Token}
    (labels : List (Sourced String)) (found : List Finding)
    (hnoisy : b.step t = ⟨next, labels.map dangling ++ found⟩)
    (hclean : clean.step t = ⟨next, found⟩) (hnext : next.pending? = none)
    (ih : Loses ((if startsContent ts then [] else next.pending?.toList) ++ bareLabels ts)
      ((next.settle ts).readAll (dropBare ts)) (next.readAll ts)) :
    Loses (labels ++ bareLabels ts) (clean.readAll (t :: dropBare ts)) (b.readAll (t :: ts)) := by
  rw [Builder.settle_of_none hnext, hnext, Option.toList_none, ite_self, List.nil_append] at ih
  rw [Builder.readAll_cons, Builder.readAll_cons, hnoisy, hclean]
  exact ih.append labels found

/-- **Labels that stand alone are noted, and change nothing else.**

**Proof sketch.** Induction on the tokens. A label waits until the next token; if that is neither
a value nor an opening brace, the label is noted there, and nothing else has become of it. -/
theorem loses_readAll (b : Builder) (ts : List Token) :
    Loses ((if startsContent ts then [] else b.pending?.toList) ++ bareLabels ts)
      ((b.settle ts).readAll (dropBare ts)) (b.readAll ts) := by
  induction ts generalizing b with
  | nil =>
    have hrest := (Loses.refl (Builder.readAll { b with pending? := none } [])).append
      b.pending?.toList []
    simpa [Builder.readAll, Builder.finish_eq, Builder.settle, dropBare, startsContent,
      bareLabels] using hrest
  | cons t ts ih =>
    obtain ⟨symbol, source⟩ := t
    cases symbol with
    | label name =>
      -- a label that waited stands alone, since this one follows it
      have hrest := (ih { b with pending? := some ⟨name, source⟩ }).append b.pending?.toList []
      rw [List.append_nil, List.nil_append] at hrest
      rw [Builder.readAll_cons b, Builder.step_label, startsContent_label, bareLabels_label,
        Builder.settle_of_bare b (startsContent_label source name ts)]
      cases hstart : startsContent ts with
      | true =>
        rw [hstart, Builder.settle_of_content _ hstart] at hrest
        rw [dropBare_label_of_content source name ts hstart, Builder.readAll_cons,
          Builder.step_label]
        exact hrest
      | false =>
        rw [hstart, Builder.settle_of_bare _ hstart] at hrest
        rw [dropBare_label_of_bare source name ts hstart]
        exact hrest
    | value text =>
      rw [Builder.settle_of_content b (startsContent_value source text ts), bareLabels_value,
        dropBare_value, startsContent_value, if_pos rfl]
      exact Loses.cons [] [] rfl rfl rfl (ih _)
    | opening =>
      obtain ⟨top, outer, found, role, -, hopen⟩ := b.step_opening source
      rw [Builder.settle_of_content b (startsContent_opening source ts), bareLabels_opening,
        dropBare_opening, startsContent_opening, if_pos rfl]
      exact Loses.cons [] found hopen hopen rfl (ih _)
    | closing =>
      obtain ⟨top, outer, pending?⟩ := b
      rw [Builder.settle_of_bare _ (startsContent_closing source ts), bareLabels_closing,
        dropBare_closing, startsContent_closing, if_neg Bool.false_ne_true]
      cases outer with
      | nil =>
        exact Loses.cons _ _ (Builder.step_closing_nil top pending? source)
          (Builder.step_closing_nil top none source) rfl (ih _)
      | cons parent outer =>
        have hnoisy := Builder.step_closing_cons top parent outer pending? source
        rw [← List.append_nil (List.map dangling _)] at hnoisy
        exact Loses.cons _ _ hnoisy (Builder.step_closing_cons top parent outer none source) rfl
          (ih _)

/-- Reading a document without the labels that stand alone. -/
lemma loses_build (ts : List Token) : ∃ source, Loses (bareLabels ts)
    (Builder.readAll { top := ⟨none, .root, source, #[]⟩ } (dropBare ts)) (build ts) := by
  refine ⟨(ts.head?.map Token.source).getD Source.unknown, ?_⟩
  have hloses := loses_readAll
    { top := ⟨none, .root, (ts.head?.map Token.source).getD Source.unknown, #[]⟩ } ts
  rw [Builder.settle_of_none rfl, Option.toList_none, ite_self, List.nil_append] at hloses
  exact hloses

/-! ### Items in their places -/

/-- **Items in their places are read back**, and nothing is noted but the labels that stand
alone. -/
theorem build_eq_of_fitAll {items : List Item} {ts : List Token} (h : Spells items (dropBare ts))
    (hfits : Item.fitAll .root items = true) :
    build ts = ⟨items, (bareLabels ts).map dangling⟩ := by
  obtain ⟨source, hloses⟩ := loses_build ts
  have hclean : Builder.readAll { top := ⟨none, .root, source, #[]⟩ } (dropBare ts) =
      pure items := by
    rw [Builder.readAll, foldlM_step_of_spells h _ rfl (fun _ => rfl) hfits]
    simp [Builder.finish, Builder.dropPending, Builder.closeAll, Frame.append]
  rw [hclean] at hloses
  exact Noted.ext hloses.value hloses.findings.eq_of_nil_left.symm

/-- A farm and a cache are open in a list of farms only. -/
def Builder.InFarms (b : Builder) : Prop :=
  b.top.role = .farm ∨ b.top.role = .cache → ∃ f ∈ b.outer, f.role = .farms

/-- What the place of a block makes it. -/
lemma Role.child_cases (role : Role) (label? : Option String) :
    role = .root ∧ role.child label? = .farms ∨ role = .farms ∧ role.child label? = .farm ∨
      role = .farm ∧ role.child label? = .cache ∨ role.child label? = .other := by
  unfold child
  split
  · split <;> simp
  · simp
  · split <;> simp
  · simp

namespace Builder

/-- A block that is refused shows that a brace is missing, since the list of farms takes it. -/
lemma exists_isUnclosed_openBlock {b : Builder} (hfarms : b.InFarms) {label : Sourced String}
    (hpending : b.pending? = some label) (hrefused : b.top.role.admits label.value = false)
    (source : Source) : ∃ f ∈ (b.openBlock source).findings, isUnclosed f = true := by
  obtain ⟨hrole, haccepts⟩ : (b.top.role = .farm ∨ b.top.role = .cache) ∧
      b.top.role.accepts label.value = false := by
    revert hrefused
    cases b.top.role <;> simp [Role.admits]
  obtain ⟨f, hf, hrole⟩ := hfarms hrole
  have houter : b.outer.any (fun f => f.role.accepts label.value) = true := by
    refine List.any_eq_true.2 ⟨f, hf, ?_⟩
    rw [hrole]
    rfl
  have hmem : ∃ f ∈ (closeUntil label.value b.top b.outer).findings, isUnclosed f = true := by
    cases hcons : b.outer with
    | nil => rw [hcons] at hf; cases hf
    | cons parent outer =>
      rw [closeUntil, if_neg (by simp [haccepts])]
      exact ⟨_, List.mem_append_left _ (List.mem_singleton.2 rfl), rfl⟩
  obtain ⟨f, hf, hunclosed⟩ := hmem
  refine ⟨f, ?_, hunclosed⟩
  have hrecover : b.recover label.value = closeUntil label.value b.top b.outer >>=
      fun p => pure { b with top := p.1, outer := p.2 } :=
    if_neg (by simp [haccepts, houter])
  rw [openBlock, hpending]
  dsimp only
  rw [hrecover]
  exact List.mem_append_left _ (List.mem_append_left _ hf)

/-- A block in the innermost one is again in a list of farms, if it has to be. -/
lemma InFarms.openBlock {b : Builder} (h : b.InFarms) (label? : Option (Sourced String))
    (source : Source) :
    InFarms { top := ⟨label?, b.top.role.child (label?.map Sourced.value), source, #[]⟩
              outer := b.top :: b.outer } := by
  intro hrole
  dsimp only at hrole ⊢
  rcases b.top.role.child_cases (label?.map Sourced.value) with
    ⟨-, hchild⟩ | ⟨hfarms, -⟩ | ⟨hfarm, -⟩ | hchild
  · simp [hchild] at hrole
  · exact ⟨b.top, List.mem_cons_self, hfarms⟩
  · obtain ⟨f, hf, hfarms⟩ := h (.inl hfarm)
    exact ⟨f, List.mem_cons_of_mem _ hf, hfarms⟩
  · simp [hchild] at hrole

end Builder

/-- **Items out of their places are noted**: some block is taken to be unclosed.

**Proof sketch.** Induction on the spelling, up to the first block that is refused. What stands
before it is read as it is written, so that the open blocks are those around it. -/
theorem exists_isUnclosed_foldlM {items : List Item} {ts : List Token} (h : Spells items ts)
    (b : Builder) (hpending : b.pending? = none) (hroot : b.top.role = .root → b.outer = [])
    (hfarms : b.InFarms) (hfits : Item.fitAll b.top.role items = false) :
    ∃ f ∈ (ts.foldlM Builder.step b).findings, isUnclosed f = true := by
  induction h generalizing b with
  | nil => cases hfits
  | @value label? text items ts _ ih =>
    rw [Item.fitAll, Item.fits, Bool.true_and] at hfits
    rw [Builder.foldlM_labelTokens hpending, List.foldlM_cons]
    exact ih { b with top := b.top.push (.value label? text), pending? := none } rfl hroot hfarms
      hfits
  | @block label? source inner items ts ts' closer hinner hitems ihinner ih =>
    -- the first block that is refused is this one, or it stands inside it or behind it
    rw [Builder.foldlM_labelTokens hpending, List.foldlM_cons]
    cases hlabel : label?.all fun label => b.top.role.admits label.value with
    | false =>
      cases label? with
      | none => cases hlabel
      | some label =>
        obtain ⟨f, hf, hunclosed⟩ := Builder.exists_isUnclosed_openBlock
          (b := { b with pending? := some label }) hfarms rfl hlabel source
        exact ⟨f, List.mem_append_left _ hf, hunclosed⟩
    | true =>
      have hopen : Builder.step { b with pending? := label? } ⟨.opening, source⟩ = pure
          { top := ⟨label?, b.top.role.child (label?.map Sourced.value), source, #[]⟩
            outer := b.top :: b.outer } :=
        Builder.openBlock_of_admits (b := { b with pending? := label? }) hroot hlabel source
      rw [hopen, pure_bind, List.foldlM_append]
      rw [Item.fitAll, Item.fits, hlabel, Bool.true_and] at hfits
      cases hfill : Item.fitAll (b.top.role.child (label?.map Sourced.value)) inner with
      | false =>
        obtain ⟨f, hf, hunclosed⟩ := ihinner _ rfl
          (fun hrole => absurd hrole (Role.child_ne_root _ _)) (hfarms.openBlock label? source)
          hfill
        exact ⟨f, List.mem_append_left _ hf, hunclosed⟩
      | true =>
        rw [hfill, Bool.true_and] at hfits
        rw [foldlM_step_of_spells hinner _ rfl
          (fun hrole => absurd hrole (Role.child_ne_root _ _)) hfill, pure_bind, List.foldlM_cons,
          Builder.step_closing_append, pure_bind]
        exact ih { top := b.top.push (.block label? source inner), outer := b.outer } rfl hroot
          hfarms hfits

/-- A document with items out of their places is not read without notice. -/
theorem exists_isUnclosed_build {items : List Item} {ts : List Token}
    (h : Spells items (dropBare ts)) (hfits : Item.fitAll .root items = false) :
    ∃ f ∈ (build ts).findings, isUnclosed f = true := by
  obtain ⟨source, hloses⟩ := loses_build ts
  obtain ⟨f, hf, hunclosed⟩ := exists_isUnclosed_foldlM h
    { top := ⟨none, .root, source, #[]⟩ } rfl (fun _ => rfl) (fun hrole => by simp at hrole) hfits
  exact ⟨f, hloses.findings.mem_of_mem_left (List.mem_append_left _ hf), hunclosed⟩

end ProxyLint.Any
