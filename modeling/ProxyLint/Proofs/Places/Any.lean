import ProxyLint.Proofs.Any.Conservation

set_option relaxedAutoImplicit false
set_option autoImplicit false

/-!
# Places of tokens and blocks

A token has the place of its line, and a tree of blocks has no places but those of its tokens:
its labels, values and opening braces in document order are those of the tokens, except for
labels that are dropped. What is noted on the way is at the place of a line, too.

## Main definitions

* `ProxyLint.Noted.FoundAt` — everything that is noted is at a place of a kind.
* `ProxyLint.Any.tokensOf` — the tokens of a line at its place.
* `ProxyLint.Any.openPlaces` — the places of the braces of the open blocks.

## Main results

* `ProxyLint.Any.value_tokens` — the tokens of lines are at the places of their lines.
* `ProxyLint.Any.interleaves_outlineAll_build` — the labels, values and braces of a tree are
  those of its tokens.
* `ProxyLint.Any.foundAt_build` — what is noted about blocks is at the place of a token.
-/

namespace ProxyLint

/-! ### Places of findings -/

/-- Everything that is noted is at a place of a kind. -/
def Noted.FoundAt {α : Type} (P : Source → Prop) (x : Noted α) : Prop :=
  ∀ f ∈ x.findings, P f.source

namespace Noted

variable {α β σ : Type} {P : Source → Prop}

/-- The value is changed, and the faults are kept. -/
@[simp] lemma value_map (f : α → β) (x : Noted α) : (f <$> x).value = f x.value := rfl

/-- Merely returning notes no fault anywhere. -/
lemma foundAt_pure (a : α) : (pure a : Noted α).FoundAt P := by
  intro f hf
  cases hf

/-- A single note is at its place. -/
lemma foundAt_note {source : Source} (h : P source) (fault : Fault) (context : String) :
    (note fault context source).FoundAt P := by
  intro f hf
  rw [List.mem_singleton.1 hf]
  exact h

/-- Two steps note faults at places of a kind if both do. -/
lemma FoundAt.bind {x : Noted α} {f : α → Noted β} (hx : x.FoundAt P)
    (hf : (f x.value).FoundAt P) : (x >>= f).FoundAt P := by
  intro found hfound
  rw [findings_bind, List.mem_append] at hfound
  exact hfound.elim (hx found) (hf found)

/-- A note in front of a value. -/
lemma foundAt_note_pure {source : Source} (h : P source) (fault : Fault) (context : String)
    (a : α) : (do note fault context source; return a : Noted α).FoundAt P :=
  (foundAt_note h fault context).bind (foundAt_pure a)

/-- What holds of each step of a sequence, as long as the state is sound, holds of the whole. -/
lemma foundAt_foldlM_of_sound {step : σ → α → Noted σ} {Sound : σ → Prop} {as : List α}
    (hstep : ∀ s, ∀ a ∈ as, Sound s → (step s a).FoundAt P ∧ Sound (step s a).value) {s : σ}
    (hs : Sound s) : (as.foldlM step s).FoundAt P ∧ Sound (as.foldlM step s).value := by
  induction as generalizing s with
  | nil => exact ⟨foundAt_pure s, hs⟩
  | cons a as ih =>
    obtain ⟨hfound, hsound⟩ := hstep s a List.mem_cons_self hs
    obtain ⟨hrest, hend⟩ := ih (fun s a ha => hstep s a (List.mem_cons_of_mem _ ha)) hsound
    rw [List.foldlM_cons]
    exact ⟨hfound.bind hrest, hend⟩

/-- Steps in a row note faults at places of a kind if each does. -/
lemma foundAt_foldlM {step : σ → α → Noted σ} {as : List α}
    (hstep : ∀ s, ∀ a ∈ as, (step s a).FoundAt P) (s : σ) : (as.foldlM step s).FoundAt P :=
  (foundAt_foldlM_of_sound (fun s a ha (_ : True) => ⟨hstep s a ha, trivial⟩) trivial).1

end Noted

namespace Any

variable {P : Source → Prop}

/-! ### Tokens -/

/-- The tokens of a line, each at the place of the line. -/
def tokensOf (line : Line) : List Token :=
  (scan line.content.toList).symbols.map fun s => ⟨s, line.source⟩

/-- A token stands where its line does. -/
lemma source_of_mem_tokensOf {line : Line} {t : Token} (h : t ∈ tokensOf line) :
    t.source = line.source := by
  obtain ⟨s, -, rfl⟩ := List.mem_map.1 h
  rfl

/-- The tokens of lines are at the places of their lines. -/
theorem value_tokens (lines : List Line) : (tokens lines).value = lines.flatMap tokensOf := by
  induction lines with
  | nil => rfl
  | cons line lines ih =>
    have hline : (lineTokens line).value = tokensOf line := by
      unfold lineTokens
      dsimp only
      split <;> rfl
    rw [tokens, List.flatMap_cons, ← hline, ← ih]
    rfl

/-- The faults of tokens are where the lines are. -/
lemma foundAt_tokens {lines : List Line} (h : ∀ l ∈ lines, P l.source) :
    (tokens lines).FoundAt P := by
  induction lines with
  | nil => exact Noted.foundAt_pure []
  | cons line lines ih =>
    have hline : (lineTokens line).FoundAt P := by
      unfold lineTokens
      dsimp only
      split
      · exact Noted.foundAt_note_pure (h line List.mem_cons_self) _ _ _
      · exact Noted.foundAt_pure _
    refine hline.bind ?_
    refine (ih fun l hl => h l (List.mem_cons_of_mem _ hl)).bind ?_
    exact Noted.foundAt_pure _

/-! ### Blocks -/

/-- The labels, values and braces of a tree are those of its tokens, but for labels that are
dropped. -/
theorem interleaves_outlineAll_build (ts : List Token) : ∃ dropped : List (Sourced String),
    Interleaves (Item.outlineAll (build ts).value) (dropped.map .ofLabel)
      (ts.filter fun t => !t.isClosing) := by
  obtain ⟨root, hvalue, haccounts⟩ := accounts_build ts
  obtain ⟨front, dropped, hts, hfront, -⟩ := haccounts.kept
  rw [labelTokens, Option.toList_none, List.map_nil, List.append_nil] at hts
  rw [hvalue, hts]
  exact ⟨dropped, hfront⟩

/-- A tree has no labels, values and braces but those of its tokens. -/
lemma mem_of_mem_outlineAll_build {ts : List Token} {t : Token}
    (h : t ∈ Item.outlineAll (build ts).value) : t ∈ ts := by
  obtain ⟨dropped, hdropped⟩ := interleaves_outlineAll_build ts
  exact (List.mem_filter.1 (hdropped.mem_of_mem_left h)).1

/-- The places of the braces of the open blocks. The whole configuration, which is the
outermost one, has no brace. -/
def openPlaces (top : Frame) : List Frame → List Source
  | [] => []
  | parent :: outer => top.source :: openPlaces parent outer

/-- An item adds no open place. -/
@[simp] lemma openPlaces_push (f : Frame) (item : Item) (outer : List Frame) :
    openPlaces (f.push item) outer = openPlaces f outer := by
  cases outer <;> rfl

namespace Builder

/-- All open blocks and the label that waits for its value are at places of a kind. -/
structure StandsAt (P : Source → Prop) (b : Builder) : Prop where
  opened : ∀ s ∈ openPlaces b.top b.outer, P s
  pending : ∀ label, b.pending? = some label → P label.source

/-- Closing blocks up to a label notes faults at open places, and those that are left were open. -/
lemma foundAt_closeUntil (label : String) {top : Frame} {outer : List Frame}
    (h : ∀ s ∈ openPlaces top outer, P s) :
    (closeUntil label top outer).FoundAt P ∧
      ∀ s ∈ openPlaces (closeUntil label top outer).value.1 (closeUntil label top outer).value.2,
        P s := by
  induction outer generalizing top with
  | nil => exact ⟨Noted.foundAt_pure _, h⟩
  | cons parent outer ih =>
    obtain ⟨htop, hparent⟩ := List.forall_mem_cons.1 h
    unfold closeUntil
    split
    · exact ⟨Noted.foundAt_pure _, h⟩
    · obtain ⟨hfound, hopen⟩ := @ih (parent.push top.item) (by rwa [openPlaces_push])
      exact ⟨(Noted.foundAt_note htop _ _).bind hfound, hopen⟩

/-- Closing all blocks notes faults at open places. -/
lemma foundAt_closeAll {top : Frame} {outer : List Frame} (h : ∀ s ∈ openPlaces top outer, P s) :
    (closeAll top outer).FoundAt P := by
  induction outer generalizing top with
  | nil => exact Noted.foundAt_pure _
  | cons parent outer ih =>
    obtain ⟨htop, hparent⟩ := List.forall_mem_cons.1 h
    exact (Noted.foundAt_note htop _ _).bind (ih (by rwa [openPlaces_push]))

variable {b : Builder}

/-- Dropping the pending label notes a fault at its place. -/
lemma StandsAt.dropPending (h : b.StandsAt P) :
    b.dropPending.FoundAt P ∧ b.dropPending.value.StandsAt P := by
  rw [dropPending_eq]
  refine ⟨fun f hf => ?_, h.opened, fun label hlabel => by cases hlabel⟩
  obtain ⟨label, hlabel, rfl⟩ := List.mem_map.1 hf
  exact h.pending label (Option.mem_toList.1 hlabel)

/-- Closing blocks for a label notes faults at open places. -/
lemma StandsAt.recover (h : b.StandsAt P) (label : String) :
    (b.recover label).FoundAt P ∧ (b.recover label).value.StandsAt P := by
  unfold Builder.recover
  split
  · exact ⟨Noted.foundAt_pure b, h⟩
  · obtain ⟨hfound, hopen⟩ := foundAt_closeUntil label h.opened
    exact ⟨hfound.bind (Noted.foundAt_pure _), hopen, h.pending⟩

/-- An opening brace adds its place to those of the open blocks. -/
lemma StandsAt.openBlock (h : b.StandsAt P) {source : Source} (hs : P source) :
    (b.openBlock source).FoundAt P ∧ (b.openBlock source).value.StandsAt P := by
  unfold Builder.openBlock
  dsimp only
  have hplaces : ∀ {top : Frame} {b' : Builder}, top.source = source → b'.StandsAt P →
      StandsAt P { top, outer := b'.top :: b'.outer } := by
    intro top b' htop hb'
    refine ⟨?_, fun label hlabel => by cases hlabel⟩
    exact List.forall_mem_cons.2 ⟨htop.symm ▸ hs, hb'.opened⟩
  cases b.pending? with
  | none => exact ⟨(Noted.foundAt_pure b).bind (Noted.foundAt_pure _), hplaces rfl h⟩
  | some label =>
    obtain ⟨hfound, hstands⟩ := h.recover label.value
    exact ⟨hfound.bind (Noted.foundAt_pure _), hplaces rfl hstands⟩

/-- A closing brace notes faults at its place and at open ones. -/
lemma StandsAt.closeBlock (h : b.StandsAt P) {source : Source} (hs : P source) :
    (b.closeBlock source).FoundAt P ∧ (b.closeBlock source).value.StandsAt P := by
  obtain ⟨hfound, hstands⟩ := h.dropPending
  unfold Builder.closeBlock
  rw [Noted.value_bind]
  generalize b.dropPending = dropped at hfound hstands
  obtain ⟨⟨top, outer, pending?⟩, found⟩ := dropped
  cases outer with
  | nil => exact ⟨hfound.bind (Noted.foundAt_note_pure hs _ _ _), hstands⟩
  | cons parent outer =>
    have hpushed : StandsAt P { top := parent.push top.item, outer, pending? } := by
      refine ⟨?_, hstands.pending⟩
      rw [openPlaces_push]
      exact (List.forall_mem_cons.1 hstands.opened).2
    exact ⟨hfound.bind (Noted.foundAt_pure _), hpushed⟩

/-- A token at a place of a kind keeps everything at such places. -/
lemma StandsAt.step (h : b.StandsAt P) {t : Token} (ht : P t.source) :
    (b.step t).FoundAt P ∧ (b.step t).value.StandsAt P := by
  obtain ⟨symbol, source⟩ := t
  cases symbol with
  | label name =>
    obtain ⟨hfound, hstands⟩ := h.dropPending
    refine ⟨hfound.bind (Noted.foundAt_pure _), hstands.opened, fun label hlabel => ?_⟩
    cases hlabel
    exact ht
  | value text =>
    have hpushed : StandsAt P
        { b with top := b.top.push (.value b.pending? ⟨text, source⟩), pending? := none } := by
      refine ⟨?_, fun label hlabel => by cases hlabel⟩
      rw [openPlaces_push]
      exact h.opened
    exact ⟨Noted.foundAt_pure _, hpushed⟩
  | opening => exact h.openBlock ht
  | closing => exact h.closeBlock ht

end Builder

/-- What is noted about blocks is at the place of a token. -/
theorem foundAt_build {ts : List Token} (h : ∀ t ∈ ts, P t.source) : (build ts).FoundAt P := by
  have hstart : ∀ source, Builder.StandsAt P { top := ⟨none, .root, source, #[]⟩ } := by
    intro source
    exact ⟨fun s hs => (by cases hs), fun label hlabel => (by cases hlabel)⟩
  have hsteps : ∀ b : Builder, ∀ t ∈ ts, b.StandsAt P →
      (b.step t).FoundAt P ∧ (b.step t).value.StandsAt P :=
    fun b t ht hb => hb.step (h t ht)
  obtain ⟨hread, hstands⟩ := Noted.foundAt_foldlM_of_sound hsteps
    (hstart ((ts.head?.map Token.source).getD Source.unknown))
  refine hread.bind ?_
  obtain ⟨hdropped, hend⟩ := hstands.dropPending
  exact hdropped.bind ((Builder.foundAt_closeAll hend.opened).bind (Noted.foundAt_pure _))

end Any

end ProxyLint
