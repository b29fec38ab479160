import ProxyLint.Proofs.Places.Farm

set_option relaxedAutoImplicit false
set_option autoImplicit false

/-!
# Places of findings in farms

Whatever is noted while a tree of blocks is read into farms is noted at the label, the value or
the brace that it is about. So every finding is at the place of a line.

## Main definitions

* `ProxyLint.Any.Item.StandsAt` — an item is at places of a kind, with all that it holds.
* `ProxyLint.Any.ReadsInPlace` — a reader notes nothing but at the places it is given.

## Main results

* `ProxyLint.Any.foundAt_properties` — properties that are read in place, one after the other.
* `ProxyLint.Any.foundAt_decode` — what is noted about a tree is at one of its places.
* `ProxyLint.FarmConfig.foundAt_ofLines` — what is noted about lines is at one of their places.
-/

namespace ProxyLint

namespace Any

open Noted

variable {P : Source → Prop} {α β : Type}

/-! ### Places of items -/

/-- An item is at places of a kind: its label, its value or brace, and all that it holds. -/
def Item.StandsAt (P : Source → Prop) (item : Item) : Prop :=
  ∀ t ∈ item.outline, P t.source

/-- Items are at places of a kind. -/
def Item.AllStandAt (P : Source → Prop) (items : List Item) : Prop :=
  ∀ t ∈ Item.outlineAll items, P t.source

/-- A content is at places of a kind. -/
def Content.StandsAt (P : Source → Prop) : Content → Prop
  | .value text => P text.source
  | .block source items => P source ∧ Item.AllStandAt P items

/-- Items stand at places of a kind if the first and the others do. -/
lemma Item.allStandAt_cons {item : Item} {items : List Item} :
    AllStandAt P (item :: items) ↔ item.StandsAt P ∧ AllStandAt P items := by
  unfold AllStandAt
  rw [outlineAll]
  exact List.forall_mem_append

/-- If all items stand at places of a kind, so does each of them. -/
lemma Item.AllStandAt.of_mem {items : List Item} (h : AllStandAt P items) {item : Item}
    (hitem : item ∈ items) : item.StandsAt P := by
  induction items with
  | nil => cases hitem
  | cons first items ih =>
    obtain ⟨hfirst, hrest⟩ := allStandAt_cons.1 h
    rcases List.mem_cons.1 hitem with rfl | hitem
    · exact hfirst
    · exact ih hrest hitem

/-- A value stands where its label and its text do. -/
lemma Item.standsAt_value {label? : Option (Sourced String)} {text : Sourced String}
    (h : StandsAt P (.value label? text)) :
    (∀ label, label? = some label → P label.source) ∧ P text.source := by
  unfold StandsAt at h
  rw [outline, List.forall_mem_append, List.forall_mem_singleton] at h
  refine ⟨fun label hlabel => h.1 (.ofLabel label) ?_, h.2⟩
  rw [hlabel]
  exact List.mem_singleton_self _

/-- A block stands where its label, its brace and its items do. -/
lemma Item.standsAt_block {label? : Option (Sourced String)} {source : Source}
    {items : List Item} (h : StandsAt P (.block label? source items)) :
    (∀ label, label? = some label → P label.source) ∧ P source ∧ AllStandAt P items := by
  unfold StandsAt at h
  rw [outline, List.forall_mem_append, List.forall_mem_cons] at h
  refine ⟨fun label hlabel => h.1 (.ofLabel label) ?_, h.2⟩
  rw [hlabel]
  exact List.mem_singleton_self _

/-! ### Shapes -/

/-- A reader of properties notes nothing but at the places of the label and the content. -/
def ReadsInPlace (P : Source → Prop) (read : Sourced String → Content → Noted α) : Prop :=
  ∀ label content, P label.source → content.StandsAt P → (read label content).FoundAt P

/-- Properties that are read in place, one after the other. -/
theorem foundAt_properties {read : α → Sourced String → Content → Noted α}
    (hread : ∀ s, ReadsInPlace P (read s)) (scope : String) (start : α) {items : List Item}
    (h : Item.AllStandAt P items) : (properties scope read start items).FoundAt P := by
  refine foundAt_foldlM (fun s item hitem => ?_) start
  have hplaces := h.of_mem hitem
  cases item with
  | value label? text =>
    obtain ⟨hlabel, htext⟩ := Item.standsAt_value hplaces
    cases label? with
    | none => exact (foundAt_note_pure htext _ _ _).bind (foundAt_pure s)
    | some label => exact (foundAt_pure _).bind (hread s label _ (hlabel label rfl) htext)
  | block label? source items =>
    obtain ⟨hlabel, hblock⟩ := Item.standsAt_block hplaces
    cases label? with
    | none => exact (foundAt_note_pure hblock.1 _ _ _).bind (foundAt_pure s)
    | some label => exact (foundAt_pure _).bind (hread s label _ (hlabel label rfl) hblock)

/-- Lists that are read and joined. -/
lemma foundAt_collect {read : α → Noted (List β)} {as : List α}
    (h : ∀ a ∈ as, (read a).FoundAt P) : (collect read as).FoundAt P := by
  induction as with
  | nil => exact foundAt_pure []
  | cons a as ih =>
    obtain ⟨hfirst, hrest⟩ := List.forall_mem_cons.1 h
    exact hfirst.bind ((ih hrest).bind (foundAt_pure _))

/-- A text is read in place. -/
lemma readsInPlace_text : ReadsInPlace P text := by
  intro label content hlabel hcontent
  cases content with
  | value t => exact foundAt_pure _
  | block source items => exact foundAt_note_pure hlabel _ _ _

/-- A number is read in place. -/
lemma readsInPlace_integer : ReadsInPlace P integer := by
  intro label content hlabel hcontent
  refine (readsInPlace_text label content hlabel hcontent).bind ?_
  cases content with
  | block source items => exact foundAt_pure _
  | value t =>
    dsimp only [text, value_pure]
    split
    · exact foundAt_pure _
    · exact foundAt_note_pure hcontent _ _ _

/-- A switch is read in place. -/
lemma readsInPlace_boolean : ReadsInPlace P boolean := by
  intro label content hlabel hcontent
  refine (readsInPlace_text label content hlabel hcontent).bind ?_
  cases content with
  | block source items => exact foundAt_pure _
  | value t =>
    dsimp only [text, value_pure]
    split
    · exact foundAt_pure _
    · split
      · exact foundAt_pure _
      · exact foundAt_note_pure hcontent _ _ _

/-- A reader of blocks that reads the items of its block in place. -/
lemma foundAt_block {label : Sourced String} {content : Content}
    {read : Option (List Item) → Noted α} (hlabel : P label.source) (hcontent : content.StandsAt P)
    (hnone : (read none).FoundAt P)
    (hread : ∀ items, Item.AllStandAt P items → (read (some items)).FoundAt P) :
    (block? label content >>= read).FoundAt P := by
  cases content with
  | value t => exact (foundAt_note_pure hlabel _ _ _).bind hnone
  | block source items => exact (foundAt_pure _).bind (hread items hcontent.2)

/-- A list of texts is read in place. -/
lemma readsInPlace_strings : ReadsInPlace P strings := by
  intro label content hlabel hcontent
  refine foundAt_block hlabel hcontent (foundAt_pure _) fun items hitems => ?_
  refine (foundAt_collect fun item hitem => ?_).bind (foundAt_pure _)
  have hplaces := hitems.of_mem hitem
  cases item with
  | value label? t =>
    obtain ⟨hinner, -⟩ := Item.standsAt_value hplaces
    cases label? with
    | none => exact foundAt_pure _
    | some inner => exact foundAt_note_pure (hinner inner rfl) _ _ _
  | block label? source items =>
    obtain ⟨hinner, hsource, -⟩ := Item.standsAt_block hplaces
    cases label? with
    | none => exact foundAt_note_pure hsource _ _ _
    | some inner => exact foundAt_note_pure (hinner inner rfl) _ _ _

/-- An entry is at places of a kind. -/
def Entry.StandsAt (P : Source → Prop) (e : Entry) : Prop :=
  P e.label.source ∧ Item.AllStandAt P e.items

/-- The blocks of a list are at its places, and so is what is noted about its values. -/
lemma foundAt_entries (scope : String) {items : List Item} (h : Item.AllStandAt P items) :
    (entries scope items).FoundAt P ∧ ∀ e ∈ items.filterMap Item.entry?, e.StandsAt P := by
  constructor
  · refine foundAt_collect fun item hitem => ?_
    have hplaces := h.of_mem hitem
    cases item with
    | value label? t =>
      obtain ⟨-, htext⟩ := Item.standsAt_value hplaces
      cases label? <;> exact foundAt_note_pure htext _ _ _
    | block label? source items => cases label? <;> exact foundAt_pure _
  · intro e he
    obtain ⟨item, hitem, hentry⟩ := List.mem_filterMap.1 he
    have hplaces := h.of_mem hitem
    cases item with
    | value label? t => cases hentry
    | block label? source items =>
      obtain ⟨hlabel, hsource, hitems⟩ := Item.standsAt_block hplaces
      cases label? with
      | none =>
        cases hentry
        exact ⟨hsource, hitems⟩
      | some label =>
        cases hentry
        exact ⟨hlabel label rfl, hitems⟩

/-- The faults of entries are where the entries stand. -/
lemma foundAt_readEntries (scope : String) {read : Entry → Noted α}
    (hread : ∀ e : Entry, e.StandsAt P → (read e).FoundAt P) {items : List Item}
    (h : Item.AllStandAt P items) : (readEntries scope read items).FoundAt P := by
  obtain ⟨hfound, hentries⟩ := foundAt_entries scope h
  refine hfound.bind ?_
  rw [value_entries]
  exact foundAt_collect fun e he => (hread e (hentries e he)).bind (foundAt_pure _)

/-- A list of entries is read in place if each entry is. -/
lemma readsInPlace_entryList (scope : String) {read : Entry → Noted α}
    (hread : ∀ e : Entry, e.StandsAt P → (read e).FoundAt P) :
    ReadsInPlace P (entryList scope read) := by
  intro label content hlabel hcontent
  refine foundAt_block hlabel hcontent (foundAt_pure _) fun items hitems => ?_
  exact (foundAt_readEntries scope hread hitems).bind (foundAt_pure _)

/-! ### Properties -/

/-- A label that is not known is noted, unless it is one of those that are ignored. -/
lemma foundAt_ignored {label : Sourced String} (h : P label.source) (isKnown : Bool)
    (scope : String) (a : α) : Noted.FoundAt P (do
      if !isKnown then unknownLabel scope label
      return a) := by
  cases isKnown with
  | true => exact foundAt_pure a
  | false => exact foundAt_note_pure h _ _ a

/-- A text in a rule is read in place. -/
lemma readsInPlace_plainText : ReadsInPlace P plainText := by
  intro label content hlabel hcontent
  exact (readsInPlace_text label content hlabel hcontent).bind (foundAt_pure _)

/-- The faults of a render are where it stands. -/
lemma foundAt_render {e : Entry} (h : e.StandsAt P) : (render e).FoundAt P := by
  refine foundAt_properties (fun r label content hlabel hcontent => ?_) _ _ h.2
  unfold renderProperty
  split
  case h_3 => exact (readsInPlace_integer label content hlabel hcontent).bind (foundAt_pure _)
  case h_4 => exact foundAt_ignored hlabel _ _ _
  all_goals exact (readsInPlace_plainText label content hlabel hcontent).bind (foundAt_pure _)

/-- The faults of a filter are where it stands. -/
lemma foundAt_filter {e : Entry} (h : e.StandsAt P) : (filter e).FoundAt P := by
  refine foundAt_properties (fun f label content hlabel hcontent => ?_) _ _ h.2
  have htext := readsInPlace_plainText label content hlabel hcontent
  unfold filterProperty
  split
  · next field _ =>
    dsimp only
    split
    · exact (foundAt_note hlabel _ _).bind (htext.bind (foundAt_pure _))
    · exact htext.bind (foundAt_pure _)
  · exact foundAt_note_pure hlabel _ _ _

/-- The faults of a rule of the cache are where it stands. -/
lemma foundAt_cacheRule (scope : String) {e : Entry} (h : e.StandsAt P) :
    (cacheRule scope e).FoundAt P := by
  refine foundAt_properties (fun r label content hlabel hcontent => ?_) _ _ h.2
  unfold cacheRuleProperty
  split
  case h_3 => exact foundAt_note_pure hlabel _ _ _
  all_goals exact (readsInPlace_plainText label content hlabel hcontent).bind (foundAt_pure _)

/-- A list of rules is read in place. -/
lemma readsInPlace_ruleList : ReadsInPlace P ruleList := fun label content hlabel hcontent =>
  readsInPlace_entryList label.value (fun _ he => foundAt_cacheRule label.value he) label content
    hlabel hcontent

/-- The properties of a cache are read in place. -/
lemma readsInPlace_cacheProperty (c : Cache) : ReadsInPlace P (cacheProperty c) := by
  intro label content hlabel hcontent
  unfold cacheProperty
  split
  case h_1 | h_2 | h_3 =>
    exact (readsInPlace_text label content hlabel hcontent).bind (foundAt_pure _)
  case h_4 | h_5 =>
    exact (readsInPlace_integer label content hlabel hcontent).bind (foundAt_pure _)
  case h_6 | h_7 | h_8 =>
    exact (readsInPlace_boolean label content hlabel hcontent).bind (foundAt_pure _)
  case h_13 => exact (readsInPlace_strings label content hlabel hcontent).bind (foundAt_pure _)
  case h_14 => exact foundAt_ignored hlabel _ _ _
  all_goals exact (readsInPlace_ruleList label content hlabel hcontent).bind (foundAt_pure _)

/-- A cache is read in place. -/
lemma readsInPlace_cache : ReadsInPlace P cache := by
  intro label content hlabel hcontent
  refine foundAt_block hlabel hcontent (foundAt_pure _) fun items hitems => ?_
  exact (foundAt_properties readsInPlace_cacheProperty _ _ hitems).bind (foundAt_pure _)

/-- The properties of a health check are read in place. -/
lemma readsInPlace_healthCheckProperty (url : Property String) :
    ReadsInPlace P (healthCheckProperty url) := by
  intro label content hlabel hcontent
  unfold healthCheckProperty
  split
  · exact readsInPlace_text label content hlabel hcontent
  · exact foundAt_note_pure hlabel _ _ _

/-- The properties of a farm are read in place. -/
lemma readsInPlace_farmProperty (f : Farm) : ReadsInPlace P (farmProperty f) := by
  intro label content hlabel hcontent
  unfold farmProperty
  split
  case h_1 | h_2 => exact (readsInPlace_strings label content hlabel hcontent).bind (foundAt_pure _)
  case h_3 =>
    exact (readsInPlace_entryList "renders" (fun _ he => foundAt_render he) label content hlabel
      hcontent).bind (foundAt_pure _)
  case h_4 =>
    exact (readsInPlace_entryList "filter" (fun _ he => foundAt_filter he) label content hlabel
      hcontent).bind (foundAt_pure _)
  case h_5 => exact (readsInPlace_cache label content hlabel hcontent).bind (foundAt_pure _)
  case h_6 | h_7 | h_8 =>
    exact (readsInPlace_integer label content hlabel hcontent).bind (foundAt_pure _)
  case h_9 | h_10 =>
    exact (readsInPlace_boolean label content hlabel hcontent).bind (foundAt_pure _)
  case h_11 => exact (readsInPlace_text label content hlabel hcontent).bind (foundAt_pure _)
  case h_12 =>
    refine foundAt_block hlabel hcontent (foundAt_pure _) fun items hitems => ?_
    exact (foundAt_properties readsInPlace_healthCheckProperty _ _ hitems).bind (foundAt_pure _)
  case h_13 => exact foundAt_note_pure hlabel _ _ _
  case h_14 => exact foundAt_ignored hlabel _ _ _

/-- The faults of a farm are where it stands. -/
lemma foundAt_farm {e : Entry} (h : e.StandsAt P) : (farm e).FoundAt P :=
  foundAt_properties readsInPlace_farmProperty _ _ h.2

/-- **What is noted about a tree is at one of its places.** -/
theorem foundAt_decode {items : List Item} (h : Item.AllStandAt P items) :
    (decode items).FoundAt P := by
  refine foundAt_properties (fun c label content hlabel hcontent => ?_) _ _ h
  unfold configProperty
  split
  · exact (readsInPlace_text label content hlabel hcontent).bind (foundAt_pure _)
  · exact (readsInPlace_boolean label content hlabel hcontent).bind (foundAt_pure _)
  · refine foundAt_block hlabel hcontent (foundAt_pure _) fun items hitems => ?_
    exact (foundAt_readEntries "farms" (fun _ he => foundAt_farm he) hitems).bind (foundAt_pure _)
  · exact foundAt_note_pure hlabel _ _ _

end Any

namespace FarmConfig

variable {P : Source → Prop} {lines : List Line}

/-- The tokens of lines stand where the lines do. -/
lemma forall_mem_tokens (h : ∀ l ∈ lines, P l.source) :
    ∀ t ∈ (Any.tokens lines).value, P t.source := by
  intro t ht
  rw [Any.value_tokens] at ht
  obtain ⟨l, hl, ht⟩ := List.mem_flatMap.1 ht
  rw [Any.source_of_mem_tokensOf ht]
  exact h l hl

/-- The tree of lines is at their places. -/
lemma allStandAt_build (h : ∀ l ∈ lines, P l.source) :
    Any.Item.AllStandAt P (Any.build (Any.tokens lines).value).value :=
  fun t ht => forall_mem_tokens h t (Any.mem_of_mem_outlineAll_build ht)

/-- **What is noted about lines is at one of their places.** -/
theorem foundAt_ofLines (h : ∀ l ∈ lines, P l.source) : (ofLines lines).FoundAt P := by
  refine (Any.foundAt_tokens h).bind ((Any.foundAt_build (forall_mem_tokens h)).bind ?_)
  exact Any.foundAt_decode (allStandAt_build h)

end FarmConfig

end ProxyLint
