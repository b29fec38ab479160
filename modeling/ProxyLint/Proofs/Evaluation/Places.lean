import ProxyLint.Proofs.Evaluation.Sites
import ProxyLint.Proofs.Places.Parsed

set_option relaxedAutoImplicit false
set_option autoImplicit false

/-!
# Places of violations

Where a violation is follows from where its target is written. In a configuration that has been
read from lines everything that can be a target is written on one of the lines: the only section
without a line is the whole configuration, and no path leads there.

## Main definitions

* `ProxyLint.Target.StandsAt`, `ProxyLint.Farm.StandsAt` — what can be observed is at places of a
  kind.
* `ProxyLint.AnyConfig.IsReadFrom` — a configuration that has been read from lines.

## Main results

* `ProxyLint.Condition.source_of_observe` — what a condition observes is where its target is.
* `ProxyLint.Farm.StandsAt.locate` — what is located in a farm is at its places.
* `ProxyLint.Rule.standsAt_of_isReadFrom` — the sites in a configuration are at its lines.
-/

namespace ProxyLint

variable {P : Source → Prop}

/-! ### Observations -/

/-- What can be observed of a target is at places of a kind. Of a section the directives of all
sections can be observed. -/
def Target.StandsAt (P : Source → Prop) : Target → Prop
  | .farms fs => ∀ f ∈ fs, P f.label.source
  | .section config id => (∀ s, config.get? id = some s → P s.source) ∧
      ∀ i s, config.get? i = some s → ∀ d ∈ s.directives.toList, P d.source
  | t => ∀ s, t.source? = some s → P s

/-- A farm whose label has been seen before is one of the farms. -/
lemma mem_of_mem_repeatedFarms {seen : List String} {farms : List Farm} {f : Farm}
    (h : f ∈ repeatedFarms seen farms) : f ∈ farms := by
  induction farms generalizing seen with
  | nil => cases h
  | cons first rest ih =>
    rw [repeatedFarms] at h
    split at h
    · rcases List.mem_cons.1 h with rfl | h
      · exact List.mem_cons_self
      · exact List.mem_cons_of_mem _ (ih h)
    · exact List.mem_cons_of_mem _ (ih h)

/-- The nearest directives stand together in one section. -/
lemma HttpdConfig.mem_of_nearest? {c : HttpdConfig} {id : Nat} {name : String}
    {named : List Directive} (h : c.nearest? id name = some named) :
    ∃ i s, c.get? i = some s ∧ ∀ d ∈ named, d ∈ s.directives.toList := by
  obtain ⟨i, -, hi⟩ := List.exists_of_findSome?_eq_some h
  obtain ⟨s, hs, hnamed⟩ := Option.bind_eq_some_iff.1 hi
  refine ⟨i, s, hs, fun d hd => ?_⟩
  dsimp only at hnamed
  split at hnamed
  · cases hnamed
  · cases hnamed
    exact (List.mem_filter.1 hd).1

/-- A target that has a source stands at it. -/
lemma Target.StandsAt.of_source? {t : Target} (h : t.StandsAt P) {s : Source}
    (hs : t.source? = some s) : P s := by
  cases t with
  | farms fs => cases hs
  | «section» config id =>
    obtain ⟨found, hfound, rfl⟩ := Option.map_eq_some_iff.1 hs
    exact h.1 found hfound
  | _ => exact h s hs

/-- The label that a condition about labels points to is that of a farm. -/
lemma source_of_observeLabels {fs : List Farm} (h : ∀ f ∈ fs, P f.label.source) {s : Source}
    (hs : (observeLabels fs).source? = some s) : P s := by
  obtain ⟨f, hf, rfl⟩ := Option.map_eq_some_iff.1 hs
  exact h f (mem_of_mem_repeatedFarms (List.mem_of_head? hf))

/-- The directive that a condition points to stands in some section. -/
lemma source_of_observeDirective {p : DirectivePattern} {c : HttpdConfig} {id : Nat}
    (h : Target.StandsAt P (.section c id)) {s : Source}
    (hs : (observeDirective p c id).source? = some s) : P s := by
  unfold observeDirective at hs
  dsimp only at hs
  split at hs
  · exact h.of_source? hs
  · next named hnamed =>
    split at hs
    · next d hd =>
      obtain ⟨i, found, hfound, hmem⟩ := HttpdConfig.mem_of_nearest? hnamed
      cases hs
      exact h.2 i found hfound d (hmem d (List.mem_of_find?_eq_some hd))
    · exact h.of_source? hs

/-- **What a condition observes is where its target is.** -/
theorem Condition.source_of_observe {c : Condition} {t : Target} {o : Observation}
    (h : t.StandsAt P) (ho : c.observe t = .ok o) {s : Source} (hs : o.source? = some s) : P s := by
  unfold observe at ho
  dsimp only at ho
  split at ho <;> cases ho
  case h_1.refl | h_7.refl => cases hs
  case h_3.refl => exact source_of_observeLabels h hs
  case h_5.refl => exact source_of_observeDirective h hs
  all_goals exact h.of_source? hs

/-! ### Farms -/

/-- A property that is configured is at a place of a kind. -/
def Property.StandsAt {α : Type} (P : Source → Prop) (p : Property α) : Prop :=
  ∀ v, p = some v → P v.source

/-- What is written is written at places of a kind. -/
def Any.Trace.AllStandAt (P : Source → Prop)
    (rows : List ((String × Any.Shape) × Option Any.Trace)) : Prop :=
  ∀ row ∈ rows, ∀ trace, row.2 = some trace → P trace.source

/-- A farm and all that can be located in it are at places of a kind. -/
structure Farm.StandsAt (P : Source → Prop) (f : Farm) : Prop where
  label : P f.label.source
  traces : Any.Trace.AllStandAt P f.traces
  cache : ∀ c, f.cache = some c → P c.source ∧ Any.Trace.AllStandAt P c.traces
  healthCheck : Property.StandsAt P f.healthCheckUrl

/-- A property is written at its place. -/
lemma Property.standsAt_iff_trace {α : Type} {p : Property α} :
    (∀ trace, Property.trace p = some trace → P trace.source) ↔ p.StandsAt P := by
  cases p <;> simp [Property.trace, Property.StandsAt]

/-- A list is written at its place too. -/
lemma Property.standsAt_iff_listTrace {α : Type} {head : α → Sourced String}
    {p : Property (List α)} :
    (∀ trace, Property.listTrace head p = some trace → P trace.source) ↔ p.StandsAt P := by
  cases p <;> simp [Property.listTrace, Property.StandsAt]

namespace Any

variable {name : String} {items : List Item} {label : Sourced String} {content : Content}

/-- A labelled item has its label and its content where the item stands. -/
lemma standsAt_of_labelled? {item : Item} (h : item.StandsAt P)
    (hitem : item.labelled? = some (label, content)) : P label.source ∧ content.StandsAt P := by
  cases item with
  | value label? text =>
    obtain ⟨found, hfound, heq⟩ := Option.map_eq_some_iff.1 hitem
    cases heq
    obtain ⟨hlabel, htext⟩ := Item.standsAt_value h
    exact ⟨hlabel _ hfound, htext⟩
  | block label? source items =>
    obtain ⟨found, hfound, heq⟩ := Option.map_eq_some_iff.1 hitem
    cases heq
    obtain ⟨hlabel, hblock⟩ := Item.standsAt_block h
    exact ⟨hlabel _ hfound, hblock⟩

/-- The last item of a name has its label and its content where the items stand. -/
lemma standsAt_of_lastOf? (h : Item.AllStandAt P items)
    (hlast : lastOf? name items = some (label, content)) : P label.source ∧ content.StandsAt P := by
  obtain ⟨item, hitem, hlabelled⟩ :=
    List.mem_filterMap.1 (List.mem_filter.1 (List.mem_of_getLast? hlast)).1
  exact standsAt_of_labelled? (h.of_mem hitem) hlabelled

/-- What stands in the last block of a name stands in the items. -/
lemma allStandAt_of_lastBlockOf? {inner : List Item} (h : Item.AllStandAt P items)
    (hlast : lastBlockOf? name items = some inner) : Item.AllStandAt P inner := by
  obtain ⟨⟨label, content⟩, hmem, hinner⟩ := List.mem_filterMap.1 (List.mem_of_getLast? hlast)
  obtain ⟨item, hitem, hlabelled⟩ := List.mem_filterMap.1 hmem
  have hcontent := (standsAt_of_labelled? (h.of_mem hitem) hlabelled).2
  dsimp only at hinner
  split at hinner
  · cases content with
    | value text => cases hinner
    | block source items =>
      cases hinner
      exact hcontent.2
  · cases hinner

/-- A trace is at the label or the value of its property. -/
lemma Shape.standsAt_of_trace? {shape : Shape} {trace : Trace} (hlabel : P label.source)
    (hcontent : content.StandsAt P) (h : shape.trace? (label, content) = some trace) :
    P trace.source := by
  cases shape <;> cases content <;> cases h
  · exact hcontent
  · exact hlabel
  · exact hlabel

/-- A table of the properties that count is at the places of their block. -/
lemma Trace.allStandAt_of_lastOf? {rows : List ((String × Shape) × Option Trace)}
    (h : Item.AllStandAt P items)
    (hrows : ∀ row ∈ rows, row.2 = (lastOf? row.1.1 items).bind row.1.2.trace?) :
    AllStandAt P rows := by
  intro row hrow trace htrace
  rw [hrows row hrow] at htrace
  obtain ⟨⟨label, content⟩, hlast, htrace⟩ := Option.bind_eq_some_iff.1 htrace
  obtain ⟨hlabel, hcontent⟩ := standsAt_of_lastOf? h hlast
  exact Shape.standsAt_of_trace? hlabel hcontent htrace

end Any

/-- A farm that is written as an entry is at the places of the entry. -/
lemma Farm.WrittenAs.standsAt {f : Farm} {e : Any.Entry} (h : f.WrittenAs e)
    (he : e.StandsAt P) : f.StandsAt P where
  label := by
    rw [h.label]
    exact he.1
  traces := Any.Trace.allStandAt_of_lastOf? he.2 h.properties
  cache := by
    intro c hc
    obtain ⟨label, brace, items, hlast, hcache⟩ := h.cache c hc
    obtain ⟨hlabel, hblock⟩ := Any.standsAt_of_lastOf? he.2 hlast
    rw [hcache.source]
    exact ⟨hlabel, Any.Trace.allStandAt_of_lastOf? hblock.2 hcache.properties⟩
  healthCheck := by
    refine Property.standsAt_iff_trace.1 fun trace htrace => ?_
    rw [h.healthCheck] at htrace
    obtain ⟨inner, hinner, htrace⟩ := Option.bind_eq_some_iff.1 htrace
    obtain ⟨⟨label, content⟩, hlast, htrace⟩ := Option.bind_eq_some_iff.1 htrace
    obtain ⟨hlabel, hcontent⟩ :=
      Any.standsAt_of_lastOf? (Any.allStandAt_of_lastBlockOf? he.2 hinner) hlast
    exact Any.Shape.standsAt_of_trace? hlabel hcontent htrace

/-- The farms of lines are at their places. -/
lemma FarmConfig.standsAt_ofLines {lines : List Line} (h : ∀ l ∈ lines, P l.source) :
    ∀ f ∈ (ofLines lines).value.farms, f.StandsAt P := by
  intro f hf
  have hitems := allStandAt_build h
  have hwritten := (Any.writtenAs_decode (Any.build (Any.tokens lines).value).value).farms
  obtain ⟨e, he, hfe⟩ := exists_of_forall₂_of_mem hwritten hf
  refine hfe.standsAt ((Any.foundAt_entries "farms" ?_).2 e he)
  cases hlast : Any.lastBlockOf? "farms" (Any.build (Any.tokens lines).value).value with
  | none =>
    intro t ht
    cases ht
  | some inner => exact Any.allStandAt_of_lastBlockOf? hitems hlast

/-- A property has the place that its value has. -/
lemma Target.standsAt_ofProperty {α : Type} {wrap : α → Target} {place : α → Source}
    {p : Option α} (hwrap : ∀ a, P (place a) → (wrap a).StandsAt P)
    (h : ∀ a, p = some a → P (place a)) : (ofProperty wrap p).StandsAt P := by
  cases p with
  | none => exact fun s hs => by cases hs
  | some a => exact hwrap a (h a rfl)

/-- A property of the cache stands at a place if it does in each cache. -/
lemma Property.standsAt_bind {α : Type} {cache : Option Cache} {get : Cache → Property α}
    (h : ∀ c, cache = some c → (get c).StandsAt P) : Property.StandsAt P (cache.bind get) := by
  intro v hv
  obtain ⟨c, hc, hv⟩ := Option.bind_eq_some_iff.1 hv
  exact h c hc v hv

/-- What is located in a farm is at its places.

**Proof sketch.** By the element: each is a property of the farm, or of its cache, and both have
their places. -/
lemma Farm.StandsAt.locate {f : Farm} (h : f.StandsAt P) {element : String} {t : Target}
    (ht : f.locate element = .ok t) : t.StandsAt P := by
  obtain ⟨hlabel, hrows, hcache, hurl⟩ := h
  simp only [Any.Trace.AllStandAt, Farm.traces, List.forall_mem_cons, Property.standsAt_iff_trace,
    Property.standsAt_iff_listTrace] at hrows
  obtain ⟨hclient, hhosts, hrenders, hfilter, -, hdelay, hretries, hpenalty, hfailover, hpost,
    hsticky, -⟩ := hrows
  have hpresent : ∀ c, f.cache = some c → P c.source := fun c hc => (hcache c hc).1
  unfold Farm.locate at ht
  dsimp only at ht
  split at ht
  case h_1 | h_2 =>
    cases ht
    exact fun s hs => by cases hs; exact hlabel
  case h_3 | h_4 | h_5 | h_6 | h_7 | h_8 | h_9 | h_10 | h_11 | h_12 | h_13 | h_14 =>
    cases ht
    refine Target.standsAt_ofProperty (fun a ha s hs => ?_) ‹_›
    cases hs
    exact ha
  case h_28 => cases ht
  all_goals
    cases ht
    refine Target.standsAt_ofProperty (fun a ha s hs => ?_) (Property.standsAt_bind fun c hc => ?_)
    · cases hs
      exact ha
    · have hrows := (hcache c hc).2
      simp only [Any.Trace.AllStandAt, Cache.traces, List.forall_mem_cons,
        Property.standsAt_iff_trace, Property.standsAt_iff_listTrace] at hrows
      simp only [hrows]

/-! ### Sections -/

namespace HttpdConfig

variable {c : HttpdConfig} {current ids : List Nat} {lines : List Line}

/-- What is inside a section comes after it. -/
lemma lt_of_mem_descendants {i j : Nat} (h : j ∈ c.descendants i) : i < j := by
  induction i using descendants.induct c with
  | case1 i ih =>
    rw [descendants] at h
    obtain ⟨k, -, hk⟩ := List.mem_flatMap.1 h
    split at hk
    · next hlt =>
      rcases List.mem_cons.1 hk with rfl | hk
      · exact hlt.1
      · exact hlt.1.trans (ih k hlt hk)
    · cases hk

/-- The whole configuration is no section for the root folder. -/
def RootIsPlain (c : HttpdConfig) : Prop :=
  ∀ s, c.get? 0 = some s → s.arguments ≠ ["/"]

/-- Sections that are reached by a word are not the root. -/
lemma RootIsPlain.zero_notMem_follow (h : c.RootIsPlain) (w : PathWord) :
    0 ∉ c.follow current w := by
  intro hmem
  cases w with
  | inside kind =>
    have hbelow := (Bool.and_eq_true_iff.1 (List.mem_filter.1 hmem).2).1
    obtain ⟨i, -, hi⟩ := List.mem_flatMap.1 (List.contains_iff_mem.1 hbelow)
    exact absurd (lt_of_mem_descendants hi) (Nat.not_lt_zero i)
  | ofRoot =>
    obtain ⟨s, hs, harguments⟩ := (Option.any_eq_true _ _).1 (List.mem_filter.1 hmem).2
    exact h s hs (beq_iff_eq.1 harguments)

/-- No path leads to the whole configuration. -/
lemma RootIsPlain.zero_notMem_of_select (h : c.RootIsPlain) {element : String}
    (hids : c.select element = .ok ids) : 0 ∉ ids :=
  select_induction (Q := fun ids => 0 ∉ ids) List.not_mem_nil (fun w => h.zero_notMem_follow w)
    (fun _ w _ => h.zero_notMem_follow w) hids

/-- The opening lines are listed by the numbers of the sections. -/
lemma getElem?_openers {i : Nat} {s : Section} (h : c.get? i = some s) :
    c.openers[i]? = some s.opener := by
  rw [openers, List.getElem?_map, Array.getElem?_toList]
  exact congrArg (Option.map Section.opener) h

/-- The root of a configuration that is read from lines is not an opened section. -/
lemma rootIsPlain_ofLines (lines : List Line) : (ofLines lines).value.RootIsPlain := by
  intro s hs
  have hopener := getElem?_openers hs
  rw [openers_eq_cons, List.getElem?_cons_zero, Option.some.injEq] at hopener
  have harguments : [] = s.arguments := congrArg Httpd.Opener.arguments hopener
  rw [← harguments]
  exact (List.cons_ne_nil _ _).symm

/-- The sections of lines, but for the whole configuration, are at their places. -/
lemma standsAt_section_ofLines (h : ∀ l ∈ lines, P l.source) {id : Nat} (hid : id ≠ 0) :
    Target.StandsAt P (.section (ofLines lines).value id) := by
  constructor
  · intro s hs
    have hopener := getElem?_openers hs
    rw [openers_eq_cons, List.getElem?_cons, if_neg hid] at hopener
    obtain ⟨l, hl, hopens⟩ := List.mem_filterMap.1 (List.mem_of_getElem? hopener)
    have hsource : s.source = l.source := Httpd.Builder.source_of_opener? hopens
    rw [hsource]
    exact h l hl
  · intro i s hs d hd
    obtain ⟨dealt, hdealt, hdistributes⟩ := exists_distributes_ofLines lines
    rw [hdistributes.directives_eq i s hs] at hd
    have hmem : d ∈ dealt.map Prod.snd := (List.filter_sublist.map Prod.snd).subset hd
    rw [hdealt] at hmem
    obtain ⟨l, hl, hdirective⟩ := List.mem_filterMap.1 hmem
    rw [source_of_directiveOf? hdirective]
    exact h l hl

end HttpdConfig

/-! ### Sites -/

/-- A configuration that has been read from lines. -/
inductive AnyConfig.IsReadFrom (lines : List Line) : AnyConfig → Prop where
  | farms : IsReadFrom lines (.farms (FarmConfig.ofLines lines).value)
  | sections : IsReadFrom lines (.sections (HttpdConfig.ofLines lines).value)

namespace Site

variable {s : Site} {v : Violation}

/-- A site is at places of a kind, and so is all that can be observed there. -/
def StandsAt (P : Source → Prop) : Site → Prop
  | misfit _ _ => True
  | check _ target place => P place ∧ target.StandsAt P

/-- A violation is where the site is. -/
lemma Gives.standsAt (h : s.Gives (some v)) (hs : s.StandsAt P) {place : Source}
    (hplace : v.source? = some place) : P place := by
  cases h with
  | @fails r target fallback before after c o hchecks hbefore ho hfails =>
    cases hplace
    cases hsource : o.source? with
    | none => exact hs.1
    | some found => exact Condition.source_of_observe hs.2 ho hsource

end Site

namespace Rule

variable {r : Rule} {config : AnyConfig} {s : Site}

/-- The site of a rule in a farm is at the places of the farm. -/
lemma standsAt_siteInFarm {f : Farm} (h : f.StandsAt P) : (r.siteInFarm f).StandsAt P := by
  unfold siteInFarm
  cases hlocated : f.locate r.element with
  | error m => trivial
  | ok target => exact ⟨h.label, h.locate hlocated⟩

/-- The sites of a rule in farms stand where the farms do. -/
lemma standsAt_of_mem_sitesInFarms {config : FarmConfig} (h : ∀ f ∈ config.farms, f.StandsAt P)
    (hs : s ∈ r.sitesInFarms config) : s.StandsAt P := by
  have hfarms : ∀ f ∈ config.farms.filter fun f => r.appliesTo f.type, f.StandsAt P :=
    fun f hf => h f (List.mem_filter.1 hf).1
  unfold sitesInFarms at hs
  dsimp only at hs
  split at hs
  · split at hs
    · cases hs
    · next first rest hcons =>
      rw [List.mem_singleton.1 hs]
      refine ⟨(hfarms first ?_).label, fun f hf => (hfarms f hf).label⟩
      rw [hcons]
      exact List.mem_cons_self
  · obtain ⟨f, hf, rfl⟩ := List.mem_map.1 hs
    exact standsAt_siteInFarm (hfarms f hf)

/-- The sites of a rule in sections stand where the sections do. -/
lemma standsAt_of_mem_sitesInSections {config : HttpdConfig} (hroot : config.RootIsPlain)
    (h : ∀ id ≠ 0, Target.StandsAt P (.section config id)) (hs : s ∈ r.sitesInSections config) :
    s.StandsAt P := by
  unfold sitesInSections at hs
  split at hs
  · next ids hids =>
    obtain ⟨id, hmem, hid⟩ := List.mem_filterMap.1 hs
    obtain ⟨found, hfound, rfl⟩ := Option.map_eq_some_iff.1 hid
    have hne : id ≠ 0 := fun heq => hroot.zero_notMem_of_select hids (heq ▸ hmem)
    exact ⟨(h id hne).1 found hfound, h id hne⟩
  · rw [List.mem_singleton.1 hs]
    trivial

/-- **The sites in a configuration are at the lines it has been read from.** -/
theorem standsAt_of_isReadFrom {lines : List Line} (hread : config.IsReadFrom lines)
    (h : ∀ l ∈ lines, P l.source) (hs : s ∈ r.sites config) : s.StandsAt P := by
  unfold sites at hs
  split at hs
  · rw [List.mem_singleton.1 hs]
    trivial
  · split at hs
    · cases hread with
      | farms => exact standsAt_of_mem_sitesInFarms (FarmConfig.standsAt_ofLines h) hs
      | sections =>
        exact standsAt_of_mem_sitesInSections (HttpdConfig.rootIsPlain_ofLines lines)
          (fun _ => HttpdConfig.standsAt_section_ofLines h) hs
    · cases hs

end Rule

end ProxyLint
