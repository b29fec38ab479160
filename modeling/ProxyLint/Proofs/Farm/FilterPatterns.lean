import ProxyLint.Proofs.Evaluation.Sites
import ProxyLint.Proofs.Farm.Elements
import ProxyLint.Proofs.Rule.Run

set_option relaxedAutoImplicit false
set_option autoImplicit false

/-!
# Filter patterns

A rule file describes a filter entry by an object, and a farm writes one as a block. On the way
to each other both go through the same fields, so that in the end the names of the one are the
labels of the other: an entry fits an object if what it has last for each name is the text that
the object has for it. A name that the object leaves out or leaves null asks for nothing.

## Main definitions

* `ProxyLint.Any.Entry.Agrees` — an entry has the texts of an object.
* `ProxyLint.FilterQuery` — the two conditions about filters.
* `ProxyLint.FilterQuery.Loads` — a check comes from an object in a rule file.
* `ProxyLint.Check.verdict` — whether a check passes on a path of a farm.

## Main results

* `ProxyLint.RuleFile.filterPattern_object_eq_ok_iff` — the pattern of an object has its texts.
* `ProxyLint.RuleFile.exists_filterPattern_object_iff` — the objects that are patterns.
* `ProxyLint.Any.get_filter` — a filter has what its entry has last for each field.
* `ProxyLint.FilterQuery.verdict_of_loads` — a check on the filters of a farm compares names with
  labels.
-/

namespace ProxyLint

/-! ### Fields -/

namespace FilterField

/-- The list of the fields is complete. -/
lemma mem_all (k : FilterField) : k ∈ all := by
  cases k <;> decide

/-- A field is read from its label and from nothing else. -/
lemma ofLabel?_eq_some_iff {name : String} {k : FilterField} :
    ofLabel? name = some k ↔ k.label = name := by
  constructor
  · intro h
    have hfits := List.find?_some h
    exact beq_iff_eq.1 hfits
  · rintro rfl
    cases k <;> rfl

/-- Different fields have different labels. -/
lemma label_injective : Function.Injective label := by
  intro k k' h
  exact Option.some.inj ((ofLabel?_eq_some_iff.2 h).symm.trans (ofLabel?_eq_some_iff.2 rfl))

end FilterField

namespace FilterFields

/-- Fields are told by their values. -/
lemma ext_get {p q : FilterFields} (h : ∀ k, p.get k = q.get k) : p = q := by
  obtain ⟨⟩ := p
  obtain ⟨⟩ := q
  have hall : ∀ k ∈ FilterField.all, _ := fun k _ => h k
  simpa [FilterField.all, get] using hall

/-- Any texts for the fields can be put together. -/
lemma exists_get_eq (texts : FilterField → Option String) : ∃ p : FilterFields,
    ∀ k, p.get k = texts k :=
  ⟨⟨texts .type, texts .url, texts .glob, texts .method, texts .query, texts .protocol,
    texts .path, texts .selectors, texts .extension, texts .suffix⟩, fun k => by cases k <;> rfl⟩

/-- Fields are not empty if one of them has a value. -/
lemma isEmpty_eq_false_iff {p : FilterFields} :
    p.isEmpty = false ↔ ∃ k w, p.get k = some w := by
  simp only [isEmpty, List.all_eq_false, Option.isNone_iff_eq_none, ← ne_eq,
    Option.ne_none_iff_exists', FilterField.mem_all, true_and]

/-- Fields that are read one after the other each have what is read for them, and the others are
as at the start.

**Proof sketch.** Induction on the fields that are read. What is set for a field stays unless the
field is read again, and then the same is read for it. -/
lemma foldlM_set_eq_some_iff {read : FilterField → Option (Option String)} {ks : List FilterField}
    {start p : FilterFields} :
    ks.foldlM (fun p k => do return p.set k (← read k)) start = some p ↔
      (∀ k ∈ ks, read k = some (p.get k)) ∧ ∀ k ∉ ks, p.get k = start.get k := by
  induction ks generalizing start with
  | nil =>
    simp only [List.foldlM_nil, List.not_mem_nil, false_implies, implies_true, true_and,
      not_false_eq_true, forall_true_left]
    constructor
    · rintro ⟨⟩ k
      rfl
    · exact fun h => congrArg some (ext_get h).symm
  | cons k ks ih =>
    cases hread : read k with
    | none => simp [hread]
    | some text =>
      rw [List.foldlM_cons, hread]
      refine ih.trans ?_
      constructor
      · rintro ⟨hks, hothers⟩
        have hk : p.get k = text := by
          by_cases hmem : k ∈ ks
          · exact (Option.some.inj (hread.symm.trans (hks k hmem))).symm
          · rw [hothers k hmem, get_set_self]
        refine ⟨List.forall_mem_cons.2 ⟨hread.trans (congrArg some hk.symm), hks⟩, ?_⟩
        intro k' hk'
        obtain ⟨hne, hmem⟩ := not_or.1 (mt List.mem_cons.2 hk')
        rw [hothers k' hmem, get_set_of_ne _ _ hne]
      · rintro ⟨hks, hothers⟩
        obtain ⟨hk, hks⟩ := List.forall_mem_cons.1 hks
        refine ⟨hks, fun k' hmem => ?_⟩
        by_cases heq : k' = k
        · subst heq
          rw [get_set_self]
          exact Option.some.inj (hk.symm.trans hread)
        · rw [get_set_of_ne _ _ heq]
          exact hothers k' (mt List.mem_cons.1 (not_or.2 ⟨heq, hmem⟩))

end FilterFields

/-- An entry fits a pattern if it has the texts of the pattern. -/
lemma FilterPattern.fits_iff {p : FilterPattern} {f : Filter} :
    p.fits f = true ↔ ∀ k w, p.get k = some w → f.fields.get k = some w := by
  rw [FilterPattern.fits, List.all_eq_true]
  constructor
  · intro h k w hw
    simpa [fieldFits, hw] using h k k.mem_all
  · intro h k _
    cases hw : FilterFields.get p k with
    | none => rfl
    | some w => simp [fieldFits, h k w hw]

/-! ### Objects -/

namespace RuleFile

variable {o : List (String × JsonValue)}

/-- A member of a pattern is a text if there is one under its name. -/
lemma patternText?_eq_some_some_iff {name w : String} :
    patternText? o name = some (some w) ↔ o.lookup name = some (.text w) := by
  unfold patternText?
  cases o.lookup name with
  | none => simp
  | some v => cases v <;> simp

/-- A member of a pattern is refused if it is neither a text nor null. -/
lemma patternText?_ne_none_iff {name : String} : patternText? o name ≠ none ↔
    ∀ v, o.lookup name = some v → v ≠ .null → ∃ w, v = .text w := by
  unfold patternText?
  cases o.lookup name with
  | none => simp
  | some v => cases v <;> simp

/-- **The pattern of an object has its texts.** The names of the object are labels of fields, its
values are texts or null, and not all of them are null.

**Proof sketch.** All fields are read one after the other, and there are no others
(`FilterFields.foldlM_set_eq_some_iff`); the two refusals of an object are that it names something
else and that nothing is set. -/
theorem filterPattern_object_eq_ok_iff {p : FilterPattern} :
    filterPattern (.object o) = .ok p ↔
      (∀ m ∈ o, ∃ k : FilterField, k.label = m.1) ∧
      (∀ k : FilterField, patternText? o k.label = some (p.get k)) ∧ ∃ k w, p.get k = some w := by
  have hnames : (o.all fun m => (FilterField.all.map FilterField.label).contains m.1) = true ↔
      ∀ m ∈ o, ∃ k : FilterField, k.label = m.1 := by
    simp [FilterField.mem_all]
  have hread : FilterField.all.foldlM (fun p f => do
      return p.set f (← patternText? o f.label)) ({} : FilterFields) = some p ↔
      ∀ k : FilterField, patternText? o k.label = some (p.get k) := by
    refine FilterFields.foldlM_set_eq_some_iff.trans ?_
    simp [FilterField.mem_all]
  rw [← hnames, ← hread, ← FilterFields.isEmpty_eq_false_iff]
  unfold filterPattern patternFields?
  dsimp only
  cases o.all fun m => (FilterField.all.map FilterField.label).contains m.1 with
  | false => simp
  | true =>
    simp only [if_true, bind, Option.bind_some]
    cases FilterField.all.foldlM (fun p f => do
        return p.set f (← patternText? o f.label)) ({} : FilterFields) with
    | none => simp
    | some q =>
      cases hempty : q.isEmpty with
      | true =>
        refine iff_of_false (by simp [hempty]) ?_
        rintro ⟨-, ⟨⟩, hp⟩
        exact Bool.false_ne_true (hp.symm.trans hempty)
      | false =>
        simp only [hempty, Bool.false_eq_true, if_false, Except.ok.injEq, Option.some.injEq,
          true_and]
        exact ⟨fun h => ⟨h, h ▸ hempty⟩, And.left⟩

/-- If only fields are named, what is found has the name of a field. -/
lemma exists_label_of_lookup (hnames : ∀ m ∈ o, ∃ k : FilterField, k.label = m.1) {name : String}
    {v : JsonValue} (h : o.lookup name = some v) : ∃ k : FilterField, k.label = name := by
  obtain ⟨before, after, rfl, -⟩ := List.lookup_eq_some_iff.1 h
  exact hnames (name, v) (List.mem_append_right _ List.mem_cons_self)

/-- **The objects that are patterns.** -/
theorem exists_filterPattern_object_iff : (∃ p, filterPattern (.object o) = .ok p) ↔
    (∀ m ∈ o, ∃ k : FilterField, k.label = m.1) ∧
    (∀ name v, o.lookup name = some v → v ≠ .null → ∃ w, v = .text w) ∧
    ∃ name v, o.lookup name = some v ∧ v ≠ .null := by
  constructor
  · rintro ⟨p, hp⟩
    obtain ⟨hnames, htexts, k, w, hw⟩ := filterPattern_object_eq_ok_iff.1 hp
    refine ⟨hnames, fun name v hv => ?_, k.label, .text w, ?_, nofun⟩
    · obtain ⟨k', rfl⟩ := exists_label_of_lookup hnames hv
      exact patternText?_ne_none_iff.1 (by simp [htexts k']) v hv
    · exact patternText?_eq_some_some_iff.1 ((htexts k).trans (congrArg some hw))
  · rintro ⟨hnames, htexts, name, v, hv, hnull⟩
    obtain ⟨p, hp⟩ := FilterFields.exists_get_eq fun k => (patternText? o k.label).getD none
    refine ⟨p, filterPattern_object_eq_ok_iff.2 ⟨hnames, fun k => ?_, ?_⟩⟩
    · obtain ⟨text, htext⟩ := Option.ne_none_iff_exists'.1
        (patternText?_ne_none_iff.2 (htexts k.label))
      rw [hp, htext, Option.getD_some]
    · obtain ⟨k, rfl⟩ := exists_label_of_lookup hnames hv
      obtain ⟨w, rfl⟩ := htexts k.label v hv hnull
      exact ⟨k, w, by rw [hp, patternText?_eq_some_some_iff.2 hv, Option.getD_some]⟩

/-- An object without the members of a name. -/
def without (name : String) (o : List (String × JsonValue)) : List (String × JsonValue) :=
  o.filter fun m => m.1 != name

/-- Without a name everything else is found as before. -/
lemma lookup_without (name n : String) :
    (without name o).lookup n = if n = name then none else o.lookup n := by
  induction o with
  | nil => simp [without]
  | cons m o ih =>
    obtain ⟨k, v⟩ := m
    unfold without at ih ⊢
    by_cases hk : k = name
    · subst hk
      rw [List.filter_cons_of_neg (by simp), ih]
      split
      · rfl
      · next hn => rw [List.lookup_cons, beq_false_of_ne hn]
    · rw [List.filter_cons_of_pos (by simpa using hk), List.lookup_cons, List.lookup_cons, ih]
      by_cases hn : n = k
      · subst hn
        rw [if_neg hk, if_neg hk]
      · rw [beq_false_of_ne hn]

/-- What is found without a name was there before. -/
lemma lookup_of_lookup_without {name n : String} {v : JsonValue}
    (h : (without name o).lookup n = some v) : o.lookup n = some v := by
  rw [lookup_without] at h
  split at h
  · cases h
  · exact h

/-- An object from which a member is taken stays a pattern if a value other than null is left. -/
lemma exists_filterPattern_without {name : String} (h : ∃ p, filterPattern (.object o) = .ok p)
    (hleft : ∃ n v, (without name o).lookup n = some v ∧ v ≠ .null) :
    ∃ p, filterPattern (.object (without name o)) = .ok p := by
  obtain ⟨hnames, htexts, -⟩ := exists_filterPattern_object_iff.1 h
  exact exists_filterPattern_object_iff.2 ⟨fun m hm => hnames m (List.mem_of_mem_filter hm),
    fun n v hv => htexts n v (lookup_of_lookup_without hv), hleft⟩

/-- A check is turned round as its description says. -/
lemma failIf_of_check {id : String} {d : DraftCheck} {c : Check} (h : check id d = .ok c) :
    c.failIf = d.failIf := by
  unfold check at h
  dsimp only at h
  split at h
  · cases h
  · cases h
  · cases h
    rfl

end RuleFile

namespace Any

/-! ### Entries -/

/-- The text of a content that is a value. -/
def Content.text? : Content → Option String
  | .value t => some (unquote t.value)
  | .block _ _ => none

/-- The text of a content is its value without quotation marks. -/
lemma Content.text?_eq_some_iff {content : Content} {w : String} :
    content.text? = some w ↔ ∃ t, content = .value t ∧ unquote t.value = w := by
  cases content <;> simp [text?]

/-- A property of a filter sets the field with its label. -/
lemma get_filterProperty (f : Filter) (label : Sourced String) (content : Content)
    (k : FilterField) : (filterProperty f label content).value.fields.get k =
      if label.value == k.label then content.text? else f.fields.get k := by
  unfold filterProperty
  split
  · next field h =>
    have hvalue : (do
        if field == .glob then deprecatedLabel "filter" label
        return { f with fields := f.fields.set field (← plainText label content) } :
          Noted Filter).value.fields = f.fields.set field content.text? := by
      cases field <;> cases content <;> rfl
    rw [hvalue, ← FilterField.ofLabel?_eq_some_iff.1 h]
    by_cases hk : k = field
    · rw [hk, FilterFields.get_set_self, if_pos (beq_self_eq_true _)]
    · rw [FilterFields.get_set_of_ne _ _ hk, if_neg]
      exact fun heq => hk (FilterField.label_injective (beq_iff_eq.1 heq)).symm
  · next h =>
    rw [if_neg]
    · rfl
    · intro heq
      rw [FilterField.ofLabel?_eq_some_iff.2 (beq_iff_eq.1 heq).symm] at h
      cases h

/-- **A filter has what its entry has last for each field.** -/
theorem get_filter (e : Entry) (k : FilterField) :
    (filter e).value.fields.get k = (lastOf? k.label e.items).bind fun p => p.2.text? := by
  have hstart : ({} : FilterFields).get k = none := by cases k <;> rfl
  rw [filter, value_properties (fun f => f.fields.get k)
    (fun b p => if p.1.value == k.label then p.2.text? else b)
    (fun f label content => get_filterProperty f label content k), foldl_lastOf?, hstart]
  cases lastOf? k.label e.items <;> rfl

/-- An entry agrees with an object: for each name for which the object has a value other than
null, the entry has last a value with that text. -/
def Entry.Agrees (e : Entry) (o : List (String × JsonValue)) : Prop :=
  ∀ name v, o.lookup name = some v → v ≠ .null →
    ∃ label t, lastOf? name e.items = some (label, .value t) ∧ v = .text (unquote t.value)

/-- What agrees with an object agrees with a part of it. -/
lemma Entry.Agrees.of_lookup {e : Entry} {o o' : List (String × JsonValue)} (h : e.Agrees o)
    (hsub : ∀ name v, o'.lookup name = some v → o.lookup name = some v) : e.Agrees o' :=
  fun name v hv => h name v (hsub name v hv)

/-- **An entry fits the pattern of an object exactly if it agrees with the object.** -/
theorem fits_filter_iff {o : List (String × JsonValue)} {p : FilterPattern}
    (h : RuleFile.filterPattern (.object o) = .ok p) (e : Entry) :
    p.fits (filter e).value = true ↔ e.Agrees o := by
  obtain ⟨hnames, htexts, -⟩ := RuleFile.filterPattern_object_eq_ok_iff.1 h
  have hget : ∀ k w, p.get k = some w ↔ o.lookup k.label = some (.text w) := by
    intro k w
    rw [← RuleFile.patternText?_eq_some_some_iff, htexts k, Option.some.injEq]
  rw [FilterPattern.fits_iff]
  constructor
  · intro hfits name v hv hnull
    obtain ⟨k, rfl⟩ := RuleFile.exists_label_of_lookup hnames hv
    obtain ⟨w, rfl⟩ := RuleFile.patternText?_ne_none_iff.1 (by simp [htexts k]) v hv hnull
    have hlast := hfits k w ((hget k w).2 hv)
    rw [get_filter, Option.bind_eq_some_iff] at hlast
    obtain ⟨⟨label, content⟩, hlast, htext⟩ := hlast
    obtain ⟨t, rfl, rfl⟩ := Content.text?_eq_some_iff.1 htext
    exact ⟨label, t, hlast, rfl⟩
  · intro hagrees k w hw
    obtain ⟨label, t, hlast, htext⟩ := hagrees k.label (.text w) ((hget k w).1 hw) nofun
    cases htext
    rw [get_filter, hlast]
    rfl

/-- The path to the filters leads to the last `/filter`. -/
lemma locate_filter (e : Entry) : (farm e).value.locate "farm.filter" =
    .ok (((lastOf? "filter" e.items).map ElementKind.filters.target).getD .missing) := by
  have hmem : ("filter", ElementKind.filters) ∈ farmElements := by decide
  have hpath : "farm." ++ "filter" = "farm.filter" := rfl
  obtain ⟨target, hrow⟩ := (farm e).value.exists_mem_targets hmem
  rw [← hpath, (farm e).value.locate_of_mem_targets _ hrow, mem_targets_farm e _ hrow]

end Any

/-! ### Conditions about filters -/

/-- Whether a check passes on a path of a farm. -/
def Check.verdict (c : Check) (f : Farm) (path : String) : Except Misfit Bool := do
  return (← c.perform (← f.locate path)).passed

/-- A check that is not turned round passes exactly if its condition holds. -/
lemma Check.verdict_eq_ok {c : Check} {f : Farm} {path : String} {target : Target}
    {found : Observation} (htarget : f.locate path = .ok target)
    (hfound : c.condition.observe target = .ok found) (hfailIf : c.failIf = false) :
    c.verdict f path = .ok found.holds := by
  have hperform := c.perform_eq target
  rw [hfound, hfailIf] at hperform
  unfold verdict
  rw [htarget]
  simp only [bind, Except.bind, hperform, Except.map, pure, Except.pure]
  cases found.holds <;> rfl

/-- The two conditions about filters. -/
inductive FilterQuery where
  /-- Some entry fits. -/
  | includes
  /-- The first entry fits. -/
  | startsWith
  deriving DecidableEq, Repr, Inhabited

namespace FilterQuery

/-- The name of the condition in a rule file. -/
def name : FilterQuery → String
  | .includes => "FILTER_LIST_INCLUDES"
  | .startsWith => "FILTER_LIST_STARTS_WITH"

/-- The condition with a pattern. -/
def condition : FilterQuery → FilterPattern → Condition
  | .includes => .filterListIncludes
  | .startsWith => .filterListStartsWith

/-- The entries of a list that may fit. -/
def scope {α : Type} : FilterQuery → List α → List α
  | .includes, entries => entries
  | .startsWith, entries => entries.take 1

/-- A check comes from a description in a rule file that names the condition, in any letter case,
and gives it an object, and that does not turn it round. -/
def Loads (q : FilterQuery) (o : List (String × JsonValue)) (c : Check) : Prop :=
  ∃ rule d, Text.upper d.condition = q.name ∧ d.value = .object o ∧ d.failIf = false ∧
    RuleFile.check rule d = .ok c

/-- The last `/filter` of a farm is a block, and one of its entries that may fit agrees with an
object. -/
def Finds (q : FilterQuery) (o : List (String × JsonValue)) (e : Any.Entry) : Prop :=
  ∃ label source items, Any.lastOf? "filter" e.items = some (label, .block source items) ∧
    ∃ entry ∈ q.scope (items.filterMap Any.Item.entry?), entry.Agrees o

variable {q : FilterQuery} {o : List (String × JsonValue)} {c : Check}

/-- The name of a condition stands for the condition. -/
lemma condition?_name (q : FilterQuery) (v : JsonValue) :
    RuleFile.condition? q.name v = some ((RuleFile.filterPattern v).map q.condition) := by
  cases q <;> rfl

/-- The scope of a query does not depend on what the entries are. -/
lemma scope_map {α β : Type} (f : α → β) (as : List α) :
    q.scope (as.map f) = (q.scope as).map f := by
  cases q with
  | includes => rfl
  | startsWith => exact List.map_take.symm

/-- What is in scope is an entry. -/
lemma mem_of_mem_scope {α : Type} {a : α} {as : List α} (h : a ∈ q.scope as) : a ∈ as := by
  cases q with
  | includes => exact h
  | startsWith => exact List.mem_of_mem_take h

/-- A condition about filters holds if a filter in scope fits. -/
lemma observe_filters (q : FilterQuery) (p : FilterPattern) (v : Sourced (List Filter)) :
    ∃ found, (q.condition p).observe (.filters v) =
      .ok ⟨(q.scope v.value).any p.fits, found, some v.source⟩ := by
  cases q with
  | includes => exact ⟨_, rfl⟩
  | startsWith =>
    have hfirst : (v.value.take 1).any p.fits = v.value.head?.any p.fits := by
      cases v.value <;> simp
    rw [scope, hfirst]
    exact ⟨_, rfl⟩

/-- A check that comes from an object has its pattern. -/
lemma Loads.exists_pattern (h : q.Loads o c) :
    ∃ p, RuleFile.filterPattern (.object o) = .ok p ∧ c.condition = q.condition p ∧
      c.failIf = false := by
  obtain ⟨rule, d, hname, hvalue, hfailIf, hcheck⟩ := h
  have hcondition := RuleFile.condition?_of_check hcheck
  rw [hname, hvalue, condition?_name] at hcondition
  cases hp : RuleFile.filterPattern (.object o) with
  | error why =>
    rw [hp] at hcondition
    cases hcondition
  | ok p =>
    rw [hp] at hcondition
    exact ⟨p, rfl, (Except.ok.inj (Option.some.inj hcondition)).symm,
      (RuleFile.failIf_of_check hcheck).trans hfailIf⟩

/-- A check comes from exactly those objects that are patterns. -/
lemma exists_loads_iff : (∃ c, q.Loads o c) ↔ ∃ p, RuleFile.filterPattern (.object o) = .ok p := by
  constructor
  · rintro ⟨c, hc⟩
    obtain ⟨p, hp, -⟩ := hc.exists_pattern
    exact ⟨p, hp⟩
  · rintro ⟨p, hp⟩
    have hname : Text.upper q.name = q.name := by cases q <;> decide +kernel
    have hvalid : RuleFile.DraftCheck.IsValid { condition := q.name, value := .object o } := by
      refine ⟨q.condition p, ?_⟩
      rw [hname, condition?_name, hp]
      rfl
    obtain ⟨c, hc⟩ := (RuleFile.exists_check_eq_ok_iff "").2 hvalid
    exact ⟨c, "", { condition := q.name, value := .object o }, hname, rfl, rfl, hc⟩

/-- A farm whose first entry agrees has an entry that agrees. -/
lemma Finds.includes {e : Any.Entry} (h : q.Finds o e) : FilterQuery.includes.Finds o e := by
  obtain ⟨label, source, items, hlast, entry, hentry, hagrees⟩ := h
  exact ⟨label, source, items, hlast, entry, mem_of_mem_scope hentry, hagrees⟩

/-- What is found for an object is found without one of its names. -/
lemma Finds.of_without {e : Any.Entry} (h : q.Finds o e) (name : String) :
    q.Finds (RuleFile.without name o) e := by
  obtain ⟨label, source, items, hlast, entry, hentry, hagrees⟩ := h
  exact ⟨label, source, items, hlast, entry, hentry,
    hagrees.of_lookup fun _ _ => RuleFile.lookup_of_lookup_without⟩

/-- A check from an object passes on the filters of a farm exactly if it finds the object there.

**Proof sketch.** By what the last `/filter` is. If it is a block, its entries are the filters that
are observed (`observe_filters`); otherwise nothing is configured and nothing can be found. -/
theorem Loads.exists_verdict (h : q.Loads o c) (e : Any.Entry) : ∃ b,
    c.verdict (Any.farm e).value "farm.filter" = .ok b ∧ (b = true ↔ q.Finds o e) := by
  obtain ⟨p, hp, hcondition, hfailIf⟩ := h.exists_pattern
  have hlocate := Any.locate_filter e
  -- Without a block there is nothing to find, and the condition does not hold of nothing.
  have hmissing : (Any.farm e).value.locate "farm.filter" = .ok .missing → ¬ q.Finds o e → ∃ b,
      c.verdict (Any.farm e).value "farm.filter" = .ok b ∧ (b = true ↔ q.Finds o e) := by
    intro htarget hnot
    have hobserve : c.condition.observe .missing = .ok ⟨false, "nothing configured", none⟩ := by
      rw [hcondition]
      cases q <;> rfl
    exact ⟨false, Check.verdict_eq_ok htarget hobserve hfailIf,
      iff_of_false Bool.false_ne_true hnot⟩
  rcases hlast : Any.lastOf? "filter" e.items with _ | ⟨label, t | ⟨source, items⟩⟩
  · rw [hlast] at hlocate
    refine hmissing hlocate fun ⟨_, _, _, hblock, _⟩ => ?_
    cases hlast.symm.trans hblock
  · rw [hlast] at hlocate
    refine hmissing hlocate fun ⟨_, _, _, hblock, _⟩ => ?_
    cases hlast.symm.trans hblock
  · rw [hlast] at hlocate
    obtain ⟨found, hobserve⟩ := q.observe_filters p
      ⟨(items.filterMap Any.Item.entry?).map fun e => (Any.filter e).value, label.source⟩
    rw [← hcondition] at hobserve
    refine ⟨_, Check.verdict_eq_ok hlocate hobserve hfailIf, ?_⟩
    simp only [scope_map, List.any_map, List.any_eq_true, Function.comp_apply,
      Any.fits_filter_iff hp]
    constructor
    · exact fun hfits => ⟨label, source, items, hlast, hfits⟩
    · rintro ⟨_, _, _, hblock, hfits⟩
      cases hlast.symm.trans hblock
      exact hfits

/-- A check of a loaded object passes exactly if the farm has a filter that agrees with the object.
-/
lemma Loads.verdict_eq_ok_true_iff (h : q.Loads o c) {e : Any.Entry} :
    c.verdict (Any.farm e).value "farm.filter" = .ok true ↔ q.Finds o e := by
  obtain ⟨b, hverdict, hb⟩ := h.exists_verdict e
  rw [hverdict, Except.ok.injEq, hb]

/-- **A check on the filters of a farm compares names with labels.** A check that comes from an
object has a verdict on every farm. It passes exactly if the last `/filter` of the farm is a block
in which some entry, or the first one if the list has to start with it, has the texts of the
object: for each name that the object does not leave null, the last item with that label in the
entry is a value, and without its quotes it is the text of the object. So a list that starts with
an object includes it. What passes still passes when a name is taken from the object, and that
still makes a check as long as a name is left that is not null.

**Proof sketch.** The pattern of an object has its texts
(`RuleFile.filterPattern_object_eq_ok_iff`), and a filter what its entry has last
(`Any.get_filter`), both by the label of the field; so the comparison field by field is one of
names with labels (`Any.fits_filter_iff`). -/
theorem verdict_of_loads (h : q.Loads o c) (e : Any.Entry) :
    (∃ b, c.verdict (Any.farm e).value "farm.filter" = .ok b ∧ (b = true ↔ q.Finds o e)) ∧
    ((∃ c', FilterQuery.includes.Loads o c') ∧ ∀ c', FilterQuery.includes.Loads o c' →
      c.verdict (Any.farm e).value "farm.filter" = .ok true →
      c'.verdict (Any.farm e).value "farm.filter" = .ok true) ∧
    ∀ name,
      ((∃ n v, (RuleFile.without name o).lookup n = some v ∧ v ≠ .null) →
        ∃ c', q.Loads (RuleFile.without name o) c') ∧
      ∀ c', q.Loads (RuleFile.without name o) c' →
        c.verdict (Any.farm e).value "farm.filter" = .ok true →
        c'.verdict (Any.farm e).value "farm.filter" = .ok true := by
  have hpattern : ∃ p, RuleFile.filterPattern (.object o) = .ok p := exists_loads_iff.1 ⟨c, h⟩
  refine ⟨h.exists_verdict e, ⟨exists_loads_iff.2 hpattern, fun c' hc' => ?_⟩, fun name =>
    ⟨fun hleft => exists_loads_iff.2 (RuleFile.exists_filterPattern_without hpattern hleft),
      fun c' hc' => ?_⟩⟩
  · rw [h.verdict_eq_ok_true_iff, hc'.verdict_eq_ok_true_iff]
    exact Finds.includes
  · rw [h.verdict_eq_ok_true_iff, hc'.verdict_eq_ok_true_iff]
    exact fun hfinds => hfinds.of_without name

/-- Denied pages, whatever their glob. -/
def deniedPages : List (String × JsonValue) :=
  [("glob", .null), ("type", .text "deny"), ("url", .text "/content/*")]

/-- A farm with two lists of filters. The last one has a value among its entries, and its second
entry says three things twice, the first time otherwise or in another form. -/
def guardedFarm : Any.Entry where
  label := ⟨"site", Any.siteLine 1⟩
  items :=
    [.value (some ⟨"filter", Any.siteLine 2⟩) ⟨"none", Any.siteLine 2⟩,
      .block (some ⟨"filter", Any.siteLine 3⟩) (Any.siteLine 3)
        [.value none ⟨"stray", Any.siteLine 4⟩,
          .block (some ⟨"0001", Any.siteLine 5⟩) (Any.siteLine 5)
            [.value (some ⟨"type", Any.siteLine 6⟩) ⟨"deny", Any.siteLine 6⟩,
              .value (some ⟨"url", Any.siteLine 7⟩) ⟨"\"*\"", Any.siteLine 7⟩],
          .block none (Any.siteLine 8)
            [.value (some ⟨"type", Any.siteLine 9⟩) ⟨"allow", Any.siteLine 9⟩,
              .value (some ⟨"type", Any.siteLine 10⟩) ⟨"'deny'", Any.siteLine 10⟩,
              .block (some ⟨"url", Any.siteLine 11⟩) (Any.siteLine 11) [],
              .value (some ⟨"url", Any.siteLine 12⟩) ⟨"\"/content/*\"", Any.siteLine 12⟩,
              .value (some ⟨"glob", Any.siteLine 13⟩) ⟨"*", Any.siteLine 13⟩]]]

/-- The filters of this farm include denied pages but start with another denial. -/
theorem verdict_guardedFarm :
    (∃ c, includes.Loads deniedPages c ∧
      c.verdict (Any.farm guardedFarm).value "farm.filter" = .ok true ∧
      includes.Finds deniedPages guardedFarm) ∧
    (∃ c, startsWith.Loads deniedPages c ∧
      c.verdict (Any.farm guardedFarm).value "farm.filter" = .ok false ∧
      ¬ startsWith.Finds deniedPages guardedFarm) ∧
    ∃ c, includes.Loads (RuleFile.without "url" deniedPages) c ∧
      c.verdict (Any.farm guardedFarm).value "farm.filter" = .ok true := by
  have hincludes : includes.Loads deniedPages
      { condition := .filterListIncludes { type := "deny", url := "/content/*" } } :=
    ⟨"pages", { condition := "Filter_List_Includes", value := .object deniedPages },
      by decide +kernel, rfl, rfl, rfl⟩
  have hstartsWith : startsWith.Loads deniedPages
      { condition := .filterListStartsWith { type := "deny", url := "/content/*" } } :=
    ⟨"pages", { condition := "filter_list_starts_with", value := .object deniedPages },
      by decide +kernel, rfl, rfl, rfl⟩
  have hleft : (RuleFile.without "url" deniedPages).lookup "type" = some (.text "deny") := rfl
  obtain ⟨⟨_, hpass, hfinds⟩, -, hwithout⟩ := verdict_of_loads hincludes guardedFarm
  obtain ⟨⟨_, hfail, hmisses⟩, -⟩ := verdict_of_loads hstartsWith guardedFarm
  cases hpass
  cases hfail
  obtain ⟨c, hc⟩ := (hwithout "url").1 ⟨"type", _, hleft, nofun⟩
  exact ⟨⟨_, hincludes, rfl, hfinds.1 rfl⟩,
    ⟨_, hstartsWith, rfl, fun h => Bool.false_ne_true (hmisses.2 h)⟩,
    c, hc, (hwithout "url").2 c hc rfl⟩

end FilterQuery

end ProxyLint
