import Mathlib.Data.List.Basic
import ProxyLint.Farm.Decode

set_option relaxedAutoImplicit false
set_option autoImplicit false

/-!
# Faults of values

Braces are a matter of the tree: once it is built, none can be missing. What is noted while a
tree is read into farms is about labels and values only.

## Main definitions

* `ProxyLint.Fault.isOfValues` — the faults that a tree can have.
* `ProxyLint.Noted.OfValues` — nothing is noted but such faults.

## Main results

* `ProxyLint.Any.ofValues_decode` — what is noted about a tree is about labels and values.
-/

namespace ProxyLint

/-- The faults that a tree can have: its braces are in order. -/
def Fault.isOfValues : Fault → Bool
  | .anyUnknownLabel | .anyInvalidInteger | .anyUnexpectedValue | .anyDeprecatedProperty => true
  | _ => false

namespace Noted

variable {α β σ : Type}

/-- Nothing is noted but faults of labels and values. -/
def OfValues (x : Noted α) : Prop :=
  ∀ f ∈ x.findings, f.fault.isOfValues = true

/-- Merely returning notes nothing. -/
@[simp] lemma ofValues_pure (a : α) : (pure a : Noted α).OfValues := by
  intro f hf
  cases hf

/-- A single note is a fault of values if its fault is. -/
@[simp] lemma ofValues_note {fault : Fault} {context : String} {source : Source} :
    (note fault context source).OfValues ↔ fault.isOfValues = true := by
  simp [OfValues, note]

/-- Two steps note faults of values only if both do. -/
@[simp] lemma ofValues_bind {x : Noted α} {f : α → Noted β} :
    (x >>= f).OfValues ↔ x.OfValues ∧ (f x.value).OfValues := by
  simp only [OfValues, findings_bind, List.forall_mem_append]

/-- Changing the value notes nothing. -/
@[simp] lemma ofValues_map {x : Noted α} {f : α → β} : (f <$> x).OfValues ↔ x.OfValues := by
  rw [map_eq_pure_bind, ofValues_bind]
  simp

/-- Steps in a row note faults of values only if each does. -/
lemma ofValues_foldlM {step : σ → α → Noted σ} {as : List α}
    (hstep : ∀ s, ∀ a ∈ as, (step s a).OfValues) (s : σ) : (as.foldlM step s).OfValues := by
  induction as generalizing s with
  | nil => simp
  | cons a as ih =>
    rw [List.foldlM_cons, ofValues_bind]
    exact ⟨hstep s a List.mem_cons_self, ih (fun s b hb => hstep s b (List.mem_cons_of_mem a hb)) _⟩

end Noted

namespace Any

open Noted

variable {α β σ : Type}

/-! ### Shapes -/

/-- Reading an item as a property notes faults of values only. -/
@[simp] lemma ofValues_property? (scope : String) (item : Item) :
    (property? scope item).OfValues := by
  rcases item with ⟨_ | label, text⟩ | ⟨_ | label, source, items⟩ <;>
    simp [property?, Fault.isOfValues]

/-- Properties that are read one after the other. -/
lemma ofValues_properties {read : σ → Sourced String → Content → Noted σ}
    (hread : ∀ s label content, (read s label content).OfValues) (scope : String) (start : σ)
    (items : List Item) : (properties scope read start items).OfValues := by
  refine ofValues_foldlM (fun s item _ => ?_) start
  rw [ofValues_bind]
  refine ⟨ofValues_property? scope item, ?_⟩
  split
  · exact hread _ _ _
  · exact ofValues_pure _

/-- An unknown label is a fault of values. -/
@[simp] lemma ofValues_unknownLabel (scope : String) (label : Sourced String) :
    (unknownLabel scope label).OfValues := by
  simp [unknownLabel, Fault.isOfValues]

/-- A deprecated label is a fault of values. -/
@[simp] lemma ofValues_deprecatedLabel (scope : String) (label : Sourced String) :
    (deprecatedLabel scope label).OfValues := by
  simp [deprecatedLabel, Fault.isOfValues]

/-- Asking for a block notes faults of values only. -/
@[simp] lemma ofValues_block? (label : Sourced String) (content : Content) :
    (block? label content).OfValues := by
  cases content <;> simp [block?, Fault.isOfValues]

/-- Reading a text notes faults of values only. -/
@[simp] lemma ofValues_text (label : Sourced String) (content : Content) :
    (text label content).OfValues := by
  cases content <;> simp [text, Fault.isOfValues]

/-- Reading a number notes faults of values only. -/
@[simp] lemma ofValues_integer (label : Sourced String) (content : Content) :
    (integer label content).OfValues := by
  simp only [integer, ofValues_bind, ofValues_text, true_and]
  split
  · simp
  · split <;> simp [Fault.isOfValues]

/-- Reading a switch notes faults of values only. -/
@[simp] lemma ofValues_boolean (label : Sourced String) (content : Content) :
    (boolean label content).OfValues := by
  simp only [boolean, ofValues_bind, ofValues_text, true_and]
  split
  · simp
  · split
    · simp
    · split <;> simp [Fault.isOfValues]

/-- Reading a value in a list notes faults of values only. -/
@[simp] lemma ofValues_plainValue (label : Sourced String) (item : Item) :
    (plainValue label item).OfValues := by
  rcases item with ⟨_ | label, text⟩ | ⟨_ | label, source, items⟩ <;>
    simp [plainValue, Fault.isOfValues]

/-- Lists that are read and joined. -/
lemma ofValues_collect {read : α → Noted (List β)} (hread : ∀ a, (read a).OfValues)
    (as : List α) : (collect read as).OfValues := by
  induction as with
  | nil => simp [collect]
  | cons a as ih => simp [collect, hread a, ih]

/-- Reading a list of texts notes faults of values only. -/
@[simp] lemma ofValues_strings (label : Sourced String) (content : Content) :
    (strings label content).OfValues := by
  simp only [strings, ofValues_bind, ofValues_block?, true_and]
  split
  · simp
  · simp [ofValues_collect (ofValues_plainValue label)]

/-- Reading an entry of a list notes faults of values only. -/
@[simp] lemma ofValues_entry (scope : String) (item : Item) : (entry scope item).OfValues := by
  rcases item with ⟨_ | label, text⟩ | ⟨_ | label, source, items⟩ <;>
    simp [entry, Fault.isOfValues]

/-- The blocks of a list, each read by a function. -/
lemma ofValues_readEntries {read : Entry → Noted α} (hread : ∀ e, (read e).OfValues)
    (scope : String) (items : List Item) : (readEntries scope read items).OfValues := by
  simp only [readEntries, entries, ofValues_bind]
  exact ⟨ofValues_collect (ofValues_entry scope) items,
    ofValues_collect (fun e => by simp [hread e]) _⟩

/-- Reading a list notes faults of values only if reading an entry does. -/
lemma ofValues_entryList {read : Entry → Noted α} (hread : ∀ e, (read e).OfValues)
    (scope : String) (label : Sourced String) (content : Content) :
    (entryList scope read label content).OfValues := by
  simp only [entryList, ofValues_bind, ofValues_block?, true_and]
  split
  · simp
  · simp [ofValues_readEntries hread]

/-- Reading a text in a rule notes faults of values only. -/
@[simp] lemma ofValues_plainText (label : Sourced String) (content : Content) :
    (plainText label content).OfValues := by
  simp [plainText]

/-! ### Entries of lists -/

/-- Reading a render notes faults of values only. -/
@[simp] lemma ofValues_render (e : Entry) : (render e).OfValues := by
  refine ofValues_properties (fun r label content => ?_) _ _ _
  unfold renderProperty
  split
  case h_4 => split <;> simp
  all_goals simp

/-- Reading a filter notes faults of values only. -/
@[simp] lemma ofValues_filter (e : Entry) : (filter e).OfValues := by
  refine ofValues_properties (fun f label content => ?_) _ _ _
  unfold filterProperty
  split
  · split <;> simp
  · simp

/-- Reading a rule of the cache notes faults of values only. -/
@[simp] lemma ofValues_cacheRule (scope : String) (e : Entry) : (cacheRule scope e).OfValues := by
  refine ofValues_properties (fun r label content => ?_) _ _ _
  unfold cacheRuleProperty
  split <;> simp

/-- Reading a list of rules notes faults of values only. -/
@[simp] lemma ofValues_ruleList (label : Sourced String) (content : Content) :
    (ruleList label content).OfValues :=
  ofValues_entryList (ofValues_cacheRule label.value) _ _ _

/-! ### Caches, farms and configurations -/

/-- Reading a cache notes faults of values only. -/
@[simp] lemma ofValues_cache (label : Sourced String) (content : Content) :
    (cache label content).OfValues := by
  have hproperty : ∀ c label content, (cacheProperty c label content).OfValues := by
    intro c label content
    unfold cacheProperty
    split
    case h_14 => split <;> simp
    all_goals simp
  simp only [cache, ofValues_bind, ofValues_block?, true_and]
  split
  · simp
  · simp [ofValues_properties hproperty]

/-- Reading a property of the health check notes faults of values only. -/
@[simp] lemma ofValues_healthCheckProperty (url : Property String) (label : Sourced String)
    (content : Content) : (healthCheckProperty url label content).OfValues := by
  unfold healthCheckProperty
  split <;> simp

/-- Reading a property of a farm notes faults of values only. -/
@[simp] lemma ofValues_farmProperty (f : Farm) (label : Sourced String) (content : Content) :
    (farmProperty f label content).OfValues := by
  unfold farmProperty
  split
  case h_12 =>
    simp only [ofValues_bind, ofValues_block?, true_and]
    split
    · simp
    · simp [ofValues_properties ofValues_healthCheckProperty]
  case h_14 => split <;> simp
  all_goals simp [ofValues_entryList]

/-- Reading a farm notes faults of values only. -/
@[simp] lemma ofValues_farm (e : Entry) : (farm e).OfValues :=
  ofValues_properties ofValues_farmProperty _ _ _

/-- **What is noted about a tree is about labels and values**, not about braces. -/
theorem ofValues_decode (items : List Item) : (decode items).OfValues := by
  refine ofValues_properties (fun c label content => ?_) _ _ _
  unfold configProperty
  split
  case h_3 =>
    simp only [ofValues_bind, ofValues_block?, true_and]
    split
    · simp
    · simp [ofValues_readEntries ofValues_farm]
  all_goals simp

end Any

end ProxyLint
