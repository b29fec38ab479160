import Mathlib.Data.List.Nodup
import ProxyLint.Config
import ProxyLint.Rule.Builtin

set_option relaxedAutoImplicit false
set_option autoImplicit false

/-!
# Rule lists hold each id once

A rule takes the place of its namesake or comes at the end, so the ids of a list
grow only by ids that are new. Whatever rules are read, merged and configured, no
id is held twice.

## Main definitions

* `ProxyLint.RuleList.ids` — the ids of a list in order.
* `ProxyLint.RuleList.HoldsOnce` — no two rules of a list have one id.

## Main results

* `ProxyLint.RuleList.map_id_put` — the ids after a rule has been put into a list.
* `ProxyLint.RuleList.holdsOnce_read` — a rule file describes a list that holds each
  id once.
* `ProxyLint.RuleList.holdsOnce_configured` — so does the list that a preset, a folder
  and a configuration make up.
-/

namespace ProxyLint

/-- A step after one that may fail has a result only if the first one has. -/
lemma exists_ok_of_bind {ε α β : Type} {x : Except ε α} {f : α → Except ε β} {b : β}
    (h : x >>= f = .ok b) : ∃ a, x = .ok a ∧ f a = .ok b := by
  cases x with
  | error e => cases h
  | ok a => exact ⟨a, rfl, h⟩

/-- What comes out of a change of a result comes from a result. -/
lemma exists_of_map_eq_ok {ε α β : Type} {f : α → β} {x : Except ε α} {b : β}
    (h : x.map f = .ok b) : ∃ a, x = .ok a ∧ b = f a := by
  cases x with
  | error e => cases h
  | ok a =>
    cases h
    exact ⟨a, rfl, rfl⟩

namespace RuleList

/-- The ids of a list in order. -/
def ids (l : RuleList) : List String :=
  l.rules.map Rule.id

/-- No two rules of a list have one id. -/
def HoldsOnce (l : RuleList) : Prop :=
  l.ids.Nodup

instance (l : RuleList) : Decidable l.HoldsOnce :=
  inferInstanceAs (Decidable l.ids.Nodup)

/-! ### Putting rules into a list -/

/-- The ids grow by the id of a rule if it is new. -/
theorem map_id_put (rules : List Rule) (r : Rule) :
    (put rules r).map Rule.id =
      if r.id ∈ rules.map Rule.id then rules.map Rule.id else rules.map Rule.id ++ [r.id] := by
  induction rules with
  | nil => rfl
  | cons x xs ih =>
    rw [put]
    by_cases hx : x.id = r.id
    · have hsame : x.isSame r = true := by simpa [Rule.isSame] using hx
      simp [hsame, hx]
    · have hsame : x.isSame r = false := by simpa [Rule.isSame] using hx
      rw [hsame, if_neg Bool.false_ne_true, List.map_cons, ih, List.map_cons]
      by_cases hmem : r.id ∈ xs.map Rule.id
      · rw [if_pos hmem, if_pos (List.mem_cons_of_mem _ hmem)]
      · rw [if_neg hmem, if_neg, List.cons_append]
        intro hcons
        rcases List.mem_cons.1 hcons with heq | hmem'
        · exact hx heq.symm
        · exact hmem hmem'

/-- Putting a rule into a list keeps each id once. -/
lemma nodup_map_id_put {rules : List Rule} (h : (rules.map Rule.id).Nodup) (r : Rule) :
    ((put rules r).map Rule.id).Nodup := by
  rw [map_id_put]
  split
  · exact h
  · next hnew =>
    rw [← List.concat_eq_append]
    exact h.concat hnew

/-- What one rule keeps, many keep. -/
lemma nodup_map_id_foldl_put {rules : List Rule} (h : (rules.map Rule.id).Nodup)
    (incoming : List Rule) : ((incoming.foldl put rules).map Rule.id).Nodup := by
  induction incoming generalizing rules with
  | nil => exact h
  | cons r incoming ih => exact ih (nodup_map_id_put h r)

/-- A list of rules that is read holds each rule once. -/
lemma holdsOnce_ofRules (mode : MergeMode) (rules : List Rule) :
    (ofRules mode rules).HoldsOnce :=
  @nodup_map_id_foldl_put [] List.nodup_nil rules

/-- Merging keeps each rule once. -/
lemma HoldsOnce.merge {l incoming : RuleList} (h : l.HoldsOnce) (h' : incoming.HoldsOnce) :
    (l.merge incoming).HoldsOnce := by
  unfold RuleList.merge
  split
  · exact h'
  · exact nodup_map_id_foldl_put h incoming.rules

/-! ### Settings of rules -/

/-- An override leaves the id of a rule as it is. -/
lemma ids_withOverrides (l : RuleList) (override? : String → Option Override) :
    (l.withOverrides override?).ids = l.ids := by
  rw [ids, withOverrides, List.map_map, ids]
  refine List.map_congr_left fun r _ => ?_
  rw [Function.comp]
  cases override? r.id <;> rfl

/-- Enabling all rules keeps their ids. -/
lemma ids_withAllEnabled (l : RuleList) : l.withAllEnabled.ids = l.ids := by
  rw [ids, withAllEnabled, List.map_map]
  rfl

/-! ### Sources of rules -/

/-- **A rule file describes a list that holds each id once.** -/
theorem holdsOnce_read {origin text : String} {l : RuleList}
    (h : RuleFile.read origin text = .ok l) : l.HoldsOnce := by
  unfold RuleFile.read at h
  split at h
  · cases h
  · obtain ⟨mode, -, h⟩ := exists_ok_of_bind h
    obtain ⟨rules, -, h⟩ := exists_ok_of_bind h
    cases h
    exact holdsOnce_ofRules mode rules

/-- A file that is added keeps each rule once. -/
lemma holdsOnce_addFile {g : Gathering} (h : g.list.HoldsOnce) (t : FileTree) (path : String) :
    (g.addFile t path).list.HoldsOnce := by
  unfold Gathering.addFile Gathering.addText Gathering.source
  cases t.read? path with
  | none => exact h
  | some text =>
    dsimp only
    cases hread : RuleFile.read (Gathering.originOf path) text with
    | error e => exact h
    | ok l => exact h.merge (holdsOnce_read hread)

/-- A folder that is added keeps each rule once. -/
lemma holdsOnce_addFolder {g : Gathering} (h : g.list.HoldsOnce) (t : FileTree)
    (folder : String) : (g.addFolder t folder).list.HoldsOnce := by
  unfold Gathering.addFolder
  cases Gathering.ruleFiles? t folder with
  | none => exact h
  | some files =>
    dsimp only
    induction files generalizing g with
    | nil => exact h
    | cons file files ih => exact ih (holdsOnce_addFile h t file)

/-- The presets hold each rule once. -/
lemma holdsOnce_preset (preset : Preset) : preset.rules.HoldsOnce := by
  have hcore : Builtin.core.HoldsOnce := by decide
  cases preset with
  | recommended => exact hcore
  | strict =>
    unfold HoldsOnce
    rw [Preset.rules, ids_withAllEnabled]
    exact hcore
  | minimal => exact (List.filter_sublist.map Rule.id).nodup hcore

/-- **The list that a preset, a folder and a configuration make up holds each id
once.** -/
theorem holdsOnce_configured (preset : Preset) (t : FileTree) (folder? : Option String)
    (c : Config) : (preset.rules.configured t folder? c).HoldsOnce := by
  have hgathered : ∀ l : RuleList, l.HoldsOnce → (l.withOverrides c.override?).HoldsOnce := by
    intro l hl
    unfold HoldsOnce
    rw [ids_withOverrides]
    exact hl
  unfold configured
  cases folder? with
  | none => exact hgathered _ (holdsOnce_preset preset)
  | some folder => exact hgathered _ (holdsOnce_addFolder (holdsOnce_preset preset) t folder)

/-- Two rules of a list that holds each id once are the same rule if they have one
id. -/
lemma HoldsOnce.eq_of_id_eq {l : RuleList} (h : l.HoldsOnce) {r r' : Rule} (hr : r ∈ l.rules)
    (hr' : r' ∈ l.rules) (hid : r.id = r'.id) : r = r' :=
  List.inj_on_of_nodup_map h hr hr' hid

end RuleList

end ProxyLint
