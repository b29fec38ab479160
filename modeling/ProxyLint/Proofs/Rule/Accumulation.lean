import Mathlib.Data.List.DropRight
import ProxyLint.Proofs.Rule.Unique

set_option relaxedAutoImplicit false
set_option autoImplicit false

/-!
# What rule lists accumulate to

Sources of rules are merged one after the other. What they come to can be said at once: of all
rules since the last source that replaces, each id is kept where it first occurs, with the rule
that bears it last. Whether rules share an id inside one source or across sources makes no
difference.

A rule list is looked at in two ways, by its ids in order and by the rule that it has for an id.
A list that holds each id once is determined by both.

## Main definitions

* `ProxyLint.RuleList.settle` — each id once, where it first occurs, with its last rule.
* `ProxyLint.RuleFile.Batch` — the rules of a source, repeated ids included.
* `ProxyLint.Supply`, `ProxyLint.Gathering.take` — what is given to a gathering.
* `ProxyLint.RuleFile.Batch.since` — the batches from the last one on that replaces.

## Main results

* `ProxyLint.RuleList.foldl_put_nil` — rules put into an empty list one by one are settled.
* `ProxyLint.Gathering.list_foldl_take` — only what can be used of the sources counts.
* `ProxyLint.Gathering.rules_foldl_take` — what a sequence of sources comes to.
-/

namespace ProxyLint

/-! ### Lists without repetition -/

section EraseDups

variable {α : Type} [BEq α] [LawfulBEq α]

/-- A member at the end counts only if it is new. -/
lemma eraseDups_concat (as : List α) (a : α) :
    (as ++ [a]).eraseDups = if a ∈ as then as.eraseDups else as.eraseDups ++ [a] := by
  rw [List.eraseDups_append]
  split
  · next h => simp [List.removeAll, h]
  · next h => simp [List.removeAll, h, List.eraseDups_cons]

/-- What is repeated behind the front of a list can be dropped there at once. -/
lemma eraseDups_append_eraseDups (as bs : List α) :
    (as ++ bs.eraseDups).eraseDups = (as ++ bs).eraseDups := by
  induction bs using List.reverseRecOn with
  | nil => simp
  | append_singleton bs b ih =>
    rw [eraseDups_concat, ← List.append_assoc, eraseDups_concat (as ++ bs)]
    by_cases hb : b ∈ bs
    · rw [if_pos hb, if_pos (List.mem_append_right as hb), ih]
    · rw [if_neg hb, ← List.append_assoc, eraseDups_concat, ih]
      simp only [List.mem_append, List.mem_eraseDups]

/-- Nothing is new in a list that comes twice. -/
lemma eraseDups_append_self (as bs : List α) :
    (as ++ bs ++ bs).eraseDups = (as ++ bs).eraseDups := by
  have hnone : bs.removeAll (as ++ bs) = [] := by
    simp only [List.removeAll, List.filter_eq_nil_iff]
    intro b hb
    simp [hb]
  rw [List.eraseDups_append, hnone, List.eraseDups_nil, List.append_nil]

end EraseDups

namespace RuleList

/-! ### Rules that share ids -/

/-- Of rules that may share ids, each id once: where it first occurs, with the rule that bears
it last. -/
def settle (raw : List Rule) : List Rule :=
  (raw.map Rule.id).eraseDups.filterMap fun id => raw.reverse.find? fun r => r.id == id

/-- The rule that is put into a list is the one for its id; those for other ids stay. -/
lemma find?_put (rules : List Rule) (r : Rule) (id : String) :
    (put rules r).find? (fun x => x.id == id) =
      if r.id = id then some r else rules.find? fun x => x.id == id := by
  induction rules with
  | nil => simp [put, List.find?_singleton]
  | cons x xs ih =>
    rw [put]
    by_cases hx : x.id = r.id
    · have hsame : x.isSame r = true := by simpa [Rule.isSame] using hx
      rw [if_pos hsame]
      by_cases hid : r.id = id <;> simp [hx, hid]
    · have hsame : x.isSame r = false := by simpa [Rule.isSame] using hx
      rw [hsame, if_neg Bool.false_ne_true, List.find?_cons, ih, List.find?_cons]
      by_cases hid : r.id = id
      · have hne : (x.id == id) = false := by
          rw [← hid]
          exact beq_eq_false_iff_ne.2 hx
        rw [hne, if_pos hid]
      · rw [if_neg hid, if_neg hid]

/-- The ids of a list that is built up are those of the rules, in the order in which they first
come. -/
lemma map_id_foldl_put_nil (raw : List Rule) :
    (raw.foldl put []).map Rule.id = (raw.map Rule.id).eraseDups := by
  induction raw using List.reverseRecOn with
  | nil => rfl
  | append_singleton raw r ih =>
    rw [List.foldl_concat, map_id_put, ih, List.map_append, List.map_singleton, eraseDups_concat]
    simp only [List.mem_eraseDups]

/-- For each id the last of its rules is the one that counts. -/
lemma find?_foldl_put_nil (raw : List Rule) (id : String) :
    (raw.foldl put []).find? (fun r => r.id == id) = raw.reverse.find? fun r => r.id == id := by
  induction raw using List.reverseRecOn with
  | nil => rfl
  | append_singleton raw r ih =>
    rw [List.foldl_concat, find?_put, ih, List.reverse_concat]
    by_cases hid : r.id = id <;> simp [hid]

/-- Rules without a common id are determined by their ids in order and by the rule for each. -/
lemma filterMap_find?_map_id {rules : List Rule} (h : (rules.map Rule.id).Nodup) :
    (rules.map Rule.id).filterMap (fun id => rules.find? fun r => r.id == id) = rules := by
  rw [List.filterMap_map]
  refine (List.filterMap_congr fun r hr => ?_).trans List.filterMap_some
  cases hfound : rules.find? fun x => x.id == r.id with
  | none => exact absurd (beq_self_eq_true r.id) (List.find?_eq_none.1 hfound r hr)
  | some x =>
    have hid : x.id = r.id := by simpa using List.find?_some hfound
    rw [Function.comp, hfound,
      List.inj_on_of_nodup_map h (List.mem_of_find?_eq_some hfound) hr hid]

/-- **Rules that are put into an empty list one by one are settled.** -/
theorem foldl_put_nil (raw : List Rule) : raw.foldl put [] = settle raw := by
  rw [← filterMap_find?_map_id (@nodup_map_id_foldl_put [] List.nodup_nil raw),
    map_id_foldl_put_nil, settle]
  exact List.filterMap_congr fun id _ => find?_foldl_put_nil raw id

/-- A rule with a new id goes to the end. -/
lemma put_of_notMem {rules : List Rule} {r : Rule} (h : r.id ∉ rules.map Rule.id) :
    put rules r = rules ++ [r] := by
  induction rules with
  | nil => rfl
  | cons x xs ih =>
    rw [List.map_cons, List.mem_cons, not_or] at h
    have hsame : x.isSame r = false := by
      simpa [Rule.isSame] using fun heq : x.id = r.id => h.1 heq.symm
    rw [put, hsame, if_neg Bool.false_ne_true, ih h.2, List.cons_append]

/-- Rules without a common id are settled. -/
lemma settle_of_nodup {rules : List Rule} (h : (rules.map Rule.id).Nodup) :
    settle rules = rules := by
  rw [← foldl_put_nil]
  induction rules using List.reverseRecOn with
  | nil => rfl
  | append_singleton rules r ih =>
    rw [List.map_append, List.map_singleton] at h
    have hnew : r.id ∉ rules.map Rule.id := fun hmem =>
      List.disjoint_of_nodup_append h hmem (List.mem_singleton_self _)
    rw [List.foldl_concat, ih h.of_append_left, put_of_notMem hnew]

/-- Rules are settled in one go or in two. -/
lemma foldl_put_settle (raw raw' : List Rule) :
    raw'.foldl put (settle raw) = settle (raw ++ raw') := by
  rw [← foldl_put_nil, ← foldl_put_nil, List.foldl_append]

/-- The ids of settled rules come in the order in which they first came. -/
@[simp] lemma map_id_settle (raw : List Rule) :
    (settle raw).map Rule.id = (raw.map Rule.id).eraseDups := by
  rw [← foldl_put_nil, map_id_foldl_put_nil]

/-- No id comes twice among settled rules. -/
lemma nodup_map_id_settle (raw : List Rule) : ((settle raw).map Rule.id).Nodup := by
  rw [← foldl_put_nil]
  exact @nodup_map_id_foldl_put [] List.nodup_nil raw

/-- Two lists of rules settle to the same if they have the same ids in order and the same last
rule for each id. -/
lemma settle_congr {raw raw' : List Rule}
    (hids : (raw.map Rule.id).eraseDups = (raw'.map Rule.id).eraseDups)
    (hfind : ∀ id : String, raw.reverse.find? (fun r => r.id == id) =
      raw'.reverse.find? fun r => r.id == id) : settle raw = settle raw' := by
  rw [settle, settle, hids]
  exact List.filterMap_congr fun id _ => hfind id

/-- The last rule for an id is the same once the rules are settled. -/
lemma find?_reverse_settle (raw : List Rule) (id : String) :
    (settle raw).reverse.find? (fun r => r.id == id) = raw.reverse.find? fun r => r.id == id := by
  rw [← find?_foldl_put_nil (settle raw), foldl_put_nil, settle_of_nodup (nodup_map_id_settle raw),
    ← foldl_put_nil, find?_foldl_put_nil]

/-- Rules may be settled by themselves before they are settled with others. -/
lemma settle_append_settle (raw raw' : List Rule) :
    settle (raw ++ settle raw') = settle (raw ++ raw') := by
  refine settle_congr ?_ fun id => ?_
  · rw [List.map_append, map_id_settle, eraseDups_append_eraseDups, ← List.map_append]
  · rw [List.reverse_append, List.reverse_append, List.find?_append, List.find?_append,
      find?_reverse_settle]

/-- Rules that come twice in a row settle as if they came once. -/
lemma settle_append_self (raw raw' : List Rule) :
    settle (raw ++ raw' ++ raw') = settle (raw ++ raw') := by
  refine settle_congr ?_ fun id => ?_
  · rw [List.map_append, List.map_append, eraseDups_append_self]
  · rw [List.reverse_append, List.reverse_append, List.find?_append, List.find?_append]
    cases raw'.reverse.find? fun r => r.id == id <;> rfl

end RuleList

/-! ### Batches -/

namespace RuleFile

/-- The merge mode and the rules of a valid rule file, repeated ids included. -/
structure Batch where
  /-- How the rules combine with those before them. -/
  mode : MergeMode := .extend
  /-- The rules in the order of the file. -/
  rules : List Rule := []
  deriving DecidableEq, Repr, Inhabited

namespace Batch

/-- The rule list of a batch. -/
def list (b : Batch) : RuleList :=
  .ofRules b.mode b.rules

/-- Whether a batch takes the place of all before it. -/
def replaces (b : Batch) : Bool :=
  b.mode == .replace

/-- The batches that count when batches are merged into a base: from the last one on that
replaces, or all of them after the base. -/
def since (base : Batch) (loaded : List Batch) : List Batch :=
  (loaded.filter replaces).getLast?.getD base :: loaded.rtakeWhile fun b => !b.replaces

/-- The list of a batch has its rules, settled. -/
lemma rules_list (b : Batch) : b.list.rules = RuleList.settle b.rules :=
  RuleList.foldl_put_nil b.rules

/-- The list of a batch holds each rule once. -/
lemma holdsOnce_list (b : Batch) : b.list.HoldsOnce :=
  RuleList.holdsOnce_ofRules b.mode b.rules

/-- A batch that replaces leaves nothing of those before it. -/
lemma since_concat (base : Batch) (loaded : List Batch) (b : Batch) :
    base.since (loaded ++ [b]) = if b.replaces then [b] else base.since loaded ++ [b] := by
  unfold since
  rw [List.rtakeWhile_concat, List.filter_append]
  cases hb : b.replaces <;> simp [hb]

/-- If no batch replaces, all of them count. -/
lemma since_of_forall (base : Batch) {loaded : List Batch}
    (h : ∀ b ∈ loaded, b.replaces = false) : base.since loaded = base :: loaded := by
  have hnone : loaded.filter replaces = [] := by
    rw [List.filter_eq_nil_iff]
    intro b hb
    simp [h b hb]
  have hall : loaded.rtakeWhile (fun b => !b.replaces) = loaded := by
    rw [List.rtakeWhile_eq_self_iff]
    intro b hb
    simp [h b hb]
  rw [since, hnone, hall]
  rfl

end Batch

/-- The batch that a text describes. -/
def batch (origin text : String) : Except Error Batch :=
  match (JsonText.read? text).bind draft? with
  | none => .error .malformed
  | some d => do
    let mode ← mergeMode d.mergeMode
    let rules ← (d.rules.zipIdx).mapM fun (r, i) => rule origin i r
    return ⟨mode, rules⟩

/-- A text is read into the list of its batch. -/
lemma read_eq_map_batch (origin text : String) :
    read origin text = (batch origin text).map Batch.list := by
  unfold read batch
  cases (JsonText.read? text).bind draft? with
  | none => rfl
  | some d =>
    dsimp only
    unfold validate
    cases mergeMode d.mergeMode with
    | error e => rfl
    | ok mode =>
      simp only [bind, Except.bind]
      cases (d.rules.zipIdx).mapM fun (r, i) => rule origin i r <;> rfl

end RuleFile

namespace RuleList

open RuleFile

/-- A list with batches merged into it. -/
def mergeAll (l : RuleList) (bs : List Batch) : RuleList :=
  bs.foldl (fun l b => l.merge b.list) l

/-- The rules of a list that holds each id once, after a batch has been merged into it. -/
lemma rules_merge_list {l : RuleList} (h : l.HoldsOnce) (b : Batch) :
    (l.merge b.list).rules =
      if b.replaces then settle b.rules else settle (l.rules ++ b.rules) := by
  have hmode : (b.list.mode == .replace) = b.replaces := rfl
  unfold merge
  rw [hmode]
  cases hb : b.replaces with
  | true => rw [Bool.or_true, if_pos rfl, if_pos rfl, b.rules_list]
  | false =>
    rw [Bool.or_false, if_neg Bool.false_ne_true]
    split
    · next hempty => rw [List.isEmpty_iff.1 hempty, List.nil_append, b.rules_list]
    · have hsettled : b.list.rules.foldl put (settle l.rules) = settle (l.rules ++ b.rules) := by
        rw [foldl_put_settle, b.rules_list, settle_append_settle]
      rw [settle_of_nodup h] at hsettled
      exact hsettled

/-- Merging batches keeps each rule once. -/
lemma HoldsOnce.mergeAll {l : RuleList} (h : l.HoldsOnce) (bs : List Batch) :
    (l.mergeAll bs).HoldsOnce := by
  induction bs generalizing l with
  | nil => exact h
  | cons b bs ih => exact ih (h.merge b.holdsOnce_list)

/-- A list that holds each id once is the list of a batch. -/
lemma HoldsOnce.list_eq {l : RuleList} (h : l.HoldsOnce) : Batch.list ⟨l.mode, l.rules⟩ = l := by
  have hrules := Batch.rules_list ⟨l.mode, l.rules⟩
  rw [settle_of_nodup h] at hrules
  show RuleList.mk l.mode (Batch.list ⟨l.mode, l.rules⟩).rules = l
  rw [hrules]

/-- **What batches come to** when they are merged into a base one after the other.

**Proof sketch.** Induction on the batches from the last one: a batch that replaces starts
anew, any other adds its rules to those that count (`rules_merge_list`), which may have been
settled before (`settle_append_settle`). -/
theorem rules_mergeAll (base : Batch) (loaded : List Batch) :
    (base.list.mergeAll loaded).rules = settle ((base.since loaded).flatMap Batch.rules) := by
  induction loaded using List.reverseRecOn with
  | nil => simpa [mergeAll, Batch.since] using base.rules_list
  | append_singleton loaded b ih =>
    have honce := base.holdsOnce_list.mergeAll loaded
    have hlast : base.list.mergeAll (loaded ++ [b]) = (base.list.mergeAll loaded).merge b.list :=
      List.foldl_concat ..
    rw [hlast, rules_merge_list honce, Batch.since_concat]
    split
    · rw [List.flatMap_singleton]
    · rw [List.flatMap_append, List.flatMap_singleton, ← foldl_put_settle,
        settle_of_nodup honce, ih, foldl_put_settle]

/-- Batches that do not replace leave every rule in its place. -/
lemma ids_isPrefix_mergeAll (l : RuleList) {bs : List Batch}
    (h : ∀ b ∈ bs, b.replaces = false) : l.ids <+: (l.mergeAll bs).ids := by
  have hput : ∀ (rules : List Rule) (r : Rule),
      rules.map Rule.id <+: (put rules r).map Rule.id := by
    intro rules r
    rw [map_id_put]
    split
    · exact List.prefix_refl _
    · exact List.prefix_append _ _
  have hputs : ∀ (incoming rules : List Rule),
      rules.map Rule.id <+: (incoming.foldl put rules).map Rule.id := by
    intro incoming
    induction incoming with
    | nil => exact fun rules => List.prefix_refl _
    | cons r incoming ih => exact fun rules => (hput rules r).trans (ih _)
  induction bs generalizing l with
  | nil => exact List.prefix_refl _
  | cons b bs ih =>
    refine List.IsPrefix.trans ?_ (ih (l.merge b.list) fun c hc => h c (List.mem_cons_of_mem b hc))
    have hmode : (b.list.mode == .replace) = false := h b List.mem_cons_self
    unfold merge
    rw [hmode, Bool.or_false]
    split
    · next hempty =>
      rw [ids, List.isEmpty_iff.1 hempty]
      exact List.nil_prefix
    · exact hputs _ _

/-- What was there before a batch that replaces does not matter. -/
lemma mergeAll_of_replaces {bs : List Batch} (h : ∃ b ∈ bs, b.replaces = true)
    (l l' : RuleList) : l.mergeAll bs = l'.mergeAll bs := by
  induction bs generalizing l l' with
  | nil =>
    obtain ⟨b, hb, -⟩ := h
    cases hb
  | cons b bs ih =>
    cases hb : b.replaces with
    | true =>
      have hmode : (b.list.mode == .replace) = true := hb
      have hmerge : ∀ l : RuleList, l.merge b.list = b.list := by
        intro l
        unfold merge
        rw [hmode, Bool.or_true, if_pos rfl]
      show (l.merge b.list).mergeAll bs = (l'.merge b.list).mergeAll bs
      rw [hmerge, hmerge]
    | false =>
      obtain ⟨c, hc, hreplaces⟩ := h
      rcases List.mem_cons.1 hc with rfl | hc
      · rw [hb] at hreplaces
        cases hreplaces
      · exact ih ⟨c, hc, hreplaces⟩ _ _

/-- A list keeps its merge mode unless it is empty and gets that of a batch which does not
replace.

**Proof sketch.** Induction on the batches. The first one gives its mode to an empty list, after
which there are rules; a list with rules keeps its mode, and keeps them. -/
lemma mode_mergeAll (l : RuleList) {bs : List Batch} (h : ∀ b ∈ bs, b.replaces = false) :
    (l.mergeAll bs).mode = if l.rules = [] ∧ bs ≠ [] then .extend else l.mode := by
  induction bs generalizing l with
  | nil => simp [mergeAll]
  | cons b bs ih =>
    have hextend : b.list.mode = .extend := by
      have hb := h b List.mem_cons_self
      unfold Batch.replaces at hb
      show b.mode = .extend
      cases hmode : b.mode with
      | extend => rfl
      | replace => rw [hmode] at hb; cases hb
    have hrest := ih (l.merge b.list) fun c hc => h c (List.mem_cons_of_mem b hc)
    show ((l.merge b.list).mergeAll bs).mode = _
    rw [hrest]
    by_cases hempty : l.rules = []
    · have hmerge : l.merge b.list = b.list := by simp [merge, hempty]
      simp [hmerge, hextend, hempty]
    · have hmerge : l.merge b.list =
          { l with rules := b.list.rules.foldl put l.rules } := by
        simp [merge, hextend, hempty]
      have hids := @ids_isPrefix_mergeAll l [b] fun c hc => by
        rw [List.mem_singleton.1 hc]
        exact h b List.mem_cons_self
      have hne : b.list.rules.foldl put l.rules ≠ [] := by
        intro hnil
        have hone : l.mergeAll [b] = l.merge b.list := rfl
        rw [hone, hmerge, ids, ids, hnil] at hids
        exact hempty (List.map_eq_nil_iff.1 (List.prefix_nil.1 hids))
      simp [hmerge, hne, hempty]

/-- **Batches that are merged twice in a row come to what they come to once.** -/
theorem mergeAll_mergeAll {l : RuleList} (h : l.HoldsOnce) (bs : List Batch) :
    (l.mergeAll bs).mergeAll bs = l.mergeAll bs := by
  by_cases hreplaces : ∃ b ∈ bs, b.replaces = true
  · exact mergeAll_of_replaces hreplaces _ _
  · have hextend : ∀ b ∈ bs, b.replaces = false := by
      intro b hb
      cases hbr : b.replaces with
      | false => rfl
      | true => exact absurd ⟨b, hb, hbr⟩ hreplaces
    have hboth : (l.mergeAll bs).mergeAll bs = l.mergeAll (bs ++ bs) := List.foldl_append.symm
    have hextend' : ∀ b ∈ bs ++ bs, b.replaces = false := fun b hb =>
      (List.mem_append.1 hb).elim (hextend b) (hextend b)
    have hrules : (l.mergeAll (bs ++ bs)).rules = (l.mergeAll bs).rules := by
      rw [← h.list_eq, rules_mergeAll, rules_mergeAll, Batch.since_of_forall _ hextend,
        Batch.since_of_forall _ hextend', List.flatMap_cons, List.flatMap_append,
        ← List.append_assoc, settle_append_self, List.flatMap_cons]
    have hmode : (l.mergeAll (bs ++ bs)).mode = (l.mergeAll bs).mode := by
      rw [mode_mergeAll l hextend, mode_mergeAll l hextend']
      simp
    rw [hboth]
    show RuleList.mk (l.mergeAll (bs ++ bs)).mode (l.mergeAll (bs ++ bs)).rules = l.mergeAll bs
    rw [hmode, hrules]

end RuleList

/-! ### Supplies -/

/-- What is given to a gathering. -/
inductive Supply where
  /-- A text, which may turn out to be unreadable. -/
  | text (origin : String) (text? : Option String)
  /-- A file. -/
  | file (t : FileTree) (path : String)
  /-- A folder with rule files. -/
  | folder (t : FileTree) (path : String)

/-- Merges what is given. -/
def Gathering.take (g : Gathering) : Supply → Gathering
  | .text origin text? => g.addText origin text?
  | .file t path => g.addFile t path
  | .folder t path => g.addFolder t path

namespace RuleFile

/-- The batch of a text, if the text can be read and is valid. -/
def textBatches (origin : String) (text? : Option String) : List Batch :=
  (text?.bind fun text => (batch origin text).toOption).toList

/-- The batch of a file. -/
def fileBatches (t : FileTree) (path : String) : List Batch :=
  textBatches (Gathering.originOf path) (t.read? path)

end RuleFile

/-- The batches of what is given, as far as it can be read and is valid, in order. -/
def Supply.batches : Supply → List RuleFile.Batch
  | .text origin text? => RuleFile.textBatches origin text?
  | .file t path => RuleFile.fileBatches t path
  | .folder t path => ((Gathering.ruleFiles? t path).getD []).flatMap (RuleFile.fileBatches t)

namespace Gathering

open RuleFile

/-- A text merges its batches into the list. -/
lemma list_addText (g : Gathering) (origin : String) (text? : Option String) :
    (g.addText origin text?).list = g.list.mergeAll (textBatches origin text?) := by
  unfold addText source textBatches
  cases text? with
  | none => rfl
  | some text =>
    dsimp only
    rw [read_eq_map_batch, Option.bind_some]
    cases batch origin text <;> rfl

/-- A supply merges its batches into the list. -/
lemma list_take (g : Gathering) (s : Supply) :
    (g.take s).list = g.list.mergeAll s.batches := by
  cases s with
  | text origin text? => exact g.list_addText origin text?
  | file t path => exact g.list_addText _ _
  | folder t path =>
    show (g.addFolder t path).list =
      g.list.mergeAll (((ruleFiles? t path).getD []).flatMap (fileBatches t))
    unfold addFolder
    cases ruleFiles? t path with
    | none => rfl
    | some files =>
      dsimp only [Option.getD_some]
      induction files generalizing g with
      | nil => rfl
      | cons file files ih =>
        rw [List.foldl_cons, ih, List.flatMap_cons]
        have hfile : (g.addFile t file).list = g.list.mergeAll (fileBatches t file) :=
          g.list_addText _ _
        rw [hfile]
        exact List.foldl_append.symm

/-- **Only what can be used of the sources counts**, in their order. -/
theorem list_foldl_take (g : Gathering) (supplies : List Supply) :
    (supplies.foldl take g).list = g.list.mergeAll (supplies.flatMap Supply.batches) := by
  induction supplies generalizing g with
  | nil => rfl
  | cons s supplies ih =>
    rw [List.foldl_cons, ih, list_take, List.flatMap_cons]
    exact List.foldl_append.symm

/-- **What a sequence of sources comes to.** The sources that can be used are merged into a
base, and the rules are those of the batches since the last one that replaces, or since the
base: each id where it first occurs, with the rule that bears it last. So each id is held once;
what cannot be used has no effect; as long as nothing replaces, the rules stay where they are;
and what is merged twice in a row might as well be merged once.

**Proof sketch.** A gathering merges the batches of its sources (`list_foldl_take`), and these
come to what is said (`RuleList.rules_mergeAll`). -/
theorem rules_foldl_take (base : Batch) (skipped : List String) (supplies : List Supply) :
    let g := supplies.foldl take ⟨base.list, skipped⟩
    g.list.rules = RuleList.settle
        ((base.since (supplies.flatMap Supply.batches)).flatMap Batch.rules) ∧
      g.list.HoldsOnce ∧
      (∀ (s : Supply) (more : List Supply), s.batches = [] →
        (more.foldl take (g.take s)).list = (more.foldl take g).list) ∧
      (∀ more : List Supply, (∀ b ∈ more.flatMap Supply.batches, b.replaces = false) →
        g.list.ids <+: (more.foldl take g).list.ids) ∧
      ∀ s : Supply, ((g.take s).take s).list = (g.take s).list := by
  intro g
  have hlist : g.list = base.list.mergeAll (supplies.flatMap Supply.batches) :=
    list_foldl_take _ supplies
  have honce : g.list.HoldsOnce := by
    rw [hlist]
    exact base.holdsOnce_list.mergeAll _
  refine ⟨?_, honce, fun s more hs => ?_, fun more hmore => ?_, fun s => ?_⟩
  · rw [hlist, RuleList.rules_mergeAll]
  · rw [list_foldl_take, list_foldl_take, list_take, hs]
    rfl
  · rw [list_foldl_take g more]
    exact RuleList.ids_isPrefix_mergeAll g.list hmore
  · rw [list_take, list_take, RuleList.mergeAll_mergeAll honce]

end Gathering

end ProxyLint
