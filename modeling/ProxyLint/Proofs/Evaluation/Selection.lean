import Mathlib.Logic.Relation
import ProxyLint.Proofs.Evaluation.Places

set_option relaxedAutoImplicit false
set_option autoImplicit false

/-!
# What a path selects

A path to sections is followed word by word, from all sections that the words before it lead to
at once. A section that many chains of sections lead to is still met once: what is selected are
the sections at the end of some chain, in the order in which they are opened. Whether a path can
be followed at all is decided by its words alone.

## Main definitions

* `ProxyLint.PathWord.IsKnown` — a text is a word of paths, in any letter case.
* `ProxyLint.HttpdConfig.IsInside` — a section stands in another one, at any depth.
* `ProxyLint.HttpdConfig.Leads` — a word of a path leads from a section to a section.
* `ProxyLint.HttpdConfig.Chain` — the words of a path lead from a section to a section.

## Main results

* `ProxyLint.HttpdConfig.IsPreorder.mem_descendants_iff` — the walk down from a section meets what
  is inside it.
* `ProxyLint.HttpdConfig.IsPreorder.mem_follow_iff` — a word is followed from all sections at once.
* `ProxyLint.HttpdConfig.select_ends_of_chains` — a path selects the ends of its chains.
-/

namespace ProxyLint

/-! ### Words -/

namespace PathWord

/-- A text is a word of paths, in any letter case. -/
def IsKnown (token : String) : Prop :=
  Text.lower token ∈ all.map Prod.fst

instance : DecidablePred IsKnown :=
  fun token => inferInstanceAs (Decidable (Text.lower token ∈ all.map Prod.fst))

/-- The words are listed in lower case. -/
lemma lower_eq_of_mem_all : ∀ entry ∈ all, Text.lower entry.1 = entry.1 := by
  decide +kernel

/-- No word is listed twice. -/
lemma nodup_map_fst_all : (all.map Prod.fst).Nodup := by
  decide

/-- A word is read by its letters in lower case. -/
lemma ofText?_eq_some_iff {token : String} {w : PathWord} :
    ofText? token = some w ↔ (Text.lower token, w) ∈ all := by
  have hsame : ∀ entry ∈ all, Text.sameLetters entry.1 token = true ↔
      entry.1 = Text.lower token := by
    intro entry hentry
    rw [Text.sameLetters, lower_eq_of_mem_all entry hentry, beq_iff_eq]
  rw [ofText?, Option.map_eq_some_iff]
  constructor
  · rintro ⟨entry, hfind, rfl⟩
    have hentry := List.mem_of_find?_eq_some hfind
    have hfits := List.find?_some hfind
    rwa [← (hsame entry hentry).1 hfits]
  · intro hmem
    have hsome : (all.find? fun entry => Text.sameLetters entry.1 token).isSome :=
      List.find?_isSome.2 ⟨_, hmem, (hsame _ hmem).2 rfl⟩
    obtain ⟨entry, hfind⟩ := Option.isSome_iff_exists.1 hsome
    have hentry := List.mem_of_find?_eq_some hfind
    have hfits := List.find?_some hfind
    have hname := (hsame entry hentry).1 hfits
    have heq := List.inj_on_of_nodup_map nodup_map_fst_all hentry hmem hname
    exact ⟨entry, hfind, by rw [heq]⟩

/-- Every known word is read. -/
lemma IsKnown.exists_ofText? {token : String} (h : IsKnown token) :
    ∃ w, ofText? token = some w := by
  obtain ⟨⟨name, w⟩, hmem, hname⟩ := List.mem_map.1 h
  exact ⟨w, ofText?_eq_some_iff.2 (hname ▸ hmem)⟩

/-- A word has no dot in it. -/
lemma IsKnown.dot_notMem {token : String} (h : IsKnown token) : '.' ∉ token.toList := by
  intro hdot
  have hlower : '.' ∈ (Text.lower token).toList := by
    rw [Text.lower, String.toList_ofList]
    exact List.mem_map_of_mem (f := Char.toLower) hdot
  have hnames : ∀ name ∈ all.map Prod.fst, '.' ∉ name.toList := by decide +kernel
  exact hnames _ h hlower

end PathWord

namespace HttpdConfig

variable {c : HttpdConfig} {current : List Nat} {i j : Nat} {tokens : List String}

/-! ### Sections inside sections -/

/-- Section `j` stands in section `i`, at any depth. -/
def IsInside (c : HttpdConfig) (i j : Nat) : Prop :=
  Relation.TransGen (fun p s => c.parent? s = some p) i j

namespace IsPreorder

/-- The children of a section are those whose parent it is. -/
lemma mem_children_iff (h : c.IsPreorder) : j ∈ c.children i ↔ c.parent? j = some i := by
  rw [← List.count_pos_iff, h.count_children]
  split
  · next hparent => exact iff_of_true Nat.one_pos hparent
  · next hparent => exact iff_of_false (Nat.lt_irrefl 0) hparent

/-- A section that stands directly in another one is met from there, and so is all that is met
from it. -/
lemma mem_descendants_of_parent? (h : c.IsPreorder) {k : Nat} (hparent : c.parent? k = some i)
    (hj : j = k ∨ j ∈ c.descendants k) : j ∈ c.descendants i := by
  rw [h.descendants_walk, List.mem_flatMap]
  exact ⟨k, h.mem_children_iff.2 hparent, List.mem_cons.2 hj⟩

/-- **The walk down from a section meets what is inside it**, and nothing else. -/
theorem mem_descendants_iff (h : c.IsPreorder) : j ∈ c.descendants i ↔ c.IsInside i j := by
  constructor
  · intro hj
    induction i using descendants.induct c with
    | case1 i ih =>
      rw [descendants] at hj
      obtain ⟨k, hk, hj⟩ := List.mem_flatMap.1 hj
      have hparent : c.parent? k = some i := h.mem_children_iff.1 hk
      split at hj
      · next hlt =>
        rcases List.mem_cons.1 hj with rfl | hj
        · exact .single hparent
        · exact .head hparent (ih k hlt hj)
      · cases hj
  · intro hinside
    induction hinside using Relation.TransGen.head_induction_on with
    | single hparent => exact h.mem_descendants_of_parent? hparent (.inl rfl)
    | head hparent _ ih => exact h.mem_descendants_of_parent? hparent (.inr ih)

end IsPreorder

/-! ### Chains of sections -/

/-- A word of a path leads from a section to a section. -/
inductive Leads (c : HttpdConfig) : PathWord → Nat → Nat → Prop where
  /-- A kind leads to the sections of that kind anywhere inside. -/
  | inside {kind : SectionKind} {i j : Nat} {s : Section} :
    c.IsInside i j → c.get? j = some s → s.kind = kind → Leads c (.inside kind) i j
  /-- The root folder stays where the one argument is `/`. -/
  | ofRoot {i : Nat} {s : Section} :
    c.get? i = some s → s.arguments = ["/"] → Leads c .ofRoot i i

/-- The words of a path, in any letter case, lead from a section to a section. -/
inductive Chain (c : HttpdConfig) : List String → Nat → Nat → Prop where
  | nil (i : Nat) : Chain c [] i i
  | cons {token : String} {w : PathWord} {tokens : List String} {i j k : Nat} :
    (Text.lower token, w) ∈ PathWord.all → c.Leads w i j → Chain c tokens j k →
      Chain c (token :: tokens) i k

/-- **A word is followed from all sections at once**, and leads where it leads from one of
them. -/
theorem IsPreorder.mem_follow_iff (h : c.IsPreorder) {w : PathWord} :
    j ∈ c.follow current w ↔ ∃ i ∈ current, c.Leads w i j := by
  cases w with
  | inside kind =>
    rw [follow, List.mem_filter, Bool.and_eq_true, List.contains_iff_mem, List.mem_flatMap,
      Option.any_eq_true]
    simp only [h.mem_descendants_iff, beq_iff_eq]
    constructor
    · rintro ⟨-, ⟨i, hi, hinside⟩, s, hs, hkind⟩
      exact ⟨i, hi, .inside hinside hs hkind⟩
    · rintro ⟨i, hi, hleads⟩
      cases hleads with
      | inside hinside hs hkind =>
        have hsize : j < c.size := (Array.getElem?_eq_some_iff.1 hs).1
        exact ⟨List.mem_range.2 hsize, ⟨i, hi, hinside⟩, _, hs, hkind⟩
  | ofRoot =>
    rw [follow, List.mem_filter, Option.any_eq_true]
    simp only [beq_iff_eq]
    constructor
    · rintro ⟨hj, s, hs, harguments⟩
      exact ⟨j, hj, .ofRoot hs harguments⟩
    · rintro ⟨i, hi, hleads⟩
      cases hleads with
      | ofRoot hs harguments => exact ⟨hi, _, hs, harguments⟩

/-- Words are followed one after the other, and lead to the ends of the chains from the sections
that they start at. -/
lemma IsPreorder.exists_followAll (h : c.IsPreorder) (hknown : ∀ t ∈ tokens, PathWord.IsKnown t)
    (current : List Nat) : ∃ ids, c.followAll current tokens = .ok ids ∧
      ∀ k, k ∈ ids ↔ ∃ i ∈ current, c.Chain tokens i k := by
  induction tokens generalizing current with
  | nil =>
    refine ⟨current, rfl, fun k => ⟨fun hk => ⟨k, hk, .nil k⟩, ?_⟩⟩
    rintro ⟨i, hi, ⟨⟩⟩
    exact hi
  | cons token tokens ih =>
    obtain ⟨w, hw⟩ := (hknown token List.mem_cons_self).exists_ofText?
    obtain ⟨ids, hids, hmem⟩ := ih (fun t ht => hknown t (List.mem_cons_of_mem _ ht))
      (c.follow current w)
    refine ⟨ids, by rw [followAll, hw]; exact hids, fun k => ?_⟩
    rw [hmem]
    constructor
    · rintro ⟨j, hj, hchain⟩
      obtain ⟨i, hi, hleads⟩ := h.mem_follow_iff.1 hj
      exact ⟨i, hi, .cons (PathWord.ofText?_eq_some_iff.1 hw) hleads hchain⟩
    · rintro ⟨i, hi, hchain⟩
      cases hchain with
      | cons hword hleads hchain =>
        rw [← PathWord.ofText?_eq_some_iff, hw, Option.some.injEq] at hword
        subst hword
        exact ⟨_, h.mem_follow_iff.2 ⟨i, hi, hleads⟩, hchain⟩

/-! ### Paths -/

/-- A path with known words is followed from the whole configuration. -/
lemma select_joinWith (c : HttpdConfig) (hne : tokens ≠ [])
    (hknown : ∀ t ∈ tokens, PathWord.IsKnown t) :
    c.select (Text.joinWith "." ("httpd" :: tokens)) = c.followAll [0] tokens := by
  have hfields : Text.fields '.' (Text.joinWith "." ("httpd" :: tokens)) = "httpd" :: tokens := by
    refine Text.fields_joinWith_mark rfl (List.cons_ne_nil _ _) fun t ht => ?_
    rcases List.mem_cons.1 ht with rfl | ht
    · decide
    · exact (hknown t ht).dot_notMem
  obtain ⟨second, rest, rfl⟩ := List.exists_cons_of_ne_nil hne
  obtain ⟨w, hw⟩ := (hknown second List.mem_cons_self).exists_ofText?
  rw [select, hfields]
  simp [hw]

/-- Which word ends the following of words does not depend on the sections they lead to. -/
lemma followAll_eq_error_iff (c c' : HttpdConfig) (current current' : List Nat) {e : Misfit} :
    c.followAll current tokens = .error e ↔ c'.followAll current' tokens = .error e := by
  induction tokens generalizing current current' with
  | nil => simp [followAll]
  | cons token tokens ih =>
    rw [followAll, followAll]
    cases PathWord.ofText? token with
    | none => rfl
    | some w => exact ih _ _

/-- **Whether a path fails does not depend on the configuration**, and neither does how. -/
theorem select_eq_error_iff (c c' : HttpdConfig) {element : String} {e : Misfit} :
    c.select element = .error e ↔ c'.select element = .error e := by
  unfold select
  split
  · split
    · rfl
    · split
      · simp
      · split
        · simp
        · exact followAll_eq_error_iff c c' _ _
  · rfl

/-- Section `i` of lines, but for the whole configuration, is opened by the opener number `i`. -/
lemma exists_opener_ofLines {lines : List Line} (hi : i ≠ 0)
    {s : Section} (hs : (ofLines lines).value.get? i = some s) :
    (lines.filterMap Httpd.opener?)[i - 1]? = some s.opener := by
  have hopener := getElem?_openers hs
  rwa [openers_eq_cons, List.getElem?_cons, if_neg hi] at hopener

/-- **A path selects the ends of its chains.** A path of known words, in any letter case, selects
the sections that a chain leads to from the whole configuration, where a kind of section leads to
the sections of that kind anywhere inside, and `root` stays where the one argument is `/`. Each is
selected once, in the order of the lines that open them. Whether a path cannot be followed, and
for which reason, depends on the path and not on the configuration.

**Proof sketch.** A word is followed from all sections at once, and leads to those that it leads
to from one of them (`IsPreorder.mem_follow_iff`); so by induction on the words what they lead to
are the ends of chains (`IsPreorder.exists_followAll`). Numbers ascend along the selection
(`isOrdered_of_select`), and they count the openers (`openers_eq_cons`). -/
theorem select_ends_of_chains (lines : List Line) :
    let c := (ofLines lines).value
    (∀ tokens : List String, tokens ≠ [] → (∀ t ∈ tokens, PathWord.IsKnown t) →
      ∃ ids, c.select (Text.joinWith "." ("httpd" :: tokens)) = .ok ids ∧
        ids.Pairwise (· < ·) ∧
        (∀ i ∈ ids, 0 < i ∧ ∃ s, c.get? i = some s ∧
          (lines.filterMap Httpd.opener?)[i - 1]? = some s.opener) ∧
        ∀ k, k ∈ ids ↔ c.Chain tokens 0 k) ∧
    ∀ (c' : HttpdConfig) (element : String) (e : Misfit),
      c.select element = .error e ↔ c'.select element = .error e := by
  intro c
  refine ⟨fun tokens hne hknown => ?_, fun c' element e => select_eq_error_iff c c'⟩
  obtain ⟨body, hbody⟩ : ∃ body, c = ofBody (rootSource lines) body := exists_body_of_lines lines
  have hpreorder : c.IsPreorder := hbody ▸ isPreorder_ofBody _ body
  obtain ⟨ids, hids, hmem⟩ := hpreorder.exists_followAll hknown [0]
  rw [← select_joinWith c hne hknown] at hids
  have hordered := isOrdered_of_select hids
  have hzero : 0 ∉ ids := (rootIsPlain_ofLines lines).zero_notMem_of_select hids
  refine ⟨ids, hids, hordered.pairwise, fun i hi => ?_, fun k => ?_⟩
  · have hne : i ≠ 0 := fun h => hzero (h ▸ hi)
    obtain ⟨s, hs⟩ := hordered.exists_get? i hi
    exact ⟨Nat.pos_of_ne_zero hne, s, hs, exists_opener_ofLines hne hs⟩
  · rw [hmem]
    simp

/-- Folders inside each other and in a virtual host, the innermost one behind a module. -/
def nestedLines : List Line :=
  [⟨"<VirtualHost *:80>", .ofLine "httpd.conf" 1 none⟩,
    ⟨"<Directory />", .ofLine "httpd.conf" 2 none⟩,
    ⟨"<directory \"/\">", .ofLine "httpd.conf" 3 none⟩,
    ⟨"<IfModule mod_dir.c>", .ofLine "httpd.conf" 4 none⟩,
    ⟨"<DirectoryMatch />", .ofLine "httpd.conf" 5 none⟩]

/-- Two chains lead to the innermost folder, which is selected once, and none leads to the
outermost one. The word `proxy` is not known here, as it is not known anywhere. -/
theorem select_nestedLines :
    (∀ t ∈ ["VHOST", "directory", "Directory", "root"], PathWord.IsKnown t) ∧
    (ofLines nestedLines).value.select "httpd.VHOST.directory.Directory.root" = .ok [3, 5] ∧
    (ofLines nestedLines).value.Chain ["VHOST", "directory", "Directory", "root"] 0 5 ∧
    ¬ (ofLines nestedLines).value.Chain ["VHOST", "directory", "Directory", "root"] 0 2 ∧
    (ofLines nestedLines).value.select "httpd.vhost.proxy" =
      .error (.unknownPathToken "proxy") := by
  obtain ⟨hchains, herrors⟩ := select_ends_of_chains nestedLines
  have hknown : ∀ t ∈ ["VHOST", "directory", "Directory", "root"], PathWord.IsKnown t := by
    decide +kernel
  have hpath : Text.joinWith "." ("httpd" :: ["VHOST", "directory", "Directory", "root"]) =
      "httpd.VHOST.directory.Directory.root" := by decide +kernel
  have hfound : (ofLines nestedLines).value.select "httpd.VHOST.directory.Directory.root" =
      .ok [3, 5] := by decide +kernel
  obtain ⟨ids, hids, -, -, hmem⟩ := hchains _ (List.cons_ne_nil _ _) hknown
  rw [hpath, hfound] at hids
  obtain rfl : [3, 5] = ids := Except.ok.inj hids
  have hempty : (ofRoot .unknown).select "httpd.vhost.proxy" =
      .error (.unknownPathToken "proxy") := by decide +kernel
  exact ⟨hknown, hfound, (hmem 5).1 (by decide), fun h => absurd ((hmem 2).2 h) (by decide),
    (herrors _ _ _).2 hempty⟩

end HttpdConfig

end ProxyLint
