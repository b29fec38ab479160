import ProxyLint.Proofs.Glob.Places
import ProxyLint.Proofs.Path.Fields

set_option relaxedAutoImplicit false
set_option autoImplicit false

/-!
# What a pattern stands for

A pattern in normal form is made of steps up and of components that descend. It stands for paths to
the places that it leads to. If none of its components is `**` or fits `.` or `..`, all of these
places are on one level, so none of them lies in another one.

## Main definitions

* `ProxyLint.Glob.PatternLeadsTo` — where a pattern leads.
* `ProxyLint.Glob.Pattern.isLevel` — a pattern all of whose components take one step.
* `ProxyLint.Glob.Apart` — two paths of which none leads into the other.

## Main results

* `ProxyLint.Glob.components_of_read?_normalize` — the components of a pattern in normal form.
* `ProxyLint.Glob.places_of_expand?` — the paths that fit a pattern lead where the pattern leads.
* `ProxyLint.Glob.pairwise_apart_expand?` — the paths that fit a pattern of one level are apart.
-/

namespace ProxyLint.Glob

open ProxyLint.Path

/-! ### Patterns in normal form -/

/-- Units that are all exact spell what they have been read from. -/
lemma eq_of_exactText? {cs name : List Char} {ts : List Token} (h : tokens? cs = some ts)
    (hname : exactText? ts = some name) : name = cs := by
  induction cs generalizing ts name with
  | nil =>
    rw [tokens?, Option.some.injEq] at h
    subst h
    cases hname
    rfl
  | cons c cs ih =>
    -- a unit with a wildcard is not exact
    have hfirst : ∀ {u : Token} {rest : Option (List Token)}, (∀ d, u ≠ .exactly d) →
        rest.map (u :: ·) ≠ some ts := by
      rintro u rest hu heq
      obtain ⟨us, -, rfl⟩ := Option.map_eq_some_iff.1 heq
      cases u with
      | exactly d => exact hu d rfl
      | one | many | within | outside => cases hname
    unfold tokens? at h
    split at h
    · next heq => cases heq
    · exact absurd h (hfirst (by simp))
    · split at h
      · cases h
      · exact absurd h (hfirst (by simp))
    · split at h
      · exact absurd h (hfirst (by simp))
      · cases h
    · split at h
      · exact absurd h (hfirst (by simp))
      · cases h
    · next heq =>
      obtain ⟨rfl, rfl⟩ := List.cons.inj heq
      obtain ⟨us, hus, rfl⟩ := Option.map_eq_some_iff.1 h
      obtain ⟨rest, hrest, rfl⟩ := Option.map_eq_some_iff.1 hname
      rw [ih hus hrest]

/-- A component without wildcards is the text it has been read from. -/
lemma eq_of_component?_literal {text name : String} (h : component? text = some (.literal name)) :
    name = text := by
  unfold component? at h
  split at h
  · cases h
  · obtain ⟨ts, hts, heq⟩ := Option.map_eq_some_iff.1 h
    cases hexact : exactText? ts with
    | none =>
      rw [hexact] at heq
      cases heq
    | some cs =>
      rw [hexact] at heq
      cases heq
      rw [eq_of_exactText? hts hexact, String.ofList_toList]

/-- Merging `**` components leaves nothing behind that was not there. -/
lemma mem_of_mem_mergeDeep {cs : List Component} {c : Component} (h : c ∈ mergeDeep cs) :
    c ∈ cs := by
  induction cs using mergeDeep.induct with
  | case1 rest ih =>
    rw [mergeDeep] at h
    exact List.mem_cons_of_mem _ (ih h)
  | case2 c' rest hne ih =>
    rw [mergeDeep] at h
    · rcases List.mem_cons.1 h with rfl | h
      · exact List.mem_cons_self
      · exact List.mem_cons_of_mem _ (ih h)
    · exact hne
  | case3 => exact h

/-- A step up is a component that is taken literally. -/
lemma component?_up : component? ".." = some (.literal "..") :=
  component?_of_plain (by decide)

/-- Steps up in a row are components that are taken literally. -/
lemma mapM_component?_replicate (k : Nat) :
    (List.replicate k "..").mapM component? = some (List.replicate k (.literal "..")) := by
  induction k with
  | zero => rfl
  | succ k ih =>
    rw [List.replicate_succ, List.mapM_cons, component?_up, ih]
    rfl

/-- Steps up are not merged. -/
lemma mergeDeep_replicate_append (k : Nat) (cs : List Component) :
    mergeDeep (List.replicate k (.literal "..") ++ cs) =
      List.replicate k (.literal "..") ++ mergeDeep cs := by
  induction k with
  | zero => rfl
  | succ k ih =>
    rw [List.replicate_succ, List.cons_append, mergeDeep, ih]
    · rfl
    · rintro rest ⟨⟩

/-- A component inside a path in normal form: without wildcards it is a name. -/
def Component.Descends (c : Component) : Prop :=
  ∀ name, c = .literal name → IsName name

/-- Components that are read from names lead down. -/
lemma descends_of_mapM {names : List String} (hnames : ∀ n ∈ names, IsName n)
    {cs : List Component} (h : names.mapM component? = some cs) {c : Component} (hc : c ∈ cs) :
    c.Descends := by
  induction names generalizing cs with
  | nil =>
    cases h
    cases hc
  | cons n names ih =>
    rw [List.mapM_cons] at h
    obtain ⟨c', hc', h⟩ := Option.bind_eq_some_iff.1 h
    obtain ⟨cs', hcs', h⟩ := Option.bind_eq_some_iff.1 h
    cases h
    rcases List.mem_cons.1 hc with rfl | hc
    · rintro name rfl
      rw [eq_of_component?_literal hc']
      exact hnames n List.mem_cons_self
    · exact ih (fun m hm => hnames m (List.mem_cons_of_mem _ hm)) hcs' hc

/-- **The components of a pattern in normal form**: steps up, and then components that descend.

**Proof sketch.** The fields of the path are steps up and then names (`fields_normalize`). Steps up
are taken literally and are not merged; the components that are read from names descend
(`descends_of_mapM`). -/
theorem components_of_read?_normalize {path : String} {p : Pattern}
    (h : read? (normalize path) = some p) (hempty : normalize path ≠ "")
    (hroot : normalize path ≠ "/") : p.absolute = isAbsolute (normalize path) ∧
      ∃ k cs, p.components = List.replicate k (.literal "..") ++ cs ∧
        ∀ c ∈ cs, c.Descends := by
  have hshape := fields_normalize path
  -- of the text nothing but its shape matters
  generalize normalize path = text at *
  obtain ⟨k, names, hnames, hne, hfields⟩ := (hshape.resolve_left hempty).resolve_left hroot
  have hbody : Text.fields '/'
      (if isAbsolute text then String.ofList (text.toList.drop 1) else text) =
        List.replicate k ".." ++ names := by
    split
    · next habs =>
      rw [habs, if_pos rfl] at hfields
      have hpath := Text.joinWith_fields text
      have hslash : ∀ w ∈ List.replicate k ".." ++ names, '/' ∉ w.toList := by
        intro w hw
        refine Text.slash_notMem_of_mem_fields (s := text) ?_
        rw [hfields]
        exact List.mem_append_right _ hw
      rw [hfields, List.singleton_append, Text.joinWith_cons "/" "" hne] at hpath
      rw [← hpath]
      simp [Text.fields_joinWith hne hslash]
    · next habs =>
      rw [if_neg habs, List.nil_append] at hfields
      exact hfields
  unfold read? at h
  dsimp only at h
  rw [hbody, List.mapM_append, mapM_component?_replicate] at h
  obtain ⟨raw, hraw, rfl⟩ := Option.map_eq_some_iff.1 h
  obtain ⟨ups, hups, hraw⟩ := Option.bind_eq_some_iff.1 hraw
  obtain ⟨cs, hcs, hraw⟩ := Option.bind_eq_some_iff.1 hraw
  obtain rfl : List.replicate k (.literal "..") = ups := Option.some.inj hups
  obtain rfl : List.replicate k (.literal "..") ++ cs = raw := Option.some.inj hraw
  rw [mergeDeep_replicate_append]
  refine ⟨rfl, k, mergeDeep cs, rfl, ?_⟩
  intro c hc
  exact descends_of_mapM hnames hcs (mem_of_mem_mergeDeep hc)

/-- A pattern in normal form is empty, is the root, or has steps up and components that descend. -/
lemma cases_of_read?_normalize {path : String} {p : Pattern}
    (h : read? (normalize path) = some p) :
    (normalize path = "" ∧ p = ⟨false, [.literal ""]⟩) ∨
      (normalize path = "/" ∧ p = ⟨true, [.literal ""]⟩) ∨
      (normalize path ≠ "" ∧ ∃ k cs, p.components = List.replicate k (.literal "..") ++ cs ∧
        ∀ c ∈ cs, c.Descends) := by
  by_cases hempty : normalize path = ""
  · rw [hempty] at h
    exact .inl ⟨hempty, Option.some.inj (h.symm.trans (by decide +kernel))⟩
  · by_cases hroot : normalize path = "/"
    · rw [hroot] at h
      exact .inr (.inl ⟨hroot, Option.some.inj (h.symm.trans (by decide +kernel))⟩)
    · exact .inr (.inr ⟨hempty, (components_of_read?_normalize h hempty hroot).2⟩)

/-- Steps up that are followed by components leading down make a proper pattern. -/
lemma isProper_of_shape {k : Nat} {cs : List Component} (hcs : ∀ c ∈ cs, c.Descends) :
    ∀ c ∈ List.replicate k (.literal "..") ++ cs, c.IsProper := by
  intro c hc
  rcases List.mem_append.1 hc with hc | hc
  · rw [List.eq_of_mem_replicate hc]
    exact ⟨by decide, by decide⟩
  · cases c with
    | literal name =>
      have hname := hcs _ hc name rfl
      exact ⟨hname.ne_empty, hname.slash_notMem⟩
    | wild ts => trivial
    | deep => trivial

/-- The place that a pattern starts at. -/
def Pattern.start (t : FileTree) (p : Pattern) : List String :=
  if p.absolute then [] else t.here

/-- Where a pattern leads. The empty one leads nowhere. -/
def PatternLeadsTo (t : FileTree) (text : String) (last : List String) : Prop :=
  text ≠ "" ∧ ∃ p, read? text = some p ∧ LeadsTo t p.components (p.start t) last

section Expand

variable {t : FileTree}

/-- The place of the current directory. -/
lemma locate?_dot (hhere : t.isDir "." = true) : t.locate? "." = some t.here := by
  have hdot : t.locate? "." = t.step t.here "." := t.locate?_word (by decide) (by decide)
  rw [hdot]
  by_cases hdir : ∃ es, t.root.at? t.here = some (.dir es)
  · obtain ⟨es, hes⟩ := hdir
    rw [FileTree.step_dir hes]
    rfl
  · have hstep : t.step t.here "." = none :=
      FileTree.step_eq_none (fun es hes => hdir ⟨es, hes⟩) "."
    rw [FileTree.isDir, FileTree.find?, hdot, hstep] at hhere
    cases hhere

/-- There is a directory at the root if there is a current directory. -/
lemma step_root (hhere : t.isDir "." = true) : t.step [] "" = some [] := by
  obtain ⟨n, hn⟩ := FileTree.exists_at?_of_locate? (locate?_dot hhere)
  have hdir := FileTree.isDir_of_locate? (locate?_dot hhere) hn
  rw [hhere] at hdir
  cases hr : t.root with
  | dir es =>
    have hroot : t.root.at? [] = some (.dir es) := by rw [hr]; rfl
    rw [FileTree.step_dir hroot]
    rfl
  | file text =>
    rw [hr] at hn
    cases hh : t.here with
    | nil =>
      rw [hh] at hn
      cases hn
      cases hdir
    | cons name rest =>
      rw [hh] at hn
      cases hn

/-- The path `/` leads to the place of the root. -/
lemma locate?_slash (hhere : t.isDir "." = true) : t.locate? "/" = some [] := by
  have hfields : Text.fields '/' "/" = ["", ""] := by decide
  have hempty : "/".isEmpty = false := by decide
  have habs : isAbsolute "/" = true := by decide
  have hstep := step_root hhere
  rw [FileTree.locate?, hempty, if_neg Bool.false_ne_true, habs, if_pos rfl, hfields,
    List.foldlM_cons, hstep]
  change (t.step [] "").bind _ = _
  rw [hstep]
  rfl

/-- A search starts in the current directory, or at the root. -/
lemma locate?_start (hhere : t.isDir "." = true) (p : Pattern) :
    t.locate? (if p.absolute then "/" else ".") = some (p.start t) := by
  unfold Pattern.start
  split
  · exact locate?_slash hhere
  · exact locate?_dot hhere

/-- The empty component finds nothing from the current directory. -/
lemma search_empty (t : FileTree) : search t [.literal ""] "." = [] := by
  have hentry : entryPath "." "" = "" := by decide
  simp only [search]
  rw [hentry]
  rfl

/-- The empty component finds the root. -/
lemma search_root (hhere : t.isDir "." = true) : search t [.literal ""] "/" = ["/"] := by
  have hentry : entryPath "/" "" = "/" := by decide
  have hcontains : t.contains "/" = true := by
    rw [FileTree.contains, FileTree.find?, locate?_slash hhere]
    rfl
  simp only [search]
  rw [hentry, hcontains]
  rfl

/-- **The paths that fit a pattern in normal form lead where the pattern leads.**

**Proof sketch.** Besides the empty path and the root there are only patterns of proper components
(`cases_of_read?_normalize`); sorting changes nothing about what is found by the search, which is
what the components lead to. -/
theorem places_of_expand? (htidy : t.root.isTidy = true) (hhere : t.isDir "." = true)
    {path : String} {paths : List String} (h : expand? t (normalize path) = some paths) :
    (∀ p ∈ paths, ∃ last, t.locate? p = some last ∧ PatternLeadsTo t (normalize path) last) ∧
      ∀ last, PatternLeadsTo t (normalize path) last → ∃ p ∈ paths, t.locate? p = some last := by
  obtain ⟨p, hp, rfl⟩ := Option.map_eq_some_iff.1 h
  have hstart := locate?_start hhere p
  rcases cases_of_read?_normalize hp with ⟨hempty, rfl⟩ | ⟨hroot, rfl⟩ |
    ⟨hempty, k, cs, hcomponents, hcs⟩
  · rw [if_neg Bool.false_ne_true, search_empty]
    exact ⟨fun q hq => absurd hq (by simp [Path.sort]), fun last hlast => absurd hempty hlast.1⟩
  · rw [hroot] at hp ⊢
    have hstep : t.step [] "" = some [] := step_root hhere
    rw [if_pos rfl, search_root hhere]
    constructor
    · intro q hq
      obtain rfl : q = "/" := by simpa [Path.sort] using hq
      exact ⟨[], hstart, by decide, _, hp, .literal hstep (.done [])⟩
    · rintro last ⟨-, p', hp', hleads⟩
      obtain rfl := Option.some.inj (hp.symm.trans hp')
      obtain rfl : last = [] := by
        cases hleads with
        | literal hnext hdone =>
          obtain rfl := Option.some.inj (hstep.symm.trans hnext)
          cases hdone
          rfl
      exact ⟨"/", by simp [Path.sort], hstart⟩
  · have hproper := isProper_of_shape (k := k) hcs
    rw [← hcomponents] at hproper
    constructor
    · intro q hq
      obtain ⟨last, hlast, hleads⟩ := leadsTo_of_mem_search htidy p.components hproper hstart
        ((Path.perm_sort _).mem_iff.1 hq)
      exact ⟨last, hlast, hempty, p, hp, hleads⟩
    · rintro last ⟨-, p', hp', hleads⟩
      obtain rfl : p = p' := Option.some.inj (hp.symm.trans hp')
      obtain ⟨q, hq, hlast⟩ := exists_mem_search_of_leadsTo htidy hproper hstart hleads
      exact ⟨q, (Path.perm_sort _).mem_iff.2 hq, hlast⟩

end Expand

/-! ### Patterns of one level -/

/-- A component that takes exactly one step, along a name. -/
def Component.isLevel : Component → Bool
  | .literal _ => true
  | .wild ts => (dotNames ts).isEmpty
  | .deep => false

/-- A pattern without `**` and without components that fit `.` or `..`. -/
def Pattern.isLevel (p : Pattern) : Bool :=
  p.components.all Component.isLevel

/-- Two paths whose places do not lie at or below one another. -/
def Apart (t : FileTree) (a b : String) : Prop :=
  ∀ q q', t.locate? a = some q → t.locate? b = some q' → ¬ q <+: q' ∧ ¬ q' <+: q

section Level

variable {t : FileTree}

/-- Components that descend, each by one step, lead as far down as there are components. -/
lemma exists_names_of_leadsTo {cs : List Component} {place last : List String}
    (hlevel : ∀ c ∈ cs, c.isLevel = true) (hcs : ∀ c ∈ cs, c.Descends)
    (h : LeadsTo t cs place last) : ∃ names, last = place ++ names ∧ names.length = cs.length := by
  have hstep : ∀ {name : String} {place next : List String}, IsName name →
      t.step place name = some next → next = place ++ [name] := by
    intro name place next hname hnext
    rw [t.step_name place hname] at hnext
    split at hnext
    · cases hnext
      rfl
    · cases hnext
  induction h with
  | done place => exact ⟨[], by simp⟩
  | @literal name rest place next last hnext _ ih =>
    obtain ⟨names, rfl, hlength⟩ := ih (fun c hc => hlevel c (List.mem_cons_of_mem _ hc))
      fun c hc => hcs c (List.mem_cons_of_mem _ hc)
    have hname := hcs _ List.mem_cons_self name rfl
    exact ⟨name :: names, by rw [hstep hname hnext]; simp, by simp [hlength]⟩
  | @wild ts name rest place next last hname _ hnext _ ih =>
    obtain ⟨names, rfl, hlength⟩ := ih (fun c hc => hlevel c (List.mem_cons_of_mem _ hc))
      fun c hc => hcs c (List.mem_cons_of_mem _ hc)
    have hnodots : dotNames ts = [] :=
      List.isEmpty_iff.1 (hlevel (.wild ts) List.mem_cons_self)
    have hname : IsName name := hname.resolve_right (by simp [hnodots])
    exact ⟨name :: names, by rw [hstep hname hnext]; simp, by simp [hlength]⟩
  | directory | deep => cases hlevel .deep List.mem_cons_self

/-- Steps up lead to one place. -/
lemma leadsTo_replicate_append {k : Nat} {cs : List Component} {place last : List String}
    (h : LeadsTo t (List.replicate k (.literal "..") ++ cs) place last) :
    LeadsTo t cs (place.take (place.length - k)) last := by
  induction k generalizing place with
  | zero => simpa using h
  | succ k ih =>
    rw [List.replicate_succ, List.cons_append] at h
    cases h with
    | literal hnext hleads =>
      have hup := t.step_eq_some hnext
      have hplace : ((Part.ofInner? "..").toList.foldl FileTree.move place) = place.dropLast := rfl
      rw [hplace] at hup
      subst hup
      have hrest := ih hleads
      rw [List.dropLast_eq_take, List.take_take, List.length_take] at hrest
      convert hrest using 2
      omega

/-- The places that a pattern of one level leads to do not lie below one another. -/
lemma eq_of_isPrefix_of_leadsTo {k : Nat} {cs : List Component} {place last last' : List String}
    (hlevel : ∀ c ∈ cs, c.isLevel = true) (hcs : ∀ c ∈ cs, c.Descends)
    (h : LeadsTo t (List.replicate k (.literal "..") ++ cs) place last)
    (h' : LeadsTo t (List.replicate k (.literal "..") ++ cs) place last')
    (hunder : last <+: last') : last = last' := by
  obtain ⟨names, hlast, hlength⟩ :=
    exists_names_of_leadsTo hlevel hcs (leadsTo_replicate_append h)
  obtain ⟨names', hlast', hlength'⟩ :=
    exists_names_of_leadsTo hlevel hcs (leadsTo_replicate_append h')
  refine hunder.eq_of_length ?_
  rw [hlast, hlast', List.length_append, List.length_append, hlength, hlength']

variable (htidy : t.root.isTidy = true)
include htidy

omit htidy in
/-- A component without wildcards adds nothing to what is found behind it. -/
lemma nodup_search_literal {name : String} {rest : List Component} {path : String}
    {place : List String} (hpath : t.locate? path = some place)
    (hname : (Component.literal name).IsProper)
    (h : ∀ next, t.step place name = some next →
      ((search t rest (entryPath path name)).map t.locate?).Nodup) :
    ((search t (.literal name :: rest) path).map t.locate?).Nodup := by
  cases hstep : t.step place name with
  | none =>
    have hnil : search t (.literal name :: rest) path = [] := by
      refine List.eq_nil_iff_forall_not_mem.2 fun p hp => ?_
      obtain ⟨next, hnext, -⟩ := (mem_search_literal_iff hpath hname).1 hp
      rw [hstep] at hnext
      cases hnext
    rw [hnil]
    exact List.nodup_nil
  | some next =>
    have hrest := h next hstep
    generalize hfound : (if name == "." || name == ".." then t.isDir path
      else t.contains (entryPath path name)) = found
    simp only [search]
    rw [hfound]
    cases found with
    | false => exact List.nodup_nil
    | true => exact hrest

/-- A search along components that descend, each by one step, finds each place once.

**Proof sketch.** By recursion on the components. A wildcard is followed along different names, and
what is found along a name lies at or below it (`leadsTo_of_mem_search`), so that nothing is found
along two of them. -/
lemma nodup_search_of_descends (cs : List Component) (hlevel : ∀ c ∈ cs, c.isLevel = true)
    (hcs : ∀ c ∈ cs, c.Descends) {path : String} {place : List String}
    (hpath : t.locate? path = some place) : ((search t cs path).map t.locate?).Nodup := by
  match cs with
  | [] => simp [search]
  | .literal name :: rest =>
    have hname := hcs _ List.mem_cons_self name rfl
    refine nodup_search_literal hpath ⟨hname.ne_empty, hname.slash_notMem⟩ fun next hnext => ?_
    have hentry := (locate?_entryPath hpath hname.ne_empty hname.slash_notMem).trans hnext
    exact nodup_search_of_descends rest (fun c hc => hlevel c (List.mem_cons_of_mem _ hc))
      (fun c hc => hcs c (List.mem_cons_of_mem _ hc)) hentry
  | .wild ts :: rest =>
    have hlevel' : ∀ c ∈ rest, c.isLevel = true := fun c hc => hlevel c (List.mem_cons_of_mem _ hc)
    have hcs' : ∀ c ∈ rest, c.Descends := fun c hc => hcs c (List.mem_cons_of_mem _ hc)
    have hproper := isProper_of_shape (k := 0) hcs'
    have hnodots : dotNames ts = [] :=
      List.isEmpty_iff.1 (hlevel (.wild ts) List.mem_cons_self)
    -- what is found along a name lies at or below it
    have hentry : ∀ name ∈ (t.names path).filter fun n => accepts ts n.toList,
        t.locate? (entryPath path name) = some (place ++ [name]) := by
      intro name hmem
      obtain ⟨hname, hsome⟩ := (mem_names_iff htidy hpath).1 (List.mem_of_mem_filter hmem)
      rw [locate?_entryPath hpath hname.ne_empty hname.slash_notMem, t.step_name place hname]
      rw [t.step_name place hname] at hsome
      split at hsome
      · next hat => rw [if_pos hat]
      · cases hsome
    have hbelow : ∀ name ∈ (t.names path).filter fun n => accepts ts n.toList,
        ∀ q ∈ (search t rest (entryPath path name)).map t.locate?,
          ∃ names, q = some (place ++ name :: names) := by
      intro name hmem q hq
      obtain ⟨p, hp, rfl⟩ := List.mem_map.1 hq
      obtain ⟨last, hlast, hleads⟩ := leadsTo_of_mem_search htidy rest hproper (hentry name hmem) hp
      obtain ⟨names, rfl, -⟩ := exists_names_of_leadsTo hlevel' hcs' hleads
      exact ⟨names, by rw [hlast, List.append_assoc]; rfl⟩
    have hnodup : ((t.names path).filter fun n => accepts ts n.toList).Nodup := by
      refine List.Nodup.filter _ ?_
      unfold FileTree.names
      split
      · next d hd => exact Node.nodup_entries (FileTree.isTidy_find? htidy hd)
      · exact List.nodup_nil
    simp only [search]
    split
    · rw [hnodots, List.flatMap_nil, List.nil_append, List.map_flatMap, List.nodup_flatMap]
      refine ⟨fun name hmem => nodup_search_of_descends rest hlevel' hcs' (hentry name hmem), ?_⟩
      refine hnodup.pairwise_of_forall_ne fun name hmem name' hmem' hne q hq hq' => ?_
      obtain ⟨names, rfl⟩ := hbelow name hmem q hq
      obtain ⟨names', heq⟩ := hbelow name' hmem' _ hq'
      exact hne (List.cons.inj (List.append_cancel_left (Option.some.inj heq))).1
    · exact List.nodup_nil
  | .deep :: rest => cases hlevel .deep List.mem_cons_self

/-- So does one that climbs first. -/
lemma nodup_search {k : Nat} {cs : List Component} (hlevel : ∀ c ∈ cs, c.isLevel = true)
    (hcs : ∀ c ∈ cs, c.Descends) {path : String} {place : List String}
    (hpath : t.locate? path = some place) :
    ((search t (List.replicate k (.literal "..") ++ cs) path).map t.locate?).Nodup := by
  induction k generalizing path place with
  | zero => exact nodup_search_of_descends htidy cs hlevel hcs hpath
  | succ k ih =>
    rw [List.replicate_succ, List.cons_append]
    refine nodup_search_literal hpath ⟨by decide, by decide⟩ fun next hnext => ?_
    exact ih ((locate?_entryPath hpath (by decide) (by decide)).trans hnext)

/-- **No path that a pattern of one level stands for lies at or below another one.**

**Proof sketch.** All places are found once (`nodup_search`), and of two that the components lead
to, both as deep, none lies at or below the other unless they are the same
(`eq_of_isPrefix_of_leadsTo`). -/
theorem pairwise_apart_expand? (hhere : t.isDir "." = true) {path : String} {p : Pattern}
    {paths : List String} (hp : read? (normalize path) = some p) (hlevel : p.isLevel = true)
    (h : expand? t (normalize path) = some paths) : paths.Pairwise (Apart t) := by
  obtain ⟨p', hp', rfl⟩ := Option.map_eq_some_iff.1 h
  obtain rfl : p = p' := Option.some.inj (hp.symm.trans hp')
  have hsymm : ∀ {a b : String}, Apart t a b → Apart t b a :=
    fun hab q q' hq hq' => (hab q' q hq' hq).symm
  refine ((Path.perm_sort _).pairwise_iff hsymm).2 ?_
  rcases cases_of_read?_normalize hp with ⟨-, rfl⟩ | ⟨-, rfl⟩ | ⟨-, k, cs, hcomponents, hcs⟩
  · rw [if_neg Bool.false_ne_true, search_empty]
    exact List.Pairwise.nil
  · rw [if_pos rfl, search_root hhere]
    exact List.pairwise_singleton _ _
  · have hproper := isProper_of_shape (k := k) hcs
    have hstart := locate?_start hhere p
    have hlevel' : ∀ c ∈ cs, c.isLevel = true := by
      intro c hc
      refine List.all_eq_true.1 hlevel c ?_
      rw [hcomponents]
      exact List.mem_append_right _ hc
    have hne := List.pairwise_map.1 (nodup_search htidy (k := k) hlevel' hcs hstart)
    rw [hcomponents]
    refine hne.imp_of_mem fun {a b} ha hb hab q q' hq hq' => ?_
    obtain ⟨last, hlast, hleads⟩ := leadsTo_of_mem_search htidy _ hproper hstart ha
    obtain ⟨last', hlast', hleads'⟩ := leadsTo_of_mem_search htidy _ hproper hstart hb
    obtain rfl : q = last := Option.some.inj (hq.symm.trans hlast)
    obtain rfl : q' = last' := Option.some.inj (hq'.symm.trans hlast')
    constructor
    · intro hunder
      exact hab (by rw [hq, hq', eq_of_isPrefix_of_leadsTo hlevel' hcs hleads hleads' hunder])
    · intro hunder
      exact hab (by rw [hq, hq', eq_of_isPrefix_of_leadsTo hlevel' hcs hleads' hleads hunder])

end Level

end ProxyLint.Glob
