import ProxyLint.Proofs.FileTree.Below
import ProxyLint.Proofs.Glob.Search

set_option relaxedAutoImplicit false
set_option autoImplicit false

/-!
# What a search finds

A search yields paths. What its components mean is told without them: each takes a step in the tree,
`**` any number of steps into directories, and together they lead wherever these steps end. The
search finds exactly that.

## Main definitions

* `ProxyLint.Glob.LeadsTo` — where a row of components leads from a place.

## Main results

* `ProxyLint.Glob.mem_search_literal_iff`, `ProxyLint.Glob.mem_search_wild_iff` — one step of a
  search.
* `ProxyLint.Glob.leadsTo_of_mem_search`, `ProxyLint.Glob.exists_mem_search_of_leadsTo` — a search
  finds what its components lead to, and all of it.
-/

namespace ProxyLint.Glob

open ProxyLint.Path

/-! ### Where components lead -/

/-- Where a row of components leads from a place. A name takes one step. So does a component with
wildcards, along a name that fits it; it fits `.` and `..` only if it starts with a dot. In front of
another component `**` goes down through any number of directories, and at the end of the row it
leads to every directory below. -/
inductive LeadsTo (t : FileTree) : List Component → List String → List String → Prop where
  | done (place : List String) : LeadsTo t [] place place
  | literal {name : String} {rest : List Component} {place next last : List String} :
    t.step place name = some next → LeadsTo t rest next last →
    LeadsTo t (.literal name :: rest) place last
  | wild {ts : List Token} {name : String} {rest : List Component}
    {place next last : List String} :
    IsName name ∨ name ∈ dotNames ts → accepts ts name.toList = true →
    t.step place name = some next → LeadsTo t rest next last →
    LeadsTo t (.wild ts :: rest) place last
  | directory {place names : List String} {es : List (String × Node)} :
    names ≠ [] → t.root.at? (place ++ names) = some (.dir es) →
    LeadsTo t [.deep] place (place ++ names)
  | deep {c : Component} {rest : List Component} {place names last : List String} {name : String}
    {n : Node} :
    c.fits name = true → t.root.at? (place ++ (names ++ [name])) = some n →
    LeadsTo t rest (place ++ (names ++ [name])) last → LeadsTo t (.deep :: c :: rest) place last

/-- A component that is no name with a slash, and no empty one. -/
def Component.IsProper : Component → Prop
  | .literal name => name ≠ "" ∧ '/' ∉ name.toList
  | .wild _ | .deep => True

/-! ### Entries of a directory -/

section Entries

variable {t : FileTree} {path : String} {place : List String}

/-- The dots that a component is tried on are accepted by it. -/
lemma accepts_of_mem_dotNames {ts : List Token} {name : String} (h : name ∈ dotNames ts) :
    accepts ts name.toList = true := by
  unfold dotNames at h
  split at h
  · exact (List.mem_filter.1 h).2
  · cases h

/-- A path that only consists of a `.` leads to the current directory. -/
lemma eq_here_of_locate? (hpath : t.locate? path = some place) (hparts : parts path = [.here]) :
    place = t.here := by
  rw [t.locate?_eq_placeOf hpath, stack, hparts]
  rfl

/-- An entry is one step further than its directory. -/
lemma locate?_entryPath (hpath : t.locate? path = some place) {word : String} (hne : word ≠ "")
    (hslash : '/' ∉ word.toList) : t.locate? (entryPath path word) = t.step place word := by
  unfold entryPath
  split
  · next hparts =>
    rw [t.locate?_word hne hslash, eq_here_of_locate? hpath (beq_iff_eq.1 hparts)]
  · rw [t.locate?_join (FileTree.ne_empty_of_locate? hpath)
      (isAbsolute_eq_false_of_slash_notMem hslash), hpath, Text.fields_eq_singleton hslash]
    exact bind_pure _

/-- A step to `.` or `..` leads where the tree says. -/
lemma locate?_join_dots (hpath : t.locate? path = some place) {word : String}
    (hword : word = "." ∨ word = "..") : t.locate? (join path word) = t.step place word := by
  have hslash : '/' ∉ word.toList := by rcases hword with rfl | rfl <;> decide
  rw [t.locate?_join (FileTree.ne_empty_of_locate? hpath)
    (isAbsolute_eq_false_of_slash_notMem hslash), hpath, Text.fields_eq_singleton hslash]
  exact bind_pure _

/-- The names in a directory are those along which there is a step. -/
lemma mem_names_iff (htidy : t.root.isTidy = true) (hpath : t.locate? path = some place)
    {name : String} : name ∈ t.names path ↔ IsName name ∧ (t.step place name).isSome = true := by
  obtain ⟨d, hd⟩ := FileTree.exists_at?_of_locate? hpath
  have hfind : t.find? path = some d := by rw [FileTree.find?, hpath, Option.bind_some, hd]
  have hdTidy := Node.isTidy_at? htidy hd
  have hstep : IsName name → ((t.step place name).isSome = true ↔ ∃ m, d.child? name = some m) := by
    intro hname
    have hchild : t.root.at? (place ++ [name]) = d.child? name := by
      rw [Node.at?_concat, hd]
      rfl
    rw [t.step_name place hname, hchild]
    cases d.child? name <;> simp
  rw [FileTree.names, hfind, List.mem_map]
  constructor
  · rintro ⟨⟨name, m⟩, he, rfl⟩
    have hname := (Node.tidy_of_mem_entries hdTidy he).1
    exact ⟨hname, (hstep hname).2 ⟨m, (Node.child?_eq_some_iff hdTidy).2 he⟩⟩
  · rintro ⟨hname, hsome⟩
    obtain ⟨m, hm⟩ := (hstep hname).1 hsome
    exact ⟨_, (Node.child?_eq_some_iff hdTidy).1 hm, rfl⟩

/-- Everything below a directory, as the chains of names that lead there. -/
lemma map_seen_everythingBelow (htidy : t.root.isTidy = true) (hpath : t.locate? path = some place)
    {d : Node} (hd : t.root.at? place = some d) :
    (everythingBelow t path).map t.seen = d.chains.map (FileTree.seenFrom place) := by
  have hfind : t.find? path = some d := by rw [FileTree.find?, hpath, Option.bind_some, hd]
  have hdTidy := Node.isTidy_at? htidy hd
  unfold everythingBelow
  rw [FileTree.below, hfind]
  dsimp only
  split
  · next hparts =>
    obtain rfl := eq_here_of_locate? hpath (beq_iff_eq.1 hparts)
    exact FileTree.map_seen_contents d hdTidy t.leadsInto_empty hd
  · exact FileTree.map_seen_contents d hdTidy (FileTree.leadsInto_of_locate? hpath) hd

/-- What is below a directory, and which paths to it are listed. -/
lemma mem_everythingBelow (htidy : t.root.isTidy = true) (hpath : t.locate? path = some place)
    {p : String} {b : Bool} (hp : (p, b) ∈ everythingBelow t path) :
    ∃ names m, names ≠ [] ∧ t.root.at? (place ++ names) = some m ∧ m.isDir = b ∧
      t.locate? p = some (place ++ names) ∧ fileName? p = names.getLast? := by
  obtain ⟨d, hd⟩ := FileTree.exists_at?_of_locate? hpath
  have hseen := map_seen_everythingBelow htidy hpath hd
  have hmem : t.seen (p, b) ∈ d.chains.map (FileTree.seenFrom place) := by
    rw [← hseen]
    exact List.mem_map.2 ⟨_, hp, rfl⟩
  obtain ⟨⟨names, b'⟩, hc, heq⟩ := List.mem_map.1 hmem
  obtain ⟨hne, m, hm, hb'⟩ := (Node.mem_chains_iff d (Node.isTidy_at? htidy hd)).1 hc
  simp only [FileTree.seen, FileTree.seenFrom, Prod.mk.injEq] at heq
  refine ⟨names, m, hne, ?_, hb'.trans heq.2.2, heq.1.symm, heq.2.1.symm⟩
  rw [Node.at?_append, hd]
  exact hm

/-- Everything below a directory is listed, at any depth. -/
lemma exists_mem_everythingBelow (htidy : t.root.isTidy = true)
    (hpath : t.locate? path = some place) {names : List String} {m : Node} (hne : names ≠ [])
    (hm : t.root.at? (place ++ names) = some m) :
    ∃ p, (p, m.isDir) ∈ everythingBelow t path ∧ t.locate? p = some (place ++ names) ∧
      fileName? p = names.getLast? := by
  obtain ⟨d, hd⟩ := FileTree.exists_at?_of_locate? hpath
  rw [Node.at?_append, hd] at hm
  have hc := (Node.mem_chains_iff d (Node.isTidy_at? htidy hd)).2 ⟨hne, m, hm, rfl⟩
  have hmem : FileTree.seenFrom place (names, m.isDir) ∈ (everythingBelow t path).map t.seen := by
    rw [map_seen_everythingBelow htidy hpath hd]
    exact List.mem_map.2 ⟨_, hc, rfl⟩
  obtain ⟨⟨p, b⟩, hp, heq⟩ := List.mem_map.1 hmem
  simp only [FileTree.seen, FileTree.seenFrom, Prod.mk.injEq] at heq
  obtain ⟨hlocate, hname, rfl⟩ := heq
  exact ⟨p, hp, hlocate, hname⟩

end Entries

/-! ### What a search finds -/

section Steps

variable {t : FileTree} {path : String} {place : List String} (hpath : t.locate? path = some place)
include hpath

/-- A component without wildcards takes one step, if there is one.

**Proof sketch.** The search asks whether the directory is there for `.` and `..`, and whether the
entry is there for other names. In both cases this is whether the step can be taken. -/
lemma mem_search_literal_iff {name p : String} {rest : List Component}
    (hname : (Component.literal name).IsProper) : p ∈ search t (.literal name :: rest) path ↔
      ∃ next, t.step place name = some next ∧ p ∈ search t rest (entryPath path name) := by
  have hentry := locate?_entryPath hpath hname.1 hname.2
  have hfound : (if name == "." || name == ".." then t.isDir path
      else t.contains (entryPath path name)) = (t.step place name).isSome := by
    obtain ⟨d, hd⟩ := FileTree.exists_at?_of_locate? hpath
    split
    · next hdots =>
      rw [FileTree.isDir_of_locate? hpath hd]
      cases d with
      | file text =>
        rw [FileTree.step_eq_none (by simp [hd])]
        rfl
      | dir es =>
        rw [Bool.or_eq_true, beq_iff_eq, beq_iff_eq] at hdots
        rw [FileTree.step_dir hd]
        rcases hdots with rfl | rfl <;> rfl
    · rw [FileTree.contains, FileTree.find?, hentry]
      cases hstep : t.step place name with
      | none => rfl
      | some next =>
        obtain ⟨n, hn⟩ := FileTree.exists_at?_of_step hstep
        rw [Option.bind_some, hn]
        rfl
  simp only [search]
  rw [hfound]
  cases t.step place name with
  | none => simp
  | some next => simp

/-- A component with wildcards takes one step along each name that fits it. -/
lemma mem_search_wild_iff (htidy : t.root.isTidy = true) {ts : List Token} {p : String}
    {rest : List Component} : p ∈ search t (.wild ts :: rest) path ↔
      (∃ name ∈ dotNames ts, (t.step place name).isSome = true ∧
        p ∈ search t rest (join path name)) ∨
      ∃ name, IsName name ∧ accepts ts name.toList = true ∧ (t.step place name).isSome = true ∧
        p ∈ search t rest (entryPath path name) := by
  obtain ⟨d, hd⟩ := FileTree.exists_at?_of_locate? hpath
  cases d with
  | file text =>
    have hnone : ∀ name, (t.step place name).isSome = false := by
      intro name
      rw [FileTree.step_eq_none (by simp [hd])]
      rfl
    simp only [search]
    rw [FileTree.isDir_of_locate? hpath hd, if_neg (by simp [Node.isDir])]
    simp [hnone]
  | dir es =>
    have hdots : ∀ name ∈ dotNames ts, (t.step place name).isSome = true := by
      intro name hname
      rw [FileTree.step_dir hd]
      rcases mem_dotNames hname with rfl | rfl <;> rfl
    simp only [search]
    rw [FileTree.isDir_of_locate? hpath hd, if_pos (show (Node.dir es).isDir = true from rfl),
      List.mem_append, List.mem_flatMap, List.mem_flatMap]
    refine or_congr (exists_congr fun name => ?_) (exists_congr fun name => ?_)
    · exact and_congr_right fun hname => (and_iff_right (hdots name hname)).symm
    · rw [List.mem_filter, mem_names_iff htidy hpath]
      tauto

end Steps

section Search

variable {t : FileTree} (htidy : t.root.isTidy = true)
include htidy

/-- **A search finds only what its components lead to.**

**Proof sketch.** By recursion on the components, as the search itself goes: what each component
adds to a path is a step of the tree (`mem_search_literal_iff`, `mem_search_wild_iff`), and what
`**` lists lies below the place (`mem_everythingBelow`). -/
theorem leadsTo_of_mem_search (cs : List Component) (hcs : ∀ c ∈ cs, c.IsProper) {path p : String}
    {place : List String} (hpath : t.locate? path = some place) (hp : p ∈ search t cs path) :
    ∃ last, t.locate? p = some last ∧ LeadsTo t cs place last := by
  match cs with
  | [] =>
    rw [search, List.mem_singleton] at hp
    subst hp
    exact ⟨place, hpath, .done place⟩
  | .literal name :: rest =>
    have hname := hcs (.literal name) List.mem_cons_self
    have hrest : ∀ c ∈ rest, c.IsProper := fun c hc => hcs c (List.mem_cons_of_mem _ hc)
    obtain ⟨next, hnext, hp⟩ := (mem_search_literal_iff hpath hname).1 hp
    have hentry := (locate?_entryPath hpath hname.1 hname.2).trans hnext
    obtain ⟨last, hlast, hleads⟩ := leadsTo_of_mem_search rest hrest hentry hp
    exact ⟨last, hlast, .literal hnext hleads⟩
  | .wild ts :: rest =>
    have hrest : ∀ c ∈ rest, c.IsProper := fun c hc => hcs c (List.mem_cons_of_mem _ hc)
    rcases (mem_search_wild_iff hpath htidy).1 hp with
      ⟨name, hdots, hsome, hp⟩ | ⟨name, hname, haccepts, hsome, hp⟩
    · obtain ⟨next, hnext⟩ := Option.isSome_iff_exists.1 hsome
      have hentry := (locate?_join_dots hpath (mem_dotNames hdots)).trans hnext
      obtain ⟨last, hlast, hleads⟩ := leadsTo_of_mem_search rest hrest hentry hp
      exact ⟨last, hlast, .wild (.inr hdots) (accepts_of_mem_dotNames hdots) hnext hleads⟩
    · obtain ⟨next, hnext⟩ := Option.isSome_iff_exists.1 hsome
      have hentry := (locate?_entryPath hpath hname.ne_empty hname.slash_notMem).trans hnext
      obtain ⟨last, hlast, hleads⟩ := leadsTo_of_mem_search rest hrest hentry hp
      exact ⟨last, hlast, .wild (.inl hname) haccepts hnext hleads⟩
  | [.deep] =>
    simp only [search] at hp
    obtain ⟨⟨p', b⟩, hmem, heq⟩ := List.mem_filterMap.1 hp
    cases b with
    | false => cases heq
    | true =>
      cases heq
      obtain ⟨names, m, hne, hm, hdir, hlocate, -⟩ := mem_everythingBelow htidy hpath hmem
      cases m with
      | file text => cases hdir
      | dir es => exact ⟨_, hlocate, .directory hne hm⟩
  | .deep :: c :: rest =>
    have hrest : ∀ c ∈ rest, c.IsProper :=
      fun c' hc' => hcs c' (List.mem_cons_of_mem _ (List.mem_cons_of_mem _ hc'))
    simp only [search] at hp
    obtain ⟨⟨p', b⟩, hmem, hp⟩ := List.mem_flatMap.1 hp
    obtain ⟨names, m, hne, hm, -, hlocate, hname⟩ := mem_everythingBelow htidy hpath hmem
    dsimp only at hp
    split at hp
    · next hfits =>
      obtain ⟨names, name, rfl⟩ := (List.eq_nil_or_concat names).resolve_left hne
      rw [List.concat_eq_append] at hm hlocate hname
      rw [hname, List.getLast?_concat] at hfits
      obtain ⟨last, hlast, hleads⟩ := leadsTo_of_mem_search rest hrest hlocate hp
      exact ⟨last, hlast, .deep (by simpa using hfits) hm hleads⟩
    · cases hp

/-- **And it finds all of it.**

**Proof sketch.** Induction on how the components lead there. Each step is one that the search
takes, and what lies below a place is listed for `**` (`exists_mem_everythingBelow`). -/
theorem exists_mem_search_of_leadsTo {cs : List Component} (hcs : ∀ c ∈ cs, c.IsProper)
    {path : String} {place last : List String} (hpath : t.locate? path = some place)
    (h : LeadsTo t cs place last) : ∃ p ∈ search t cs path, t.locate? p = some last := by
  induction h generalizing path with
  | done place => exact ⟨path, by rw [search]; exact List.mem_singleton_self path, hpath⟩
  | @literal name rest place next last hnext _ ih =>
    have hname := hcs (.literal name) List.mem_cons_self
    have hrest : ∀ c ∈ rest, c.IsProper := fun c hc => hcs c (List.mem_cons_of_mem _ hc)
    have hentry := (locate?_entryPath hpath hname.1 hname.2).trans hnext
    obtain ⟨p, hp, hlast⟩ := ih hrest hentry
    exact ⟨p, (mem_search_literal_iff hpath hname).2 ⟨next, hnext, hp⟩, hlast⟩
  | @wild ts name rest place next last hname haccepts hnext _ ih =>
    have hrest : ∀ c ∈ rest, c.IsProper := fun c hc => hcs c (List.mem_cons_of_mem _ hc)
    have hsome := Option.isSome_iff_exists.2 ⟨next, hnext⟩
    rcases hname with hname | hdots
    · have hentry := (locate?_entryPath hpath hname.ne_empty hname.slash_notMem).trans hnext
      obtain ⟨p, hp, hlast⟩ := ih hrest hentry
      have hmem := (mem_search_wild_iff hpath htidy).2
        (.inr ⟨name, hname, haccepts, hsome, hp⟩)
      exact ⟨p, hmem, hlast⟩
    · have hentry := (locate?_join_dots hpath (mem_dotNames hdots)).trans hnext
      obtain ⟨p, hp, hlast⟩ := ih hrest hentry
      exact ⟨p, (mem_search_wild_iff hpath htidy).2 (.inl ⟨name, hdots, hsome, hp⟩), hlast⟩
  | @directory place names es hne hdir =>
    obtain ⟨p, hp, hlast, -⟩ := exists_mem_everythingBelow htidy hpath hne hdir
    refine ⟨p, ?_, hlast⟩
    simp only [search]
    exact List.mem_filterMap.2 ⟨_, hp, rfl⟩
  | @deep c rest place names last name n hfits hn _ ih =>
    have hrest : ∀ c ∈ rest, c.IsProper :=
      fun c' hc' => hcs c' (List.mem_cons_of_mem _ (List.mem_cons_of_mem _ hc'))
    obtain ⟨p', hp', hlocate, hname⟩ := exists_mem_everythingBelow htidy hpath (by simp) hn
    obtain ⟨p, hp, hlast⟩ := ih hrest hlocate
    refine ⟨p, ?_, hlast⟩
    simp only [search]
    refine List.mem_flatMap.2 ⟨_, hp', ?_⟩
    dsimp only
    rw [hname, List.getLast?_concat, Option.map_some, hfits]
    exact hp

end Search

end ProxyLint.Glob
