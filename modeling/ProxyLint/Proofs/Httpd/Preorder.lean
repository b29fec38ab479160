import Mathlib.Data.List.Basic
import Mathlib.Data.List.Nodup
import ProxyLint.Proofs.Httpd.Body

set_option relaxedAutoImplicit false
set_option autoImplicit false

/-!
# Sections in preorder

The sections of a configuration form a tree whose preorder is the order of their numbers. This
holds for all lines, well-formed or not, since they are read into the configuration of a body,
and the sections of a body are numbered in preorder.

## Main definitions

* `ProxyLint.HttpdConfig.Holds` — a configuration holds the sections of a body at their numbers.
* `ProxyLint.HttpdConfig.IsPreorder` — the sections of a configuration are a tree in preorder.

## Main results

* `ProxyLint.HttpdConfig.isPreorder_ofBody` — the configuration of a body is in preorder.
* `ProxyLint.HttpdConfig.isPreorder_ofLines` — so is the configuration of lines, and its sections
  stand in the order of their openers.
-/

namespace ProxyLint

open Httpd

namespace HttpdConfig

/-! ### Sections of a body -/

/-- A configuration holds the sections of a body that stands in section `parent`, from number `n`
on. -/
def Holds (c : HttpdConfig) : Nat → Nat → Body → Prop
  | _, _, .nil => True
  | parent, n, .directive _ rest => c.Holds parent n rest
  | parent, n, .nested o inner rest =>
    c.get? n = some (o.entry parent n inner) ∧ c.Holds n (n + 1) inner ∧
      c.Holds parent (n + 1 + inner.size) rest

variable {c : HttpdConfig} {parent n i : Nat} {body : Body}

/-- A configuration holds a body whose sections stand in a row in it. -/
lemma holds_of_eq_append (before after : List Section) (hn : before.length = n)
    (h : c.sections.toList = before ++ (body.sections parent n ++ after)) :
    c.Holds parent n body := by
  induction body generalizing parent n before after with
  | nil => trivial
  | directive d rest ih => exact ih before after hn h
  | nested o inner rest ihinner ih =>
    rw [Body.sections, List.cons_append, List.append_assoc] at h
    refine ⟨?_, ihinner (before ++ [o.entry parent n inner])
      (rest.sections parent (n + 1 + inner.size) ++ after) ?_ ?_,
      ih (before ++ o.entry parent n inner :: inner.sections n (n + 1)) after ?_ ?_⟩
    · rw [get?, ← Array.getElem?_toList, h, ← hn, List.getElem?_append_right (Nat.le_refl _)]
      simp
    · simp [hn]
    · simpa using h
    · simp [hn]
      omega
    · simpa using h

/-- The configuration of a body holds it. -/
lemma holds_ofBody (source : Source) (body : Body) : (ofBody source body).Holds 0 1 body :=
  holds_of_eq_append [_] [] rfl (congrArg (List.cons _) (List.append_nil _).symm)

/-- The children of a section are those of its body. -/
lemma children_of_get? {o : Opener} {inner : Body} (h : c.get? i = some (o.entry parent i inner)) :
    c.children i = inner.children (i + 1) := by
  simp [children, h, Opener.entry]

/-- The parent of a section is the one it was opened in. -/
lemma parent?_of_get? {o : Opener} {inner : Body}
    (h : c.get? i = some (o.entry parent i inner)) : c.parent? i = some parent := by
  simp [parent?, h, Opener.entry]

/-- Only sections have a parent. -/
lemma lt_size_of_parent? {p : Nat} (h : c.parent? i = some p) : i < c.size := by
  obtain ⟨s, hs, -⟩ := Option.bind_eq_some_iff.1 h
  exact (Array.getElem?_eq_some_iff.1 hs).1

/-- Children are sections. -/
lemma lt_size_of_mem_children {j : Nat} (h : i ∈ c.children j) : j < c.size := by
  unfold children at h
  split at h
  · next hs => exact (Array.getElem?_eq_some_iff.1 hs).1
  · cases h

/-- The children of a body have numbers of the body. -/
lemma mem_range_of_mem_children (h : i ∈ body.children n) : n ≤ i ∧ i < n + body.size := by
  induction body generalizing n with
  | nil => cases h
  | directive d rest ih => exact ih h
  | nested o inner rest ihinner ih =>
    rw [Body.size]
    rcases List.mem_cons.1 h with rfl | h
    · omega
    · have hrange := ih h
      omega

/-- The sections directly in a body come in the order of their numbers. -/
lemma pairwise_children (body : Body) (n : Nat) : (body.children n).Pairwise (· < ·) := by
  induction body generalizing n with
  | nil => exact .nil
  | directive d rest ih => exact ih n
  | nested o inner rest ihinner ih =>
    refine List.pairwise_cons.2 ⟨fun i hi => ?_, ih _⟩
    have hrange := mem_range_of_mem_children hi
    omega

namespace Holds

/-- The parent of a section directly in a body is the section with the body. -/
lemma parent?_of_mem_children (h : c.Holds parent n body) (hi : i ∈ body.children n) :
    c.parent? i = some parent := by
  induction body generalizing n with
  | nil => cases hi
  | directive d rest ih => exact ih h hi
  | nested o inner rest ihinner ih =>
    obtain ⟨hget, -, hrest⟩ := h
    rcases List.mem_cons.1 hi with rfl | hi
    · exact parent?_of_get? hget
    · exact ih hrest hi

/-- Every section of a body has a body of its own, whose sections follow it, and stands directly
in the body or in a section of it. -/
lemma exists_entry (h : c.Holds parent n body) (hn : n ≤ i) (hi : i < n + body.size) :
    ∃ (o : Opener) (p : Nat) (inner : Body),
      c.get? i = some (o.entry p i inner) ∧ c.Holds i (i + 1) inner ∧
      i + 1 + inner.size ≤ n + body.size ∧
      (p = parent ∧ i ∈ body.children n ∨ n ≤ p ∧ p < i ∧ i ∈ c.children p) := by
  induction body generalizing parent n with
  | nil =>
    rw [Body.size] at hi
    omega
  | directive d rest ih => exact ih h hn hi
  | nested o inner rest ihinner ih =>
    obtain ⟨hget, hinner, hrest⟩ := h
    rw [Body.size] at hi ⊢
    rcases Nat.lt_or_eq_of_le hn with hlt | rfl
    · by_cases hin : i < n + 1 + inner.size
      · -- what stands directly in the inner body has section `n` as its parent
        obtain ⟨o', p, inner', hget', hholds, hsize, hplace⟩ := ihinner hinner hlt hin
        refine ⟨o', p, inner', hget', hholds, by omega, .inr ?_⟩
        rcases hplace with ⟨rfl, hmem⟩ | ⟨hp, hpi, hmem⟩
        · exact ⟨Nat.le_refl _, hlt, children_of_get? hget ▸ hmem⟩
        · exact ⟨by omega, hpi, hmem⟩
      · obtain ⟨o', p, inner', hget', hholds, hsize, hplace⟩ := ih hrest (by omega) (by omega)
        refine ⟨o', p, inner', hget', hholds, by omega, ?_⟩
        rcases hplace with ⟨rfl, hmem⟩ | ⟨hp, hpi, hmem⟩
        · exact .inl ⟨rfl, List.mem_cons_of_mem _ hmem⟩
        · exact .inr ⟨by omega, hpi, hmem⟩
    · exact ⟨o, parent, inner, hget, hinner, by omega, .inl ⟨rfl, List.mem_cons_self⟩⟩

/-- The sections of a body, depth first, come in the order of their numbers.

**Proof sketch.** Induction on the body. The first section comes first, then those of its own
body, whose numbers follow its own, then those of the rest, whose numbers follow these. -/
lemma flatMap_descendants (h : c.Holds parent n body) (hparent : parent < n)
    (hsize : n + body.size ≤ c.size) :
    ((body.children n).flatMap fun j =>
      if parent < j ∧ j < c.size then j :: c.descendants j else []) =
        List.range' n body.size := by
  induction body generalizing parent n with
  | nil => rfl
  | directive d rest ih => exact ih h hparent hsize
  | nested o inner rest ihinner ih =>
    obtain ⟨hget, hinner, hrest⟩ := h
    rw [Body.size] at hsize ⊢
    have hdescendants : c.descendants n = List.range' (n + 1) inner.size := by
      rw [descendants, children_of_get? hget]
      exact ihinner hinner (by omega) (by omega)
    have hothers := ih hrest (by omega) (by omega)
    rw [Body.children, List.flatMap_cons, if_pos (by omega), hdescendants, hothers]
    rw [List.cons_append, List.range'_append_1, Nat.add_assoc 1, Nat.add_comm 1, List.range'_succ]

end Holds

/-! ### Trees in preorder -/

/-- The sections of a configuration are a tree in preorder. -/
structure IsPreorder (c : HttpdConfig) : Prop where
  /-- There is a section 0, and it is the only one without a parent. -/
  parent?_eq_none_iff : 0 < c.size ∧ ∀ i < c.size, c.parent? i = none ↔ i = 0
  /-- The parent of a section has a smaller number. -/
  lt_of_parent? : ∀ i p, c.parent? i = some p → p < i
  /-- A section is once among the children of its parent, and never among those of another. -/
  count_children : ∀ i j, (c.children j).count i = if c.parent? i = some j then 1 else 0
  /-- The sections inside a section follow it without a gap, in the order of their numbers. -/
  descendants_eq : ∀ i < c.size, ∃ k, c.descendants i = List.range' (i + 1) k

section OfBody

variable {source : Source}

/-- The configuration of a body has the root and the sections of the body. -/
lemma size_ofBody (source : Source) (body : Body) : (ofBody source body).size = 1 + body.size := by
  simp [ofBody, size, Nat.add_comm]

/-- Every section but section 0 has a parent with a smaller number, among whose children it is. -/
lemma exists_parent?_ofBody (hi : 0 < i) (hsize : i < (ofBody source body).size) :
    ∃ p < i, (ofBody source body).parent? i = some p ∧ i ∈ (ofBody source body).children p := by
  rw [size_ofBody] at hsize
  obtain ⟨o, p, inner, hget, -, -, hplace⟩ := (holds_ofBody source body).exists_entry hi hsize
  rcases hplace with ⟨rfl, hmem⟩ | ⟨-, hlt, hmem⟩
  · exact ⟨0, hi, parent?_of_get? hget, hmem⟩
  · exact ⟨p, hlt, parent?_of_get? hget, hmem⟩

/-- Every section has a body whose sections follow it. -/
lemma exists_inner_ofBody (hi : i < (ofBody source body).size) :
    ∃ inner : Body, (ofBody source body).children i = inner.children (i + 1) ∧
      (ofBody source body).Holds i (i + 1) inner ∧
      i + 1 + inner.size ≤ (ofBody source body).size := by
  rcases Nat.eq_zero_or_pos i with rfl | hpos
  · exact ⟨body, rfl, holds_ofBody source body, Nat.le_of_eq (size_ofBody source body).symm⟩
  · rw [size_ofBody] at hi ⊢
    obtain ⟨o, p, inner, hget, hholds, hsize, -⟩ :=
      (holds_ofBody source body).exists_entry hpos hi
    exact ⟨inner, children_of_get? hget, hholds, hsize⟩

/-- The descendants of a section are all sections of its body, in a row. -/
lemma descendants_ofBody {inner : Body}
    (hchildren : (ofBody source body).children i = inner.children (i + 1))
    (hholds : (ofBody source body).Holds i (i + 1) inner)
    (hsize : i + 1 + inner.size ≤ (ofBody source body).size) :
    (ofBody source body).descendants i = List.range' (i + 1) inner.size := by
  rw [descendants, hchildren]
  exact hholds.flatMap_descendants (Nat.lt_succ_self i) hsize

/-- The children of a section are the sections whose parent it is, each once. -/
lemma count_children_ofBody (source : Source) (body : Body) (i j : Nat) :
    ((ofBody source body).children j).count i =
      if (ofBody source body).parent? i = some j then 1 else 0 := by
  split
  · next hparent =>
    have hsize := lt_size_of_parent? hparent
    have hi : 0 < i := by
      rcases Nat.eq_zero_or_pos i with rfl | hi
      · cases hparent
      · exact hi
    obtain ⟨p, -, hp, hmem⟩ := exists_parent?_ofBody hi hsize
    obtain rfl : p = j := Option.some.inj (hp.symm.trans hparent)
    refine List.count_eq_one_of_mem ?_ hmem
    obtain ⟨inner, hchildren, -⟩ := exists_inner_ofBody (lt_size_of_mem_children hmem)
    rw [hchildren]
    exact (pairwise_children inner _).imp Nat.ne_of_lt
  · next hparent =>
    refine List.count_eq_zero.2 fun hmem => hparent ?_
    obtain ⟨inner, hchildren, hholds, -⟩ := exists_inner_ofBody (lt_size_of_mem_children hmem)
    rw [hchildren] at hmem
    exact hholds.parent?_of_mem_children hmem

/-- **The configuration of a body is in preorder.** -/
theorem isPreorder_ofBody (source : Source) (body : Body) : (ofBody source body).IsPreorder where
  parent?_eq_none_iff := by
    refine ⟨by rw [size_ofBody]; omega, fun i hi => ⟨fun hnone => ?_, fun hzero => hzero ▸ rfl⟩⟩
    by_contra hne
    obtain ⟨p, -, hp, -⟩ := exists_parent?_ofBody (Nat.pos_of_ne_zero hne) hi
    rw [hnone] at hp
    cases hp
  lt_of_parent? := by
    intro i p hparent
    rcases Nat.eq_zero_or_pos i with rfl | hi
    · cases hparent
    · obtain ⟨q, hlt, hq, -⟩ := exists_parent?_ofBody hi (lt_size_of_parent? hparent)
      rw [hq] at hparent
      cases hparent
      exact hlt
  count_children := count_children_ofBody source body
  descendants_eq := by
    intro i hi
    obtain ⟨inner, hchildren, hholds, hsize⟩ := exists_inner_ofBody hi
    exact ⟨inner.size, descendants_ofBody hchildren hholds hsize⟩

end OfBody

/-! ### Walks -/

namespace IsPreorder

/-- The walk up from a section leads from parent to parent and ends at section 0. -/
lemma ancestors_walk (h : c.IsPreorder) (hi : i < c.size) :
    (c.ancestors i).IsChain (fun j p => c.parent? j = some p) ∧
      (c.ancestors i).head? = some i ∧ (c.ancestors i).getLast? = some 0 := by
  induction i using Nat.strongRecOn with
  | ind i ih =>
    rw [ancestors]
    cases hparent : c.parent? i with
    | none =>
      obtain rfl := (h.parent?_eq_none_iff.2 i hi).1 hparent
      exact ⟨.singleton _, rfl, rfl⟩
    | some p =>
      have hlt := h.lt_of_parent? i p hparent
      obtain ⟨hchain, hhead, hlast⟩ := ih p hlt (Nat.lt_trans hlt hi)
      dsimp only
      rw [if_pos hlt]
      obtain ⟨others, hothers⟩ := List.head?_eq_some_iff.1 hhead
      rw [hothers] at hchain hlast ⊢
      exact ⟨.cons_cons hparent hchain, rfl, hlast⟩

/-- The walk down from a section takes each of its children and goes down from there. -/
lemma descendants_walk (h : c.IsPreorder) (i : Nat) :
    c.descendants i = (c.children i).flatMap fun j => j :: c.descendants j := by
  rw [descendants]
  refine List.flatMap_congr fun j hj => if_pos ?_
  have hparent : c.parent? j = some i := by
    by_contra hne
    have hcount := h.count_children j i
    rw [if_neg hne, List.count_eq_zero] at hcount
    exact hcount hj
  exact ⟨h.lt_of_parent? j i hparent, lt_size_of_parent? hparent⟩

end IsPreorder

/-! ### Document order -/

end HttpdConfig

/-- The opener of a section. -/
def Section.opener (s : Section) : Opener :=
  ⟨s.tag, s.arguments, s.source⟩

namespace HttpdConfig

/-- The openers of all sections in the order of their numbers. -/
def openers (c : HttpdConfig) : List Opener :=
  c.sections.toList.map Section.opener

/-- A change that keeps the opening line of a section keeps those of all. -/
lemma map_opener_modify (ss : Array Section) (i : Nat) {f : Section → Section}
    (hf : ∀ s, (f s).opener = s.opener) :
    (ss.modify i f).toList.map Section.opener = ss.toList.map Section.opener := by
  refine List.ext_getElem? fun j => ?_
  simp only [List.getElem?_map, Array.getElem?_toList, Array.getElem?_modify]
  split
  · rw [Option.map_map, (funext hf : Section.opener ∘ f = Section.opener)]
  · rfl

/-- A directive opens nothing. -/
lemma openers_addDirective (c : HttpdConfig) (i : Nat) (d : Directive) :
    (c.addDirective i d).openers = c.openers :=
  map_opener_modify c.sections i fun _ => rfl

/-- A section adds its opening line. -/
lemma openers_addSection (c : HttpdConfig) (i : Nat) (o : Opener) :
    (c.addSection i o.tag o.arguments o.source).openers = c.openers ++ [o] := by
  have hsame := map_opener_modify c.sections i
    (f := fun s => { s with children := s.children.push c.size }) fun _ => rfl
  rw [openers, addSection, Array.toList_push, List.map_append, hsame]
  rfl

/-- Sections are opened by the lines that are openers, one after the other. -/
lemma openers_foldlM (lines : List Line) (r : Builder) :
    (lines.foldlM Builder.step r).value.config.openers =
      r.config.openers ++ lines.filterMap opener? := by
  induction lines generalizing r with
  | nil => simp
  | cons line lines ih =>
    rw [List.foldlM_cons, Noted.value_bind, ih]
    rcases r.step_cases line with ⟨hnone, -, hconfig, -⟩ | ⟨d, hnone, -, hstep⟩ |
      ⟨o, hsome, -, hstep⟩
    · rw [hconfig, List.filterMap_cons_none hnone]
    · rw [hstep, openers_addDirective, List.filterMap_cons_none hnone]
    · rw [hstep, openers_addSection, List.filterMap_cons_some hsome, List.append_assoc]
      rfl

/-- **The sections of lines are a tree in preorder**, whatever the lines are. The walk up from a
section ends at section 0, the walk down from section 0 meets all other sections in the order of
their numbers, and this is the order of the lines that open them.

**Proof sketch.** The lines are read into the configuration of a body (`exists_body_of_lines`),
which is in preorder (`isPreorder_ofBody`); both walks then need no more than that. -/
theorem isPreorder_ofLines (lines : List Line) :
    let c := (ofLines lines).value
    c.IsPreorder ∧
      (∀ i < c.size, (c.ancestors i).IsChain (fun j p => c.parent? j = some p) ∧
        (c.ancestors i).head? = some i ∧ (c.ancestors i).getLast? = some 0) ∧
      (∀ i, c.descendants i = (c.children i).flatMap fun j => j :: c.descendants j) ∧
      c.descendants 0 = List.range' 1 (c.size - 1) ∧
      c.openers.tail = lines.filterMap opener? := by
  intro c
  have hopeners : c.openers.tail = lines.filterMap opener? :=
    congrArg List.tail (openers_foldlM lines { config := .ofRoot (rootSource lines) })
  obtain ⟨body, hbody⟩ : ∃ body, c = ofBody (rootSource lines) body := exists_body_of_lines lines
  have hpreorder : c.IsPreorder := hbody ▸ isPreorder_ofBody _ body
  refine ⟨hpreorder, fun i hi => hpreorder.ancestors_walk hi, hpreorder.descendants_walk, ?_,
    hopeners⟩
  have hholds := holds_ofBody (rootSource lines) body
  have hsize := size_ofBody (rootSource lines) body
  rw [hbody, descendants_ofBody rfl hholds (Nat.le_of_eq hsize.symm), hsize,
    Nat.add_sub_cancel_left]

end HttpdConfig

end ProxyLint
