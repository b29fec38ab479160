import ProxyLint.Proofs.Path.Normal

set_option relaxedAutoImplicit false
set_option autoImplicit false

/-!
# The fields of a path in normal form

Normalisation takes a step up back wherever a name stands in front of it. What is left are steps up
first and then names, behind the root if the path is absolute.

## Main definitions

* `ProxyLint.Path.IsNormal` — a path that is written without detours.

## Main results

* `ProxyLint.Path.Settled.reverse_shape` — the parts of a normal form.
* `ProxyLint.Path.fields_normalize` — its fields.
* `ProxyLint.Path.isNormal_normalize` — it has no detours.
-/

namespace ProxyLint.Path

/-- A normal form starts with its steps up, and only names follow.

**Proof sketch.** Induction on the stack: the root stands at its bottom only, and a step up stands
on no name. -/
lemma Settled.reverse_shape {st : List Part} (h : Settled st) :
    ∃ (front : List Part) (k : Nat) (names : List String),
      (front = [] ∨ front = [.root]) ∧ (∀ n ∈ names, IsName n) ∧
      st.reverse = front ++ List.replicate k .up ++ names.map .name := by
  induction st with
  | nil => exact ⟨[], 0, [], .inl rfl, by simp, rfl⟩
  | cons p st ih =>
    obtain ⟨front, k, names, hfront, hnames, hst⟩ := ih h.tail
    rw [List.reverse_cons, hst]
    cases p with
    | here => cases h
    | root =>
      obtain rfl : st = [] := h
      exact ⟨[.root], 0, [], .inr rfl, by simp, by simp [← hst]⟩
    | up =>
      -- a step up does not follow a name
      obtain rfl : names = [] := by
        rcases List.eq_nil_or_concat names with hnil | ⟨names, n, rfl⟩
        · exact hnil
        · have hhead : st.head? = some (.name n) := by
            rw [← List.getLast?_reverse, hst]
            simp
          exact absurd hhead (h.1 n)
      refine ⟨front, k + 1, [], hfront, by simp, ?_⟩
      simp [List.replicate_succ']
    | name n =>
      refine ⟨front, k, names ++ [n], hfront, ?_, by simp⟩
      intro m hm
      rcases List.mem_append.1 hm with hm | hm
      · exact hnames m hm
      · rw [List.mem_singleton.1 hm]
        exact h.1

/-- The text of an inner part is not empty. -/
lemma Part.IsInner.text_ne_empty {p : Part} (h : p.IsInner) : p.text ≠ "" := by
  cases p with
  | root => cases h
  | here => cases h
  | up => decide
  | name n => exact h.ne_empty

section Spelling

variable {ps : List Part} (hne : ps ≠ []) (h : ∀ p ∈ ps, p.IsInner)
include hne h

/-- The fields of written parts are the parts. -/
lemma fields_joinWith_text : Text.fields '/' (Text.joinWith "/" (ps.map Part.text)) =
    ps.map Part.text := by
  refine Text.fields_joinWith (by simpa using hne) ?_
  intro s hs
  obtain ⟨p, hp, rfl⟩ := List.mem_map.1 hs
  exact (h p hp).slash_notMem_text

/-- A path that is spelled from inner parts is relative, and their texts are its fields. -/
lemma fields_ofParts_inner : isAbsolute (ofParts ps) = false ∧
    Text.fields '/' (ofParts ps) = ps.map Part.text := by
  have hroot : (ps == [.root]) = false := by
    rw [beq_eq_false_iff_ne]
    rintro rfl
    exact h .root List.mem_cons_self
  have hfields := fields_joinWith_text hne h
  rw [ofParts, hroot, if_neg Bool.false_ne_true]
  refine ⟨?_, hfields⟩
  obtain ⟨p, ps, rfl⟩ := List.exists_cons_of_ne_nil hne
  exact isAbsolute_eq_false_of_fields hfields (h p List.mem_cons_self).text_ne_empty

/-- With the root in front it is absolute, and its first field is empty. -/
lemma fields_ofParts_root : isAbsolute (ofParts (.root :: ps)) = true ∧
    Text.fields '/' (ofParts (.root :: ps)) = "" :: ps.map Part.text := by
  have hroot : (Part.root :: ps == [.root]) = false := by
    rw [beq_eq_false_iff_ne]
    intro heq
    exact hne (List.cons.inj heq).2
  have hmap : ps.map Part.text ≠ [] := by simpa using hne
  have hspell : ofParts (.root :: ps) = "" ++ "/" ++ Text.joinWith "/" (ps.map Part.text) := by
    rw [ofParts, hroot, if_neg Bool.false_ne_true, List.map_cons, Part.text,
      Text.joinWith_cons "/" "" hmap]
  have hfields : Text.fields '/' (ofParts (.root :: ps)) = "" :: ps.map Part.text := by
    rw [hspell, Text.fields_append_slash, fields_joinWith_text hne h]
    rfl
  exact ⟨isAbsolute_of_fields hfields hmap, hfields⟩

end Spelling

/-- **The fields of a path in normal form** that is neither empty nor the root: steps up, and then
names. An absolute path has an empty field in front of them.

**Proof sketch.** A path in normal form is written from a settled stack, whose shape is known
(`Settled.reverse_shape`), and what is written has the texts of the parts as its fields
(`fields_ofParts_inner`, `fields_ofParts_root`). -/
theorem fields_normalize (path : String) :
    normalize path = "" ∨ normalize path = "/" ∨ ∃ (k : Nat) (names : List String),
      (∀ n ∈ names, IsName n) ∧ List.replicate k ".." ++ names ≠ [] ∧
      Text.fields '/' (normalize path) =
        (if isAbsolute (normalize path) then [""] else []) ++ (List.replicate k ".." ++ names) := by
  obtain ⟨front, k, names, hfront, hnames, hst⟩ := (settled_stack path).reverse_shape
  rw [List.append_assoc] at hst
  generalize hps : List.replicate k Part.up ++ names.map Part.name = ps at hst
  have htexts : ps.map Part.text = List.replicate k ".." ++ names := by
    simp [← hps, Part.text, Function.comp_def]
  have hinner : ∀ p ∈ ps, p.IsInner := by
    intro p hp
    rw [← hps] at hp
    rcases List.mem_append.1 hp with hp | hp
    · rw [List.eq_of_mem_replicate hp]
      trivial
    · obtain ⟨n, hn, rfl⟩ := List.mem_map.1 hp
      exact hnames n hn
  rw [normalize_eq, hst]
  by_cases hne : ps = []
  · subst hne
    rcases hfront with rfl | rfl
    · exact .inl rfl
    · exact .inr (.inl rfl)
  · refine .inr (.inr ⟨k, names, hnames, ?_, ?_⟩)
    · rw [← htexts]
      simpa using hne
    · rcases hfront with rfl | rfl
      · obtain ⟨habs, hfields⟩ := fields_ofParts_inner hne hinner
        rw [List.nil_append, habs, hfields, htexts]
        rfl
      · obtain ⟨habs, hfields⟩ := fields_ofParts_root hne hinner
        rw [List.singleton_append, habs, hfields, htexts]
        rfl

end ProxyLint.Path
