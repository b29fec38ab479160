import ProxyLint.Proofs.Path.Normal

set_option relaxedAutoImplicit false
set_option autoImplicit false

/-!
# Folders and names

The folder around a path has all its parts but the last, however the path is
spelled. A path in normal form below a folder is seen from there by the names that
lead to it, and these names lead back to it.

## Main definitions

* `ProxyLint.Path.LeadTo` — names lead from a folder to a path.

## Main results

* `ProxyLint.Path.parts_parent` — the parts of the folder around a path.
* `ProxyLint.Path.relativeTo?_of_leadTo` — a path as seen from a folder.
* `ProxyLint.Path.parts_join_names` — the parts of a path that names lead to.
-/

namespace ProxyLint.Path

/-! ### Cutting pieces -/

/-- What is cut off at the front denotes nothing. -/
lemma filterMap_dropIdle (ps : List Piece) :
    (ps.dropWhile fun p => p.part?.isNone).filterMap Piece.part? = ps.filterMap Piece.part? := by
  induction ps with
  | nil => rfl
  | cons q qs ih =>
    cases hq : q.part? with
    | none => rw [List.dropWhile_cons_of_pos (by simp [hq]), ih, List.filterMap_cons_none hq]
    | some p => rw [List.dropWhile_cons_of_neg (by simp [hq])]

/-- What is cut off at the end denotes nothing. -/
lemma filterMap_dropIdleEnd (ps : List Piece) :
    (dropIdleEnd ps).filterMap Piece.part? = ps.filterMap Piece.part? := by
  rw [dropIdleEnd, List.filterMap_reverse, filterMap_dropIdle, ← List.filterMap_reverse,
    List.reverse_reverse]

/-- Dropping idle pieces at the end leaves a prefix. -/
lemma dropIdleEnd_isPrefix (ps : List Piece) : dropIdleEnd ps <+: ps := by
  rw [dropIdleEnd, ← List.reverse_suffix, List.reverse_reverse]
  exact List.dropWhile_suffix _

/-- The last piece that is left denotes something. -/
lemma isSome_of_getLast?_dropIdleEnd {ps : List Piece} {p : Piece}
    (h : (dropIdleEnd ps).getLast? = some p) : p.part?.isSome = true := by
  rw [dropIdleEnd, List.getLast?_reverse] at h
  have hhead := List.head?_dropWhile_not (fun p : Piece => p.part?.isNone) ps.reverse
  rw [h] at hhead
  simpa using hhead

/-- Only an empty field denotes the root. -/
lemma eq_empty_of_frontPart? {first : String} (h : frontPart? first false = some .root) :
    first = "" := by
  by_contra hne
  unfold frontPart? Part.ofInner? at h
  rw [if_neg (by simpa using hne)] at h
  split at h
  · cases h
  · split at h
    · cases h
    · split at h <;> cases h

/-- The first pieces of a path, spelled on their own, denote what they denote in it.

**Proof sketch.** The pieces are a front piece and some inner ones. Spelled with slashes between
them they have the same fields again, unless the one piece is the root, which is spelled as a slash.
-/
lemma parts_spell {path : String} {ps : List Piece} (hpre : ps <+: pieces path)
    (hlt : ps.length < (pieces path).length) : parts (spell ps) = ps.filterMap Piece.part? := by
  obtain ⟨first, rest, hfields⟩ := List.exists_cons_of_ne_nil (Text.fields_ne_nil '/' path)
  rw [pieces_of_fields hfields] at hpre hlt
  cases ps with
  | nil => rfl
  | cons p ps =>
    obtain ⟨rfl, hpre'⟩ := List.cons_prefix_cons.1 hpre
    have hrest : rest ≠ [] := by
      rintro rfl
      simp at hlt
    rw [List.isEmpty_eq_false_iff.2 hrest]
    obtain ⟨inner, hinner, rfl⟩ : ∃ inner, inner <+: rest ∧
        ps = inner.map fun f => ⟨f, Part.ofInner? f⟩ := by
      refine ⟨rest.take ps.length, List.take_prefix _ _, ?_⟩
      rw [List.map_take]
      exact List.prefix_iff_eq_take.1 hpre'
    have hparts : (⟨first, frontPart? first false⟩ ::
        inner.map fun f => (⟨f, Part.ofInner? f⟩ : Piece)).filterMap Piece.part? =
          (frontPart? first false).toList ++ inner.filterMap Part.ofInner? := by
      rw [List.filterMap_cons, List.filterMap_map]
      cases frontPart? first false <;> rfl
    rw [hparts]
    by_cases hroot : inner = [] ∧ first = ""
    · -- the root alone is spelled as a slash
      obtain ⟨rfl, rfl⟩ := hroot
      decide
    · have hfront : frontPart? first inner.isEmpty = frontPart? first false := by
        by_cases hnil : inner = []
        · exact frontPart?_of_ne (fun hfirst => hroot ⟨hnil, hfirst⟩) _
        · rw [List.isEmpty_eq_false_iff.2 hnil]
      have hslash : ∀ f ∈ first :: inner, '/' ∉ f.toList := by
        intro f hf
        refine @Text.slash_notMem_of_mem_fields path f ?_
        rw [hfields]
        exact (List.cons_prefix_cons.2 ⟨rfl, hinner⟩).subset hf
      have hspell : spell (⟨first, frontPart? first false⟩ ::
          inner.map fun f => (⟨f, Part.ofInner? f⟩ : Piece)) =
            Text.joinWith "/" (first :: inner) := by
        have hmap : (inner.map fun f => (⟨f, Part.ofInner? f⟩ : Piece)).map Piece.text = inner := by
          rw [List.map_map]
          exact List.map_id inner
        rw [spell, if_neg, List.map_cons, hmap]
        intro heq
        rw [beq_iff_eq, List.map_cons, List.cons.injEq, List.map_eq_nil_iff,
          List.map_eq_nil_iff] at heq
        exact hroot ⟨heq.2, eq_empty_of_frontPart? heq.1⟩
      rw [hspell, parts_of_fields (Text.fields_joinWith (List.cons_ne_nil _ _) hslash), hfront]

/-! ### Folders -/

/-- **The folder around a path has all its parts but the last.**

**Proof sketch.** The folder is spelled from the pieces up to the last one that denotes something,
and this one is the name; idle pieces denote nothing, so that the rest denotes what it did in the
path (`parts_spell`). -/
theorem parts_parent {path n : String} {ps : List Part} (h : parts path = ps ++ [.name n]) :
    parts ((parent? path).getD "") = ps := by
  have hused : (dropIdleEnd (pieces path)).filterMap Piece.part? = ps ++ [.name n] := by
    rw [filterMap_dropIdleEnd]
    exact h
  cases hlast : (dropIdleEnd (pieces path)).getLast? with
  | none =>
    rw [List.getLast?_eq_none_iff.1 hlast] at hused
    simp at hused
  | some last =>
    obtain ⟨front, hfront⟩ := List.getLast?_eq_some_iff.1 hlast
    obtain ⟨p, hp⟩ := Option.isSome_iff_exists.1 (isSome_of_getLast?_dropIdleEnd hlast)
    rw [hfront, List.filterMap_append, List.filterMap_cons_some hp, List.filterMap_nil] at hused
    obtain ⟨hps, hpn⟩ := List.append_inj' hused rfl
    cases hpn
    have hparent : parent? path = some (spell (dropIdleEnd front)) := by
      simp only [parent?, hfront, List.getLast?_concat, hp, List.dropLast_concat]
      rfl
    have hpre : front ++ [last] <+: pieces path := by
      rw [← hfront]
      exact dropIdleEnd_isPrefix _
    have hlen := hpre.length_le
    rw [List.length_append, List.length_singleton] at hlen
    have hlen' := (dropIdleEnd_isPrefix front).length_le
    have hpre' : dropIdleEnd front <+: pieces path :=
      (dropIdleEnd_isPrefix front).trans ((List.prefix_append _ _).trans hpre)
    rw [hparent, Option.getD_some, parts_spell hpre' (by omega), filterMap_dropIdleEnd, hps]

/-! ### Names -/

/-- Names lead from a folder to a path; both are spelled in normal form. -/
def LeadTo (root : String) (names : List String) (path : String) : Prop :=
  parts path = parts root ++ names.map Part.name

/-- A path in normal form that ends in a name is spelled without idle pieces. -/
lemma pieces_normalize {path n : String} (h : .name n ∈ parts (normalize path)) :
    pieces (normalize path) = (parts (normalize path)).map Piece.ofPart := by
  rw [parts_normalize] at h ⊢
  rw [normalize_eq]
  rcases (settled_stack path).reverse_eq with hinner | ⟨ps, hps, hinner⟩
  · have hroot : ((stack path).reverse == [Part.root]) = false := by
      rw [beq_eq_false_iff_ne]
      intro heq
      exact hinner .root (by rw [heq]; exact List.mem_cons_self)
    simp only [ofParts, hroot, Bool.false_eq_true, ↓reduceIte]
    exact pieces_spell_inner (List.ne_nil_of_mem h) hinner
  · rw [hps] at h ⊢
    have hne : ps ≠ [] := by
      rintro rfl
      simp at h
    have hroot : (Part.root :: ps == [Part.root]) = false := by simpa using hne
    simp only [ofParts, hroot, Bool.false_eq_true, ↓reduceIte]
    exact pieces_spell_root hne hinner

/-- The names in a path in normal form are names. -/
lemma isName_of_mem_parts {path n : String} (h : .name n ∈ parts (normalize path)) : IsName n := by
  rw [parts_normalize] at h
  rcases (settled_stack path).reverse_eq with hinner | ⟨ps, hps, hinner⟩
  · exact hinner _ h
  · rw [hps] at h
    rcases List.mem_cons.1 h with heq | h
    · cases heq
    · exact hinner _ h

/-- Parts are stripped off the front of parts. -/
lemma strip?_map_ofPart (rs ns : List Part) :
    strip? rs ((rs ++ ns).map Piece.ofPart) = some (ns.map Piece.ofPart) := by
  induction rs with
  | nil => rw [List.nil_append, strip?]
  | cons q rs ih =>
    rw [List.cons_append, List.map_cons, Piece.ofPart, strip?, if_pos rfl, ih]

/-- No part is idle. -/
lemma dropIdleEnd_map_ofPart (ps : List Part) :
    dropIdleEnd (ps.map Piece.ofPart) = ps.map Piece.ofPart := by
  rw [dropIdleEnd, ← List.map_reverse]
  cases hps : ps.reverse with
  | nil =>
    rw [List.reverse_eq_nil_iff.1 hps]
    rfl
  | cons p qs =>
    rw [List.map_cons, List.dropWhile_cons_of_neg (by simp [Piece.ofPart]), ← List.map_cons,
      ← List.map_reverse, ← hps, List.reverse_reverse]

/-- Names are spelled with slashes between them. -/
lemma spell_names (names : List String) :
    spell ((names.map Part.name).map Piece.ofPart) = Text.joinWith "/" names := by
  have htexts : ((names.map Part.name).map Piece.ofPart).map Piece.text = names := by
    rw [List.map_map, List.map_map]
    exact List.map_id names
  rw [spell, if_neg, htexts]
  intro heq
  rw [beq_iff_eq] at heq
  cases names with
  | nil => cases heq
  | cons n names => cases heq

/-- **A path is seen from a folder by the names that lead to it.** -/
theorem relativeTo?_of_leadTo {root path : String} {names : List String} (hne : names ≠ [])
    (h : LeadTo root names (normalize path)) :
    relativeTo? root (normalize path) = some (Text.joinWith "/" names) := by
  obtain ⟨n, names', rfl⟩ := List.exists_cons_of_ne_nil hne
  have hpieces : pieces (normalize path) =
      (parts root ++ (n :: names').map Part.name).map Piece.ofPart := by
    rw [← show parts (normalize path) = _ from h]
    refine pieces_normalize (n := n) ?_
    rw [show parts (normalize path) = _ from h]
    exact List.mem_append_right _ List.mem_cons_self
  have hfront : ((((n :: names').map Part.name).map Piece.ofPart).dropWhile
      fun p => p.part?.isNone) = ((n :: names').map Part.name).map Piece.ofPart := rfl
  unfold relativeTo?
  rw [hpieces]
  cases hroot : parts root with
  | nil => rw [List.nil_append, dropIdleEnd_map_ofPart, spell_names]
  | cons q rs =>
    simp only
    rw [strip?_map_ofPart, Option.map_some, hfront, dropIdleEnd_map_ofPart, spell_names]

/-- **Names lead from a folder to where they lead.** -/
theorem parts_join_names {root : String} {names : List String} (hne : names ≠ [])
    (h : ∀ n ∈ names, IsName n) :
    parts (join root (Text.joinWith "/" names)) = parts root ++ names.map Part.name := by
  have hinner : ∀ p ∈ names.map Part.name, p.IsInner := by
    intro p hp
    obtain ⟨n, hn, rfl⟩ := List.mem_map.1 hp
    exact h n hn
  have htexts : (names.map Part.name).map Part.text = names := by
    rw [List.map_map]
    exact List.map_id names
  have hfields : Text.fields '/' (Text.joinWith "/" names) = names :=
    Text.fields_joinWith hne fun n hn => (h n hn).slash_notMem
  have hrel : isAbsolute (Text.joinWith "/" names) = false := by
    obtain ⟨n, names', rfl⟩ := List.exists_cons_of_ne_nil hne
    exact isAbsolute_eq_false_of_fields hfields (h n List.mem_cons_self).ne_empty
  by_cases hroot : root = ""
  · subst hroot
    have hjoin : join "" (Text.joinWith "/" names) = Text.joinWith "/" names := by simp [join]
    have hpieces := pieces_spell_inner (by simpa using hne) hinner
    rw [htexts] at hpieces
    rw [hjoin, parts, hpieces, List.filterMap_map]
    exact List.filterMap_some
  · have hparts : names.filterMap Part.ofInner? = names.map Part.name := by
      rw [← List.filterMap_eq_map]
      refine List.filterMap_congr fun n hn => ?_
      exact Part.IsInner.ofInner?_text (show (Part.name n).IsInner from h n hn)
    rw [parts_join hroot hrel, hfields, hparts]

end ProxyLint.Path
