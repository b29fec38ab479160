import ProxyLint.Proofs.FileTree.Walk
import ProxyLint.Proofs.Path.Folder

set_option relaxedAutoImplicit false
set_option autoImplicit false

/-!
# Paths as seen from a folder

A path below a folder, as seen from there, has the parts of the path that are left when
those of the folder are taken off the front, however the path is spelled; joined to the
folder again, it leads to where the path leads. A path to a file ends in a name, and the
folder around it is what is left without that name.

## Main results

* `ProxyLint.Path.parts_of_relativeTo?` — the parts of a path as seen from a folder.
* `ProxyLint.Path.stack_join_relativeTo?` — joined to the folder, it is the path again.
* `ProxyLint.Path.stack_parent` — the folder around a path, in normal form.
* `ProxyLint.FileTree.exists_fileName?_of_isFile` — a path to a file ends in a name.
-/

namespace ProxyLint.Path

/-! ### Pieces on their own -/

/-- A path is spelled from its pieces. -/
lemma spell_pieces (path : String) : spell (pieces path) = path := by
  obtain ⟨first, rest, hfields⟩ := List.exists_cons_of_ne_nil (Text.fields_ne_nil '/' path)
  rw [spell, if_neg, map_text_pieces, Text.joinWith_fields]
  -- an empty first field denotes the root only if another one follows
  intro heq
  rw [beq_iff_eq, pieces_of_fields hfields, List.map_cons, List.cons.injEq, List.map_eq_nil_iff,
    List.map_eq_nil_iff] at heq
  obtain ⟨hroot, rfl⟩ := heq
  unfold frontPart? Part.ofInner? at hroot
  split at hroot
  · cases hroot
  · split at hroot
    · cases hroot
    · split at hroot
      · cases hroot
      · split at hroot <;> cases hroot

/-- The first pieces of a path denote on their own what they denote in it, also if they
are all of them. -/
lemma parts_spell_of_isPrefix {path : String} {ps : List Piece} (h : ps <+: pieces path) :
    parts (spell ps) = ps.filterMap Piece.part? := by
  by_cases hlen : ps.length < (pieces path).length
  · exact parts_spell h hlen
  · rw [h.eq_of_length_le (Nat.le_of_not_lt hlen), spell_pieces]
    rfl

/-- A piece that is not at the front of its path. -/
def Piece.IsInner (p : Piece) : Prop :=
  '/' ∉ p.text.toList ∧ p.part? = Part.ofInner? p.text

/-- The pieces after the first one are inner pieces. -/
lemma isInner_of_mem_tail_pieces {path : String} {p : Piece} (h : p ∈ (pieces path).tail) :
    p.IsInner := by
  obtain ⟨first, rest, hfields⟩ := List.exists_cons_of_ne_nil (Text.fields_ne_nil '/' path)
  rw [pieces_of_fields hfields, List.tail_cons] at h
  obtain ⟨f, hf, rfl⟩ := List.mem_map.1 h
  refine ⟨@Text.slash_notMem_of_mem_fields path f ?_, rfl⟩
  rw [hfields]
  exact List.mem_cons_of_mem first hf

/-- Inner pieces, spelled from the first one on that denotes something, denote on their own
what they denote in a path, and are no path from the root. -/
lemma parts_spell_of_isInner {ps : List Piece} (h : ∀ p ∈ ps, p.IsInner)
    (hfirst : ∀ p, ps.head? = some p → p.part?.isSome = true) :
    parts (spell ps) = ps.filterMap Piece.part? ∧ isAbsolute (spell ps) = false := by
  cases ps with
  | nil => exact ⟨rfl, by decide⟩
  | cons p ps =>
    have hp := h p List.mem_cons_self
    have hsome : (Part.ofInner? p.text).isSome = true := hp.2 ▸ hfirst p rfl
    have hempty : p.text ≠ "" := by
      intro heq
      rw [heq] at hsome
      cases hsome
    have hdot : p.text ≠ "." := by
      intro heq
      rw [heq] at hsome
      cases hsome
    have hspell : spell (p :: ps) = Text.joinWith "/" ((p :: ps).map Piece.text) := by
      rw [spell, if_neg]
      intro heq
      rw [beq_iff_eq, List.map_cons, List.cons.injEq, hp.2] at heq
      have hroot := heq.1
      unfold Part.ofInner? at hroot
      split at hroot
      · cases hroot
      · split at hroot <;> cases hroot
    have hfields : Text.fields '/' (spell (p :: ps)) = p.text :: ps.map Piece.text := by
      rw [hspell]
      refine Text.fields_joinWith (by simp) fun s hs => ?_
      obtain ⟨q, hq, rfl⟩ := List.mem_map.1 hs
      exact (h q hq).1
    refine ⟨?_, isAbsolute_eq_false_of_fields hfields hempty⟩
    have hrest : (ps.map Piece.text).filterMap Part.ofInner? = ps.filterMap Piece.part? := by
      rw [List.filterMap_map]
      refine List.filterMap_congr fun q hq => ?_
      exact (h q (List.mem_cons_of_mem p hq)).2.symm
    rw [parts_of_fields hfields, frontPart?_eq_ofInner? hempty hdot, hrest, ← hp.2,
      List.filterMap_cons]
    cases p.part? <;> rfl

/-! ### Seen from a folder -/

/-- What is taken off the front are the given parts; pieces are taken off with them. -/
lemma strip?_eq_some {rs : List Part} {ps qs : List Piece} (h : strip? rs ps = some qs) :
    ps.filterMap Piece.part? = rs ++ qs.filterMap Piece.part? ∧ qs <:+ ps ∧
      (rs ≠ [] → qs <:+ ps.tail) := by
  induction ps generalizing rs with
  | nil =>
    cases rs with
    | nil =>
      rw [strip?] at h
      cases h
      exact ⟨rfl, List.suffix_refl _, fun hne => absurd rfl hne⟩
    | cons r rs => cases h
  | cons p ps ih =>
    cases rs with
    | nil =>
      rw [strip?] at h
      cases h
      exact ⟨rfl, List.suffix_refl _, fun hne => absurd rfl hne⟩
    | cons r rs =>
      obtain ⟨text, part?⟩ := p
      cases part? with
      | none =>
        obtain ⟨hparts, hsuffix, -⟩ := ih h
        exact ⟨hparts, hsuffix.trans (List.suffix_cons _ _), fun _ => hsuffix⟩
      | some q =>
        rw [strip?] at h
        split at h
        · next hrq =>
          obtain ⟨hparts, hsuffix, -⟩ := ih h
          refine ⟨?_, hsuffix.trans (List.suffix_cons _ _), fun _ => hsuffix⟩
          rw [List.filterMap_cons, hparts, hrq]
          rfl
        · cases h

/-- Parts that a path starts with can be taken off. -/
lemma exists_strip?_of_isPrefix {rs : List Part} {ps : List Piece}
    (h : rs <+: ps.filterMap Piece.part?) : ∃ qs, strip? rs ps = some qs := by
  induction ps generalizing rs with
  | nil =>
    rw [List.filterMap_nil, List.prefix_nil] at h
    subst h
    exact ⟨[], by rw [strip?]⟩
  | cons p ps ih =>
    cases rs with
    | nil => exact ⟨p :: ps, by rw [strip?]⟩
    | cons r rs =>
      obtain ⟨text, part?⟩ := p
      cases part? with
      | none => exact ih h
      | some q =>
        rw [List.filterMap_cons] at h
        obtain ⟨hrq, hrest⟩ := List.cons_prefix_cons.1 h
        obtain ⟨qs, hqs⟩ := ih hrest
        exact ⟨qs, by rw [strip?, if_pos hrq, hqs]⟩

/-- A path is seen from a folder whose parts it starts with. -/
lemma exists_relativeTo?_of_isPrefix {root path : String} (h : parts root <+: parts path) :
    ∃ rel, relativeTo? root path = some rel := by
  unfold relativeTo?
  split
  · exact ⟨_, rfl⟩
  · obtain ⟨qs, hqs⟩ := exists_strip?_of_isPrefix h
    exact ⟨_, by rw [hqs]; rfl⟩

/-- **A path as seen from a folder has the parts that are left.** It starts at the root
only if the folder has no parts.

**Proof sketch.** What is left is spelled from inner pieces, the first of which denotes something,
so that it denotes on its own what it denoted in the path (`parts_spell_of_isInner`). Idle pieces
that are dropped at both ends denote nothing. -/
theorem parts_of_relativeTo? {root path rel : String} (h : relativeTo? root path = some rel) :
    parts path = parts root ++ parts rel ∧ (parts root = [] ∨ isAbsolute rel = false) := by
  unfold relativeTo? at h
  split at h
  · next hroot =>
    cases h
    refine ⟨?_, .inl hroot⟩
    rw [parts_spell_of_isPrefix (dropIdleEnd_isPrefix _), filterMap_dropIdleEnd, hroot]
    rfl
  · next hne =>
    obtain ⟨qs, hqs, rfl⟩ := Option.map_eq_some_iff.1 h
    obtain ⟨hparts, -, hsuffix⟩ := strip?_eq_some hqs
    -- what is left stands behind the parts of the folder, so it has inner pieces only
    have hinner : ∀ p ∈ dropIdleEnd (qs.dropWhile fun p => p.part?.isNone), p.IsInner := by
      intro p hp
      have hp' := (List.dropWhile_suffix _).subset ((dropIdleEnd_isPrefix _).subset hp)
      exact isInner_of_mem_tail_pieces ((hsuffix hne).subset hp')
    have hfirst : ∀ p, (dropIdleEnd (qs.dropWhile fun p => p.part?.isNone)).head? = some p →
        p.part?.isSome = true := by
      intro p hp
      have hp' : (qs.dropWhile fun p => p.part?.isNone).head? = some p := by
        obtain ⟨idle, hidle⟩ := dropIdleEnd_isPrefix (qs.dropWhile fun p => p.part?.isNone)
        rw [← hidle, List.head?_append, hp]
        rfl
      have hhead := List.head?_dropWhile_not (fun p : Piece => p.part?.isNone) qs
      rw [hp'] at hhead
      simpa using hhead
    obtain ⟨hrel, habs⟩ := parts_spell_of_isInner hinner hfirst
    refine ⟨?_, .inr habs⟩
    rw [hrel, filterMap_dropIdleEnd, filterMap_dropIdle]
    exact hparts

/-- **Joined to the folder, a path as seen from there is the path again.** -/
theorem stack_join_relativeTo? {root path rel : String}
    (h : relativeTo? (normalize root) path = some rel) :
    stack (join root rel) = stack path := by
  obtain ⟨hparts, hroot⟩ := parts_of_relativeTo? h
  have hstack : stack path = (parts rel).foldl collapse (stack root) := by
    rw [stack, hparts, List.foldl_append]
    exact congrArg (fun st => (parts rel).foldl collapse st) (stack_normalize root)
  cases habs : isAbsolute rel with
  | false => rw [stack_join root habs, hstack]
  | true =>
    have hnone : parts (normalize root) = [] := by
      rcases hroot with hroot | hroot
      · exact hroot
      · rw [habs] at hroot
        cases hroot
    have hempty : stack root = [] := by
      rw [parts_normalize, List.reverse_eq_nil_iff] at hnone
      exact hnone
    rw [join_of_isAbsolute root habs, hstack, hempty]
    rfl

/-! ### Names at the end -/

/-- A path has a file name exactly if its last part is a name. -/
lemma fileName?_eq_some_iff {path n : String} :
    fileName? path = some n ↔ ∃ ps, parts path = ps ++ [.name n] := by
  rw [← List.getLast?_eq_some_iff, fileName?]
  constructor
  · intro h
    split at h
    · next m hm =>
      cases h
      exact hm
    · cases h
  · intro h
    rw [h]

/-- **The folder around a path, in normal form**: the path without its name. -/
theorem stack_parent {path n : String} (h : fileName? path = some n) :
    stack path = .name n :: stack ((parent? path).getD "") := by
  obtain ⟨ps, hps⟩ := fileName?_eq_some_iff.1 h
  rw [stack, stack, parts_parent hps, hps, List.foldl_append]
  rfl

/-- Normalisation keeps the name at the end of a path. -/
lemma fileName?_normalize {path n : String} (h : fileName? path = some n) :
    fileName? (normalize path) = some n := by
  rw [fileName?_eq_some_iff, parts_normalize, stack_parent h, List.reverse_cons]
  exact ⟨_, rfl⟩

/-- A path that ends in a name has folders with one normal form, however it is spelled. -/
lemma stack_parent_congr {a b n : String} (ha : fileName? a = some n) (hb : fileName? b = some n)
    (h : stack a = stack b) :
    stack ((parent? a).getD "") = stack ((parent? b).getD "") := by
  rw [stack_parent ha, stack_parent hb] at h
  exact (List.cons.inj h).2

/-- A field is a name at the front of a path if it is one inside it. -/
lemma frontPart?_eq_name_iff {first n : String} {alone : Bool} :
    frontPart? first alone = some (.name n) ↔ Part.ofInner? first = some (.name n) := by
  by_cases hempty : first = ""
  · subst hempty
    cases alone <;> simp [frontPart?, Part.ofInner?]
  · by_cases hdot : first = "."
    · subst hdot
      simp [frontPart?, Part.ofInner?]
    · rw [frontPart?_eq_ofInner? hempty hdot]

/-- A joined path ends in the name at the end of its target.

**Proof sketch.** The parts of the target stand behind those of the base, and the last of them is
the name; it does not matter whether the name is the first field of the target, as a name denotes
the same there. -/
lemma fileName?_join (base : String) {target n : String} (h : fileName? target = some n) :
    fileName? (join base target) = some n := by
  cases habs : isAbsolute target with
  | true => rw [join_of_isAbsolute base habs, h]
  | false =>
    by_cases hbase : base = ""
    · subst hbase
      have hjoin : join "" target = target := by simp [join]
      rw [hjoin, h]
    · obtain ⟨first, rest, hfields⟩ := List.exists_cons_of_ne_nil (Text.fields_ne_nil '/' target)
      rw [fileName?_eq_some_iff, parts_of_fields hfields] at h
      rw [fileName?_eq_some_iff, parts_join hbase habs, hfields]
      have hcons : (first :: rest).filterMap Part.ofInner? =
          (Part.ofInner? first).toList ++ rest.filterMap Part.ofInner? := by
        rw [List.filterMap_cons]
        cases Part.ofInner? first <;> rfl
      rw [hcons]
      obtain ⟨ps, hps⟩ := h
      rcases List.eq_nil_or_concat (rest.filterMap Part.ofInner?) with hnil | ⟨qs, q, hqs⟩
      · -- the name is the first field
        rw [hnil, List.append_nil] at hps ⊢
        cases hfront : frontPart? first rest.isEmpty with
        | none =>
          rw [hfront] at hps
          simp at hps
        | some p =>
          rw [hfront] at hps
          obtain ⟨-, hp⟩ := List.append_inj' (show [] ++ [p] = ps ++ [.name n] from hps) rfl
          cases hp
          rw [frontPart?_eq_name_iff.1 hfront]
          exact ⟨parts base, rfl⟩
      · rw [hqs, List.concat_eq_append, ← List.append_assoc] at hps ⊢
        obtain ⟨-, hq⟩ := List.append_inj' hps rfl
        rw [hq, ← List.append_assoc]
        exact ⟨_, rfl⟩

end ProxyLint.Path

namespace ProxyLint

open ProxyLint.Path

/-- What is above a place that a chain of names leads to is a directory. -/
lemma Node.isDir_at?_dropLast {n m : Node} {names : List String} (hn : n.isDir = true)
    (h : n.at? names = some m) : ∃ d, n.at? names.dropLast = some d ∧ d.isDir = true := by
  induction names generalizing n with
  | nil => exact ⟨n, rfl, hn⟩
  | cons name rest ih =>
    cases rest with
    | nil => exact ⟨n, rfl, hn⟩
    | cons name' rest =>
      rw [Node.at?] at h
      rw [List.dropLast_cons_cons, Node.at?]
      cases hchild : n.child? name with
      | none => rw [hchild] at h; cases h
      | some c =>
        rw [hchild] at h
        refine ih ?_ h
        -- a file has no entries
        cases c with
        | dir es => rfl
        | file text => cases h

namespace FileTree

variable (t : FileTree)

/-- A step that is not along a name leads to a directory. -/
lemma isDir_of_step {place place' : List String} {piece : String}
    (h : t.step place piece = some place') (hpiece : ∀ n, Part.ofInner? piece ≠ some (.name n)) :
    ∃ d, t.root.at? place' = some d ∧ d.isDir = true := by
  unfold step at h
  split at h
  · next es hplace =>
    unfold Part.ofInner? at hpiece
    split at h
    · cases h
      exact ⟨_, hplace, rfl⟩
    · next hidle =>
      rw [if_neg hidle] at hpiece
      split at h
      · cases h
        refine Node.isDir_at?_dropLast ?_ hplace
        cases place with
        | nil =>
          rw [Option.some.inj hplace]
          rfl
        | cons name rest =>
          cases hroot : t.root with
          | dir es => rfl
          | file text => rw [hroot] at hplace; cases hplace
      · next hup =>
        rw [if_neg hup] at hpiece
        exact absurd rfl (hpiece piece)
  · cases h

/-- **A path to a file ends in a name.**

**Proof sketch.** The walk to a file takes the fields one by one. If the last one were no name, it
would be taken from a directory to a directory (`isDir_of_step`), and not to a file. -/
theorem exists_fileName?_of_isFile {path : String} (h : t.isFile path = true) :
    ∃ n, fileName? path = some n := by
  obtain ⟨place, hplace⟩ := t.exists_locate?_of_isFile h
  have hfile : ∀ d, t.root.at? place = some d → d.isDir = false := by
    intro d hd
    rw [isFile, find?, hplace, Option.bind_some, hd] at h
    simpa using h
  unfold locate? at hplace
  split at hplace
  · cases hplace
  · obtain ⟨fs, last, hfields⟩ :=
      (List.eq_nil_or_concat (Text.fields '/' path)).resolve_left (Text.fields_ne_nil '/' path)
    rw [List.concat_eq_append] at hfields
    dsimp only at hplace
    rw [hfields, List.foldlM_append] at hplace
    obtain ⟨next, -, hplace⟩ := Option.bind_eq_some_iff.1 hplace
    obtain ⟨place', hlast, hplace⟩ := Option.bind_eq_some_iff.1 hplace
    cases hplace
    by_contra hnone
    have hpiece : ∀ n, Part.ofInner? last ≠ some (.name n) := by
      intro n hn
      refine hnone ⟨n, fileName?_eq_some_iff.2 ?_⟩
      cases fs with
      | nil =>
        rw [List.nil_append] at hfields
        rw [parts_of_fields hfields, frontPart?_eq_name_iff.2 hn]
        exact ⟨[], rfl⟩
      | cons f fs =>
        rw [List.cons_append] at hfields
        rw [parts_of_fields hfields, List.filterMap_append, List.filterMap_cons_some hn,
          List.filterMap_nil, ← List.append_assoc]
        exact ⟨_, rfl⟩
    obtain ⟨d, hd, hdir⟩ := t.isDir_of_step hlast hpiece
    rw [hfile d hd] at hdir
    cases hdir

end FileTree

end ProxyLint
