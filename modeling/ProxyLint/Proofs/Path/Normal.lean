import ProxyLint.Path
import ProxyLint.Proofs.Text

set_option relaxedAutoImplicit false
set_option autoImplicit false

/-!
# Paths in normal form

Normalisation reads the parts of a path onto a stack, innermost first. The stacks
it leaves behind are settled: no `.`, the root at the bottom only, and no `..` on
top of a name. A settled stack is spelled by one path, and reading that path puts
the same stack together again.

## Main definitions

* `ProxyLint.Path.stack` — the parts of a path in normal form, innermost first.
* `ProxyLint.Path.Settled` — the stacks that normalisation leaves behind.

## Main results

* `ProxyLint.Path.stack_join` — the stack of a joined path.
* `ProxyLint.Path.parts_normalize` — the parts of a path in normal form.
* `ProxyLint.Path.normalize_join_congr` — a target is looked up at the same path
  from two directories with the same normal form.
-/

namespace ProxyLint.Path

/-! ### Parts of joined paths -/

/-- The part that the first field of a path denotes; `alone` says that there is no
other field. -/
def frontPart? (first : String) (alone : Bool) : Option Part :=
  if first == "" then (if alone then none else some .root)
  else if first == "." then some .here
  else Part.ofInner? first

/-- The pieces of a path are read from its fields. -/
lemma pieces_of_fields {path first : String} {rest : List String}
    (h : Text.fields '/' path = first :: rest) :
    pieces path = ⟨first, frontPart? first rest.isEmpty⟩ ::
      rest.map fun f => ⟨f, Part.ofInner? f⟩ := by
  rw [pieces, h]
  rfl

/-- The texts of the pieces of a path are its fields. -/
lemma map_text_pieces (path : String) : (pieces path).map Piece.text = Text.fields '/' path := by
  obtain ⟨first, rest, hfields⟩ := List.exists_cons_of_ne_nil (Text.fields_ne_nil '/' path)
  rw [pieces_of_fields hfields, hfields, List.map_cons, List.map_map]
  exact congrArg _ (List.map_id rest)

/-- The parts of a path are read from its fields. -/
lemma parts_of_fields {path first : String} {rest : List String}
    (h : Text.fields '/' path = first :: rest) :
    parts path = (frontPart? first rest.isEmpty).toList ++ rest.filterMap Part.ofInner? := by
  rw [parts, pieces_of_fields h, List.filterMap_cons, List.filterMap_map]
  cases frontPart? first rest.isEmpty <;> rfl

/-- The empty path has no parts. -/
lemma parts_empty : parts "" = [] := by decide

/-- Only an empty first field is read differently when another one follows. -/
lemma frontPart?_of_ne {first : String} (h : first ≠ "") (alone : Bool) :
    frontPart? first alone = frontPart? first false := by
  have hb : (first == "") = false := by simpa using h
  simp [frontPart?, hb]

/-- A first field that is neither empty nor `.` denotes what it denotes elsewhere. -/
lemma frontPart?_eq_ofInner? {first : String} (hempty : first ≠ "") (hdot : first ≠ ".")
    (alone : Bool) : frontPart? first alone = Part.ofInner? first := by
  have h1 : (first == "") = false := by simpa using hempty
  have h2 : (first == ".") = false := by simpa using hdot
  simp only [frontPart?, h1, h2, Bool.false_eq_true, ↓reduceIte]

/-- A path whose first field is empty, and not its only one, starts at the root. -/
lemma isAbsolute_of_fields {path : String} {rest : List String}
    (h : Text.fields '/' path = "" :: rest) (hrest : rest ≠ []) : isAbsolute path = true := by
  have hpath := Text.joinWith_fields path
  rw [h, Text.joinWith_cons "/" "" hrest] at hpath
  rw [← hpath, isAbsolute, Text.startsWith]
  simp

/-- A path whose first field is not empty does not start at the root. -/
lemma isAbsolute_eq_false_of_fields {path first : String} {rest : List String}
    (h : Text.fields '/' path = first :: rest) (hne : first ≠ "") : isAbsolute path = false := by
  rw [Bool.eq_false_iff]
  intro habs
  rw [isAbsolute, Text.startsWith] at habs
  have hslash : '/' ∉ first.toList :=
    Text.slash_notMem_of_mem_fields (by rw [h]; exact List.mem_cons_self)
  have hpath := Text.joinWith_fields path
  rw [h] at hpath
  cases hchars : first.toList with
  | nil => exact hne (String.toList_eq_nil_iff.1 hchars)
  | cons c cs =>
    have hc : path.toList.head? = some c := by
      rw [← hpath]
      by_cases hrest : rest = []
      · subst hrest
        rw [Text.joinWith, hchars]
        rfl
      · rw [Text.joinWith_cons "/" first hrest]
        simp [hchars]
    obtain ⟨others, hothers⟩ := List.isPrefixOf_iff_prefix.1 habs
    rw [← hothers] at hc
    obtain rfl : '/' = c := by simpa using hc
    rw [hchars] at hslash
    exact hslash List.mem_cons_self

/-- A path has more than one field when its fields are made of two rows. -/
lemma isEmpty_append_cons (fs : List String) (g : String) (gs : List String) :
    (fs ++ g :: gs).isEmpty = false := by
  cases fs <;> rfl

/-- A relative target adds the parts that its fields denote inside a path.

**Proof sketch.** By whether the base ends in a slash: then the two are put together as they are,
and otherwise a slash is put between them. In both cases the fields are those of the base and those
of the target, of which only the first of the base is a front piece. -/
lemma parts_join {base target : String} (hbase : base ≠ "") (htarget : isAbsolute target = false) :
    parts (join base target) =
      parts base ++ (Text.fields '/' target).filterMap Part.ofInner? := by
  have hempty : base.isEmpty = false := by simpa using hbase
  simp only [join, htarget, hempty, Bool.or_self, Bool.false_eq_true, ↓reduceIte]
  obtain ⟨g, gs, hg⟩ := List.exists_cons_of_ne_nil (Text.fields_ne_nil '/' target)
  by_cases hlast : base.toList.getLast? = some '/'
  · -- the slash at the end of the base is the one between the two
    obtain ⟨cs, hcs⟩ := List.getLast?_eq_some_iff.1 hlast
    have hb : base = String.ofList cs ++ "/" ++ "" := by
      rw [← String.toList_inj, hcs]
      simp
    have hj : base ++ target = String.ofList cs ++ "/" ++ target := by
      rw [hb]
      simp
    obtain ⟨f, fs, hf⟩ := List.exists_cons_of_ne_nil (Text.fields_ne_nil '/' (String.ofList cs))
    have hfb : Text.fields '/' base = f :: (fs ++ [""]) := by
      rw [hb, Text.fields_append_slash, hf]
      rfl
    have hfj : Text.fields '/' (base ++ target) = f :: (fs ++ g :: gs) := by
      rw [hj, Text.fields_append_slash, hf, hg]
      rfl
    simp only [hlast, beq_self_eq_true, ↓reduceIte]
    rw [parts_of_fields hfj, parts_of_fields hfb, hg, isEmpty_append_cons, isEmpty_append_cons]
    simp [Part.ofInner?]
  · obtain ⟨f, fs, hf⟩ := List.exists_cons_of_ne_nil (Text.fields_ne_nil '/' base)
    have hfj : Text.fields '/' (base ++ "/" ++ target) = f :: (fs ++ g :: gs) := by
      rw [Text.fields_append_slash, hf, hg]
      rfl
    have hfront : frontPart? f fs.isEmpty = frontPart? f false := by
      cases fs with
      | cons => rfl
      | nil =>
        have hbase' := Text.joinWith_fields base
        rw [hf] at hbase'
        exact frontPart?_of_ne (by rintro rfl; exact hbase hbase'.symm) _
    have hb : (base.toList.getLast? == some '/') = false := by simpa using hlast
    simp only [hb, Bool.false_eq_true, ↓reduceIte]
    rw [parts_of_fields hfj, parts_of_fields hf, hg, hfront, isEmpty_append_cons]
    simp

/-! ### Stacks -/

/-- The parts of a path in normal form, innermost first. -/
def stack (path : String) : List Part :=
  (parts path).foldl collapse []

/-- A path in normal form is written from its stack. -/
lemma normalize_eq (path : String) : normalize path = ofParts (stack path).reverse := rfl

/-- What a stack holds was there before or is new. -/
lemma mem_of_mem_foldl_collapse {ps st : List Part} {q : Part} (h : q ∈ ps.foldl collapse st) :
    q ∈ st ∨ q ∈ ps := by
  induction ps generalizing st with
  | nil => exact .inl h
  | cons p ps ih =>
    rcases ih h with h | h
    · have hq : q ∈ st ∨ q = p := by
        unfold collapse at h
        split at h
        · exact .inl h
        · split at h
          · exact .inl (List.mem_cons_of_mem _ h)
          · exact (List.mem_cons.1 h).symm
        · exact (List.mem_cons.1 h).symm
      rcases hq with hq | rfl
      · exact .inl hq
      · exact .inr List.mem_cons_self
    · exact .inr (List.mem_cons_of_mem p h)

/-- A relative path is read onto a stack field by field. -/
lemma foldl_collapse_parts {path : String} (h : isAbsolute path = false) (st : List Part) :
    (parts path).foldl collapse st =
      ((Text.fields '/' path).filterMap Part.ofInner?).foldl collapse st := by
  obtain ⟨f, fs, hf⟩ := List.exists_cons_of_ne_nil (Text.fields_ne_nil '/' path)
  rw [parts_of_fields hf, hf]
  by_cases hempty : f = ""
  · subst hempty
    have hfs : fs = [] := by
      by_contra hne
      rw [isAbsolute_of_fields hf hne] at h
      cases h
    subst hfs
    rfl
  · by_cases hdot : f = "."
    · -- a leading `.` is a part, but the stack does not take it
      subst hdot
      rfl
    · rw [frontPart?_eq_ofInner? hempty hdot, List.filterMap_cons]
      cases Part.ofInner? f <;> rfl

/-- The stack of a joined path: the target is read on top of the base. -/
theorem stack_join (base : String) {target : String} (h : isAbsolute target = false) :
    stack (join base target) = (parts target).foldl collapse (stack base) := by
  rw [foldl_collapse_parts h]
  by_cases hbase : base = ""
  · subst hbase
    have hj : join "" target = target := by simp [join]
    rw [hj, stack, foldl_collapse_parts h, stack, parts_empty]
    rfl
  · rw [stack, parts_join hbase h, List.foldl_append]
    rfl

/-- An absolute path replaces what it is joined to. -/
lemma join_of_isAbsolute (base : String) {target : String} (h : isAbsolute target = true) :
    join base target = target := by
  simp [join, h]

/-- **A target is looked up at the same path from two directories with the same
normal form.** -/
theorem normalize_join_congr {a b : String} (h : stack a = stack b) (target : String) :
    normalize (join a target) = normalize (join b target) := by
  cases habs : isAbsolute target with
  | true => rw [join_of_isAbsolute a habs, join_of_isAbsolute b habs]
  | false => rw [normalize_eq, normalize_eq, stack_join a habs, stack_join b habs, h]

/-! ### Settled stacks -/

/-- What a field has to be to denote a name. -/
structure IsName (n : String) : Prop where
  ne_empty : n ≠ ""
  ne_dot : n ≠ "."
  ne_dots : n ≠ ".."
  slash_notMem : '/' ∉ n.toList

/-- The stacks that normalisation leaves behind: no `.`, the root at the bottom
only, and no `..` on top of a name. -/
def Settled : List Part → Prop
  | [] => True
  | .root :: rest => rest = []
  | .here :: _ => False
  | .up :: rest => (∀ n, rest.head? ≠ some (.name n)) ∧ Settled rest
  | .name n :: rest => IsName n ∧ Settled rest

/-- A settled stack is settled without its innermost part. -/
lemma Settled.tail {p : Part} {st : List Part} (h : Settled (p :: st)) : Settled st := by
  cases p with
  | root => obtain rfl : st = [] := h; trivial
  | here => cases h
  | up => exact h.2
  | name n => exact h.2

/-- A part that may follow others in a path. -/
def Part.IsInner : Part → Prop
  | .root => False
  | .here => False
  | .up => True
  | .name n => IsName n

/-- A field that denotes a part denotes an inner one. -/
lemma isInner_of_ofInner? {f : String} {p : Part} (hslash : '/' ∉ f.toList)
    (h : Part.ofInner? f = some p) : p.IsInner := by
  unfold Part.ofInner? at h
  split at h
  · cases h
  · next hne =>
    split at h
    · cases h; trivial
    · next hdots =>
      cases h
      simp only [Bool.or_eq_true, beq_iff_eq, not_or] at hne
      exact ⟨hne.1, hne.2, by simpa using hdots, hslash⟩

/-- An inner part leaves a settled stack settled. -/
lemma settled_collapse {st : List Part} (h : Settled st) {p : Part} (hp : p.IsInner) :
    Settled (collapse st p) := by
  cases p with
  | root => cases hp
  | here => cases hp
  | name n => exact ⟨hp, h⟩
  | up =>
    cases st with
    | nil => exact ⟨fun n => by simp, trivial⟩
    | cons q st =>
      cases q with
      | name n => exact h.2
      | root => exact ⟨fun n => by simp, h⟩
      | here => cases h
      | up => exact ⟨fun n => by simp, h⟩

/-- Reading inner parts onto a settled stack leaves it settled. -/
lemma settled_foldl {st : List Part} (h : Settled st) {ps : List Part}
    (hps : ∀ p ∈ ps, p.IsInner) : Settled (ps.foldl collapse st) := by
  induction ps generalizing st with
  | nil => exact h
  | cons p ps ih =>
    exact ih (settled_collapse h (hps p List.mem_cons_self))
      fun q hq => hps q (List.mem_cons_of_mem p hq)

/-- Normalisation leaves a settled stack behind. -/
theorem settled_stack (path : String) : Settled (stack path) := by
  obtain ⟨f, fs, hf⟩ := List.exists_cons_of_ne_nil (Text.fields_ne_nil '/' path)
  have hslash : ∀ g ∈ f :: fs, '/' ∉ g.toList := by
    intro g hg
    rw [← hf] at hg
    exact Text.slash_notMem_of_mem_fields hg
  have hinner : ∀ p ∈ fs.filterMap Part.ofInner?, p.IsInner := by
    intro p hp
    obtain ⟨g, hg, hgp⟩ := List.mem_filterMap.1 hp
    exact isInner_of_ofInner? (hslash g (List.mem_cons_of_mem f hg)) hgp
  rw [stack, parts_of_fields hf, List.foldl_append]
  refine settled_foldl ?_ hinner
  unfold frontPart?
  split
  · split
    · trivial
    · exact rfl
  · split
    · trivial
    · cases hp : Part.ofInner? f with
      | none => trivial
      | some p =>
        have hinner := isInner_of_ofInner? (hslash f List.mem_cons_self) hp
        exact @settled_collapse [] trivial p hinner

/-- Reading a settled stack again, from the bottom, puts it together. -/
lemma foldl_collapse_reverse {st : List Part} (h : Settled st) :
    st.reverse.foldl collapse [] = st := by
  induction st with
  | nil => rfl
  | cons p st ih =>
    rw [List.reverse_cons, List.foldl_append, ih h.tail]
    cases p with
    | root => rfl
    | here => cases h
    | name n => rfl
    | up =>
      cases st with
      | nil => rfl
      | cons q st =>
        cases q with
        | name n => exact absurd rfl (h.1 n)
        | root => rfl
        | here => rfl
        | up => rfl

/-! ### Spelling -/

/-- An inner part is what its text denotes. -/
lemma Part.IsInner.ofInner?_text {p : Part} (h : p.IsInner) : Part.ofInner? p.text = some p := by
  cases p with
  | root => cases h
  | here => cases h
  | up => decide
  | name n =>
    have h1 : (n == "") = false := by simpa using h.ne_empty
    have h2 : (n == ".") = false := by simpa using h.ne_dot
    have h3 : (n == "..") = false := by simpa using h.ne_dots
    simp only [Part.ofInner?, Part.text, h1, h2, h3, Bool.or_self, Bool.false_eq_true, ↓reduceIte]

/-- The text of an inner part holds no slash. -/
lemma Part.IsInner.slash_notMem_text {p : Part} (h : p.IsInner) : '/' ∉ p.text.toList := by
  cases p with
  | root => cases h
  | here => cases h
  | up => decide
  | name n => exact h.slash_notMem

/-- An inner part at the front of a path is what its text denotes there. -/
lemma Part.IsInner.frontPart?_text {p : Part} (h : p.IsInner) (alone : Bool) :
    frontPart? p.text alone = some p := by
  cases p with
  | root => cases h
  | here => cases h
  | up => cases alone <;> decide
  | name n =>
    have h1 : (n == "") = false := by simpa using h.ne_empty
    have h2 : (n == ".") = false := by simpa using h.ne_dot
    rw [← Part.IsInner.ofInner?_text h]
    simp only [frontPart?, Part.text, h1, h2, Bool.false_eq_true, ↓reduceIte]

/-- A piece that is spelled the way its part is written. -/
def Piece.ofPart (p : Part) : Piece := ⟨p.text, some p⟩

/-- The pieces of a path that is spelled from inner parts. -/
lemma pieces_spell_inner {ps : List Part} (hne : ps ≠ []) (h : ∀ p ∈ ps, p.IsInner) :
    pieces (Text.joinWith "/" (ps.map Part.text)) = ps.map Piece.ofPart := by
  obtain ⟨p, ps, rfl⟩ := List.exists_cons_of_ne_nil hne
  have hfields := @Text.fields_joinWith ((p :: ps).map Part.text) (by simp) (by
    intro s hs
    obtain ⟨q, hq, rfl⟩ := List.mem_map.1 hs
    exact (h q hq).slash_notMem_text)
  rw [pieces_of_fields hfields, (h p List.mem_cons_self).frontPart?_text, List.map_map,
    List.map_cons]
  congr 1
  refine List.map_congr_left fun q hq => ?_
  simp only [Function.comp, Piece.ofPart, (h q (List.mem_cons_of_mem p hq)).ofInner?_text]

/-- The pieces of a path that is spelled from the root and inner parts. -/
lemma pieces_spell_root {ps : List Part} (hne : ps ≠ []) (h : ∀ p ∈ ps, p.IsInner) :
    pieces (Text.joinWith "/" ("" :: ps.map Part.text)) =
      Piece.ofPart .root :: ps.map Piece.ofPart := by
  have hfields := @Text.fields_joinWith ("" :: ps.map Part.text) (by simp) (by
    intro s hs
    rcases List.mem_cons.1 hs with rfl | hs
    · decide
    · obtain ⟨q, hq, rfl⟩ := List.mem_map.1 hs
      exact (h q hq).slash_notMem_text)
  have hfront : frontPart? "" (ps.map Part.text).isEmpty = some .root := by
    obtain ⟨p, ps, rfl⟩ := List.exists_cons_of_ne_nil hne
    rfl
  rw [pieces_of_fields hfields, hfront, List.map_map]
  congr 1
  refine List.map_congr_left fun q hq => ?_
  simp only [Function.comp, Piece.ofPart, (h q hq).ofInner?_text]

/-- A settled stack, from the bottom, is a row of inner parts, or the root with such
a row on top.

**Proof sketch.** Induction on the stack: the root stands at its bottom only, and every other part
of a settled stack is an inner one. -/
lemma Settled.reverse_eq {st : List Part} (h : Settled st) :
    (∀ p ∈ st.reverse, p.IsInner) ∨
      ∃ ps, st.reverse = .root :: ps ∧ ∀ p ∈ ps, p.IsInner := by
  induction st with
  | nil => exact .inl (by simp)
  | cons p st ih =>
    rw [List.reverse_cons]
    by_cases hroot : p = .root
    · subst hroot
      obtain rfl : st = [] := h
      exact .inr ⟨[], rfl, by simp⟩
    · have hp : p.IsInner := by
        cases p with
        | root => exact absurd rfl hroot
        | here => cases h
        | up => trivial
        | name n => exact h.1
      rcases ih h.tail with hinner | ⟨ps, hps, hinner⟩
      · refine .inl fun q hq => ?_
        rcases List.mem_append.1 hq with hq | hq
        · exact hinner q hq
        · rw [List.mem_singleton.1 hq]
          exact hp
      · refine .inr ⟨ps ++ [p], by rw [hps]; rfl, fun q hq => ?_⟩
        rcases List.mem_append.1 hq with hq | hq
        · exact hinner q hq
        · rw [List.mem_singleton.1 hq]
          exact hp

/-- The path that a settled stack spells has its parts. -/
theorem parts_ofParts {st : List Part} (h : Settled st) :
    parts (ofParts st.reverse) = st.reverse := by
  have hmap : ∀ ps : List Part, (ps.map Piece.ofPart).filterMap Piece.part? = ps := by
    intro ps
    rw [List.filterMap_map]
    exact List.filterMap_some
  rcases h.reverse_eq with hinner | ⟨ps, hps, hinner⟩
  · generalize st.reverse = qs at hinner ⊢
    by_cases hne : qs = []
    · subst hne
      decide
    · have hroot : (qs == [Part.root]) = false := by
        simp only [beq_eq_false_iff_ne]
        rintro rfl
        exact hinner .root (by simp)
      simp only [ofParts, hroot, Bool.false_eq_true, ↓reduceIte]
      rw [parts, pieces_spell_inner hne hinner, hmap]
  · rw [hps]
    by_cases hne : ps = []
    · subst hne
      decide
    · have hroot : (Part.root :: ps == [Part.root]) = false := by simpa using hne
      simp only [ofParts, hroot, Bool.false_eq_true, ↓reduceIte]
      rw [parts, List.map_cons, Part.text, pieces_spell_root hne hinner, List.filterMap_cons, hmap]
      rfl

/-- The parts of a path in normal form. -/
theorem parts_normalize (path : String) : parts (normalize path) = (stack path).reverse := by
  rw [normalize_eq, parts_ofParts (settled_stack path)]

/-- Normalisation keeps what it has put together. -/
theorem stack_normalize (path : String) : stack (normalize path) = stack path := by
  rw [stack, parts_normalize, foldl_collapse_reverse (settled_stack path)]

/-- Two paths have the same normal form when they have the same stack. -/
lemma normalize_eq_iff {a b : String} : normalize a = normalize b ↔ stack a = stack b := by
  constructor
  · intro h
    rw [← stack_normalize a, h, stack_normalize]
  · intro h
    rw [normalize_eq, normalize_eq, h]

end ProxyLint.Path
