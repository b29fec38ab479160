import Mathlib.Data.List.Infix
import ProxyLint.Include.Line
import ProxyLint.Proofs.Text

set_option relaxedAutoImplicit false
set_option autoImplicit false

/-!
# The grammar of lines

What the readers of lines find, said without them: which physical lines make up a
logical one, where the includes of a line of nested labels stand and what their
targets are, and which line of the web server is an include.

## Main definitions

* `ProxyLint.Include.Joined` — physical lines make up these logical lines.
* `ProxyLint.Include.Cut` — a line of nested labels has these pieces.
* `ProxyLint.Include.IsDirective` — a line of the web server includes this target.

## Main results

* `ProxyLint.Include.isLogical_logicalLines`, `ProxyLint.Include.cut_pieces`,
  `ProxyLint.Include.isDirective_of_directive?` — the readers keep to the grammar.
* `ProxyLint.Include.pieces_of_cut`,
  `ProxyLint.Include.exists_directive?_of_isDirective` — the grammar has nothing
  that is not read.
-/

namespace ProxyLint.Include

/-! ### Logical lines -/

/-- A backslash at its end continues a line; blanks after it do not count. -/
def IsContinued (line : List Char) : Prop :=
  ∃ body, Text.stripEnd line = body ++ ['\\']

/-- What the lines after a continued line add to it, and which lines are left. Each
adds a blank and its trimmed body; the first one that is not continued, or the end
of the text, ends the logical line. -/
inductive Continues :
    List (List Char × Nat) → List Char → List (List Char × Nat) → Prop where
  | atEnd : Continues [] [] []
  | last {line : List Char} {n : Nat} {rest : List (List Char × Nat)} :
    ¬ IsContinued line →
    Continues ((line, n) :: rest) (' ' :: Text.strip (Text.stripEnd line)) rest
  | more {line body content : List Char} {n : Nat} {lines rest : List (List Char × Nat)} :
    Text.stripEnd line = body ++ ['\\'] → Continues lines content rest →
    Continues ((line, n) :: lines) (' ' :: Text.strip body ++ content) rest

/-- Numbered physical lines make up these logical lines, each of which has the
number of its first physical line. -/
inductive Joined : List (List Char × Nat) → List (Nat × List Char) → Prop where
  | nil : Joined [] []
  | single {line : List Char} {n : Nat} {rest : List (List Char × Nat)}
      {ls : List (Nat × List Char)} :
    ¬ IsContinued line → Joined rest ls →
    Joined ((line, n) :: rest) ((n, Text.stripEnd line) :: ls)
  | run {line body content : List Char} {n : Nat} {lines rest : List (List Char × Nat)}
      {ls : List (Nat × List Char)} :
    Text.stripEnd line = body ++ ['\\'] → Continues lines content rest → Joined rest ls →
    Joined ((line, n) :: lines) ((n, Text.stripEnd body ++ content) :: ls)

/-- The logical lines of a text with their numbers: physical lines are counted from
1, and only the web server's dialect joins them. -/
def IsLogical (dialect : Dialect) (text : String) (ls : List (Nat × List Char)) : Prop :=
  match dialect with
  | .any => ls = ((Text.lineList text.toList).zipIdx 1).map Prod.swap
  | .httpd => Joined ((Text.lineList text.toList).zipIdx 1) ls

/-- A continued line gives its text without the backslash. -/
lemma continuation_of_continued {line body : List Char}
    (h : Text.stripEnd line = body ++ ['\\']) : continuation line = (body, true) := by
  rw [continuation, Text.beforeLast?_eq_some_iff.2 h]

/-- A line that is not continued gives its text without the blanks at its end. -/
lemma continuation_of_not_continued {line : List Char} (h : ¬ IsContinued line) :
    continuation line = (Text.stripEnd line, false) := by
  have hnone : Text.beforeLast? '\\' (Text.stripEnd line) = none := by
    rw [Option.eq_none_iff_forall_ne_some]
    exact fun body hbody => h ⟨body, Text.beforeLast?_eq_some_iff.1 hbody⟩
  rw [continuation, hnone]

/-- A pending run is extended by the lines that continue it.

**Proof sketch.** Induction on the lines. The run ends with them or at the first
one that is not continued. -/
lemma joinContinued_some (run : Run) (lines : List (List Char × Nat)) :
    ∃ content rest, Continues lines content rest ∧ rest.length ≤ lines.length ∧
      joinContinued (some run) (lines.map Prod.swap) =
        (run.number, run.parts.reverse.flatten ++ content) ::
          joinContinued none (rest.map Prod.swap) := by
  induction lines generalizing run with
  | nil => exact ⟨[], [], .atEnd, Nat.le_refl _, by simp [joinContinued, Run.line]⟩
  | cons l lines ih =>
    obtain ⟨line, n⟩ := l
    by_cases hline : IsContinued line
    · obtain ⟨body, hbody⟩ := hline
      obtain ⟨content, rest, hc, hlen, heq⟩ :=
        ih { run with parts := (' ' :: Text.strip body) :: run.parts }
      refine ⟨_, rest, .more hbody hc, Nat.le_succ_of_le hlen, ?_⟩
      rw [List.map_cons, Prod.swap_prod_mk, joinContinued, continuation_of_continued hbody]
      simp [heq]
    · refine ⟨_, lines, .last hline, Nat.le_succ _, ?_⟩
      rw [List.map_cons, Prod.swap_prod_mk, joinContinued, continuation_of_not_continued hline]
      simp [Run.line]

/-- Continued lines are joined as the grammar says. -/
lemma joined_joinContinued (lines : List (List Char × Nat)) :
    Joined lines (joinContinued none (lines.map Prod.swap)) := by
  induction hlen : lines.length using Nat.strongRecOn generalizing lines with
  | ind k ih =>
    cases lines with
    | nil => exact .nil
    | cons l lines =>
      obtain ⟨line, n⟩ := l
      rw [List.length_cons] at hlen
      rw [List.map_cons, Prod.swap_prod_mk, joinContinued]
      by_cases hline : IsContinued line
      · obtain ⟨body, hbody⟩ := hline
        obtain ⟨content, rest, hc, hle, heq⟩ :=
          joinContinued_some ⟨n, [Text.stripEnd body]⟩ lines
        rw [continuation_of_continued hbody]
        simp only [if_true, heq, List.reverse_singleton, List.flatten_singleton]
        exact .run hbody hc (ih rest.length (by omega) rest rfl)
      · rw [continuation_of_not_continued hline]
        simp only [Bool.false_eq_true, if_false, Run.line, List.reverse_singleton,
          List.flatten_singleton, Text.stripEnd_stripEnd]
        exact .single hline (ih lines.length (by omega) lines rfl)

/-- The logical lines that numbered physical lines make up. -/
def joinLines (dialect : Dialect) (lines : List (Nat × List Char)) : List (Nat × List Char) :=
  match dialect with
  | .any => lines
  | .httpd => joinContinued none lines

/-- The logical lines of a text are joined from its numbered lines. -/
lemma logicalLines_eq (dialect : Dialect) (text : String) :
    logicalLines dialect false text = joinLines dialect (numberedLines text) := by
  unfold logicalLines joinLines
  rcases numberedLines text with _ | ⟨⟨n, line⟩, rest⟩ <;> cases dialect <;> rfl

/-- **The logical lines of a text are those of the grammar.** -/
theorem isLogical_logicalLines (dialect : Dialect) (text : String) :
    IsLogical dialect text (logicalLines dialect false text) := by
  rw [logicalLines_eq]
  cases dialect with
  | any => rfl
  | httpd => exact joined_joinContinued _

/-- The lines that are left after a logical line are the last of those before. -/
lemma Continues.suffix {lines rest : List (List Char × Nat)} {content : List Char}
    (h : Continues lines content rest) : rest <:+ lines := by
  induction h with
  | atEnd => exact List.suffix_rfl
  | last _ => exact List.suffix_cons _ _
  | more _ _ ih => exact ih.trans (List.suffix_cons _ _)

/-- The number of a logical line is that of a physical one. -/
lemma Joined.exists_mem {lines : List (List Char × Nat)} {ls : List (Nat × List Char)}
    (h : Joined lines ls) {l : Nat × List Char} (hl : l ∈ ls) : ∃ line, (line, l.1) ∈ lines := by
  induction h with
  | nil => cases hl
  | single _ _ ih =>
    rcases List.mem_cons.1 hl with rfl | hl
    · exact ⟨_, List.mem_cons_self⟩
    · obtain ⟨line, hline⟩ := ih hl
      exact ⟨line, List.mem_cons_of_mem _ hline⟩
  | run _ hc _ ih =>
    rcases List.mem_cons.1 hl with rfl | hl
    · exact ⟨_, List.mem_cons_self⟩
    · obtain ⟨line, hline⟩ := ih hl
      exact ⟨line, List.mem_cons_of_mem _ (hc.suffix.mem hline)⟩

/-- There is no line 0. -/
lemma IsLogical.ne_zero {dialect : Dialect} {text : String} {ls : List (Nat × List Char)}
    (h : IsLogical dialect text ls) {l : Nat × List Char} (hl : l ∈ ls) : l.1 ≠ 0 := by
  obtain ⟨line, hline⟩ : ∃ line, (line, l.1) ∈ (Text.lineList text.toList).zipIdx 1 := by
    cases dialect with
    | any =>
      rw [show ls = _ from h, List.mem_map] at hl
      obtain ⟨⟨line, n⟩, hline, rfl⟩ := hl
      exact ⟨line, hline⟩
    | httpd => exact Joined.exists_mem h hl
  have hle := List.le_snd_of_mem_zipIdx hline
  dsimp only at hle
  omega

/-! ### Includes between labels -/

/-- What follows an include token has this target, and this follows the target. -/
inductive HasTarget : List Char → List Char → List Char → Prop where
  | quoted {quoted rest : List Char} :
    '"' ∉ quoted → HasTarget ('"' :: (quoted ++ '"' :: rest)) (Text.strip quoted) rest
  | unclosed {quoted : List Char} :
    '"' ∉ quoted → HasTarget ('"' :: quoted) (Text.strip quoted) []
  | bare {cs : List Char} : cs.head? ≠ some '"' → HasTarget cs (Text.strip cs) []

/-- A trimmed line has these pieces: where an include token occurs first, the text
before it, unless that is blank, and the target after it; and then the pieces of
what follows the target. -/
inductive Cut : List Char → List Piece → Prop where
  | nil : Cut [] []
  | plain {cs : List Char} : cs ≠ [] → ¬ includeToken <:+: cs → Cut cs [.text cs]
  | atFront {before after target rest : List Char} {ps : List Piece} :
    ¬ includeToken <:+: before → Text.strip before = [] →
    HasTarget (Text.stripStart after) target rest → target ≠ [] → Cut (Text.strip rest) ps →
    Cut (before ++ includeToken ++ after) (.target target :: ps)
  | afterText {before after target rest : List Char} {ps : List Piece} :
    ¬ includeToken <:+: before → Text.strip before ≠ [] →
    HasTarget (Text.stripStart after) target rest → target ≠ [] → Cut (Text.strip rest) ps →
    Cut (before ++ includeToken ++ after)
      (.text (Text.strip before) :: .target target :: ps)

/-- The target that is split off stands at the start of the text. -/
lemma hasTarget_splitTarget (cs : List Char) :
    HasTarget cs (splitTarget cs).1 (splitTarget cs).2 := by
  unfold splitTarget
  split
  · next quoted =>
    cases hbreak : Text.breakOn? ['"'] quoted with
    | none =>
      have hno := Text.breakOn?_eq_none hbreak
      rw [List.singleton_infix_iff] at hno
      exact .unclosed hno
    | some cut =>
      obtain ⟨target, rest⟩ := cut
      obtain ⟨rfl, hfirst⟩ := Text.breakOn?_eq_some (List.cons_ne_nil _ _) hbreak
      rw [List.singleton_infix_iff] at hfirst
      rw [List.append_assoc, List.singleton_append]
      exact .quoted hfirst
  · next hne =>
    refine .bare fun hhead => ?_
    obtain ⟨rest, rfl⟩ := List.head?_eq_some_iff.1 hhead
    exact hne rest rfl

/-- There are no pieces of nothing. -/
@[simp] lemma pieces_nil : pieces [] = [] := by
  rw [pieces]
  rfl

/-- A text without an include is one piece. -/
lemma pieces_of_none {cs : List Char} (hne : cs ≠ [])
    (hnone : Text.breakOn? includeToken cs = none) : pieces cs = [.text cs] := by
  rw [pieces, if_neg (by simpa using hne)]
  split
  · rfl
  · next heq =>
    rw [hnone] at heq
    cases heq

/-- A text with an include is cut before it, and again behind its target. -/
lemma pieces_of_some {cs before after : List Char} (hne : cs ≠ [])
    (hsome : Text.breakOn? includeToken cs = some (before, after)) :
    pieces cs =
      (if (Text.strip before).isEmpty then [] else [.text (Text.strip before)]) ++
        .target (splitTarget (Text.stripStart after)).1 ::
          (if (splitTarget (Text.stripStart after)).1.isEmpty then []
          else pieces (Text.strip (splitTarget (Text.stripStart after)).2)) := by
  rw [pieces, if_neg (by simpa using hne)]
  split
  · next heq =>
    rw [hsome] at heq
    cases heq
  · next heq =>
    rw [hsome] at heq
    cases heq
    rfl

/-- **The pieces of a line are those of the grammar**, if no target is missing.

**Proof sketch.** Induction on the length, from one include token to the next. -/
theorem cut_pieces (cs : List Char) (h : ∀ path, .target path ∈ pieces cs → path ≠ []) :
    Cut cs (pieces cs) := by
  induction hlen : cs.length using Nat.strongRecOn generalizing cs with
  | ind k ih =>
    by_cases hne : cs = []
    · subst hne
      rw [pieces_nil]
      exact .nil
    · cases hbreak : Text.breakOn? includeToken cs with
      | none =>
        rw [pieces_of_none hne hbreak]
        exact .plain hne (Text.breakOn?_eq_none hbreak)
      | some cut =>
        obtain ⟨before, after⟩ := cut
        have hlen' := Text.breakOn?_length hbreak
        obtain ⟨rfl, hfirst⟩ := Text.breakOn?_eq_some (by decide) hbreak
        rw [pieces_of_some hne hbreak] at h ⊢
        have htarget := hasTarget_splitTarget (Text.stripStart after)
        have hshort := splitTarget_length (Text.stripStart after)
        generalize splitTarget (Text.stripStart after) = cut at h htarget hshort ⊢
        obtain ⟨target, rest⟩ := cut
        have hfull : target ≠ [] := h target (by simp)
        have hempty : target.isEmpty = false := List.isEmpty_eq_false_iff.2 hfull
        simp only [hempty, Bool.false_eq_true, if_false] at h htarget hshort ⊢
        have hrest : Cut (Text.strip rest) (pieces (Text.strip rest)) := by
          refine ih (Text.strip rest).length ?_ _ (fun path hmem => h path ?_) rfl
          · have hstrip := Text.strip_length_le rest
            have hstart := Text.stripStart_length_le after
            have htoken : includeToken.length = 8 := rfl
            omega
          · simp [hmem]
        by_cases hfront : Text.strip before = []
        · rw [if_pos (by simpa using hfront)]
          exact .atFront hfirst hfront htarget hfull hrest
        · rw [if_neg (by simpa using hfront)]
          exact .afterText hfirst hfront htarget hfull hrest

/-- The target that stands at the start of a text is split off. -/
lemma splitTarget_of_hasTarget {cs target rest : List Char} (h : HasTarget cs target rest) :
    splitTarget cs = (target, rest) := by
  cases h with
  | @quoted quoted rest hq =>
    have hbreak := @Text.breakOn?_append '"' [] quoted List.not_mem_nil
      ((List.singleton_infix_iff '"' quoted).not.2 hq) rest
    rw [List.append_assoc, List.singleton_append] at hbreak
    simp only [splitTarget, hbreak]
  | @unclosed quoted hq =>
    have hbreak := Text.breakOn?_of_not_infix (List.cons_ne_nil '"' [])
      ((List.singleton_infix_iff '"' quoted).not.2 hq)
    simp only [splitTarget, hbreak]
  | bare hhead =>
    cases cs with
    | nil => rfl
    | cons c cs =>
      rw [splitTarget]
      rintro quoted h
      cases h
      exact hhead rfl

/-- **The grammar has no other pieces than those that are read.** -/
theorem pieces_of_cut {cs : List Char} {ps : List Piece} (h : Cut cs ps) : pieces cs = ps := by
  have hbreak : ∀ {before after : List Char}, ¬ includeToken <:+: before →
      Text.breakOn? includeToken (before ++ includeToken ++ after) = some (before, after) := by
    intro before after hfirst
    exact Text.breakOn?_append (by decide) hfirst after
  have hne : ∀ {before after : List Char}, before ++ includeToken ++ after ≠ [] := by
    intro before after hnil
    rw [List.append_eq_nil_iff, List.append_eq_nil_iff] at hnil
    exact absurd hnil.1.2 (by decide)
  induction h with
  | nil => exact pieces_nil
  | plain hcs htoken => exact pieces_of_none hcs (Text.breakOn?_of_not_infix (by decide) htoken)
  | atFront hfirst hblank htarget hfull _ ih =>
    rw [pieces_of_some hne (hbreak hfirst), splitTarget_of_hasTarget htarget,
      if_pos (by simpa using hblank), if_neg (by simpa using hfull), ih]
    rfl
  | afterText hfirst htext htarget hfull _ ih =>
    rw [pieces_of_some hne (hbreak hfirst), splitTarget_of_hasTarget htarget,
      if_neg (by simpa using htext), if_neg (by simpa using hfull), ih]
    rfl

/-- A line that starts with an include is not a comment. -/
lemma Cut.isMeaningful {cs target : List Char} {ps : List Piece}
    (h : Cut cs (.target target :: ps)) : isMeaningful cs = true := by
  cases h with
  | @atFront before after _ _ _ _ hblank _ _ _ =>
    cases before with
    | nil => rfl
    | cons b before =>
      have hb : b ≠ '#' := by
        rintro rfl
        rw [Text.strip, Text.stripStart, List.dropWhile_cons_of_neg (by decide),
          Text.stripEnd_cons] at hblank
        split at hblank
        · next hnone => exact absurd hnone.2 (by decide)
        · cases hblank
      simp [Include.isMeaningful, hb]

/-! ### Includes of the web server -/

/-- The text with a pair of equal quotes around it taken off, if there is one. -/
inductive Unquoted : List Char → List Char → Prop where
  | pair {q : Char} {inside : List Char} :
    q = '"' ∨ q = '\'' → Unquoted (q :: (inside ++ [q])) inside
  | bare {cs : List Char} :
    (∀ q inside, q = '"' ∨ q = '\'' → cs ≠ q :: (inside ++ [q])) → Unquoted cs cs

/-- A trimmed line of the web server includes this target: its first word is the
name of the directive in any letter case, and the target is what follows it. -/
inductive IsDirective : List Char → List Char → Prop where
  | intro {keyword rest target : List Char} :
    (∀ c ∈ keyword, Text.isBlank c = false) → (∀ c ∈ rest.head?, Text.isBlank c = true) →
    Text.sameLetters (String.ofList keyword) "Include" = true ∨
      Text.sameLetters (String.ofList keyword) "IncludeOptional" = true →
    Unquoted (Text.strip rest) target → IsDirective (keyword ++ rest) target

/-- What is left when quotation marks are taken off is the unquoted text. -/
lemma unquoted_unquotePair (cs : List Char) : Unquoted cs (unquotePair cs) := by
  cases cs with
  | nil => exact .bare fun q inside _ h => by cases h
  | cons q rest =>
    rw [unquotePair]
    by_cases hq : q = '"' ∨ q = '\''
    · rw [if_pos (by simpa using hq)]
      cases hlast : Text.beforeLast? q rest with
      | some inside =>
        rw [Text.beforeLast?_eq_some_iff.1 hlast]
        exact .pair hq
      | none =>
        refine .bare fun q' inside _ h => ?_
        cases h
        rw [Text.beforeLast?_eq_some_iff.2 rfl] at hlast
        cases hlast
    · rw [if_neg (by simpa using hq)]
      refine .bare fun q' inside hq' h => ?_
      cases h
      exact hq hq'

/-- The unquoted text is what is left when quotation marks are taken off. -/
lemma unquotePair_of_unquoted {cs target : List Char} (h : Unquoted cs target) :
    unquotePair cs = target := by
  cases h with
  | @pair q _ hq =>
    rw [unquotePair, if_pos (by simpa using hq), Text.beforeLast?_eq_some_iff.2 rfl,
      Option.getD_some]
  | bare hbare =>
    cases cs with
    | nil => rfl
    | cons q rest =>
      rw [unquotePair]
      split
      · next hq =>
        cases hlast : Text.beforeLast? q rest with
        | none => rfl
        | some inside =>
          rw [Text.beforeLast?_eq_some_iff.1 hlast] at hbare
          exact absurd rfl (hbare q inside (by simpa using hq))
      · rfl

/-- A line is its first word and what follows it. -/
lemma exists_keyword (cs : List Char) :
    ∃ keyword rest, cs = keyword ++ rest ∧ (∀ c ∈ keyword, Text.isBlank c = false) ∧
      ∀ c ∈ rest.head?, Text.isBlank c = true := by
  refine ⟨cs.takeWhile fun c => !Text.isBlank c, cs.dropWhile fun c => !Text.isBlank c,
    List.takeWhile_append_dropWhile.symm, fun c hc => ?_, fun c hc => ?_⟩
  · simpa using List.mem_takeWhile_imp hc
  · simpa [Option.mem_def.1 hc] using List.head?_dropWhile_not (fun c => !Text.isBlank c) cs

/-- The reader of directives looks at the first word of a line. -/
lemma directive?_append {keyword rest : List Char} (hword : ∀ c ∈ keyword, Text.isBlank c = false)
    (hrest : ∀ c ∈ rest.head?, Text.isBlank c = true) :
    directive? (keyword ++ rest) =
      if Text.sameLetters (String.ofList keyword) "IncludeOptional" then
        some ⟨true, unquotePair (Text.strip rest)⟩
      else if Text.sameLetters (String.ofList keyword) "Include" then
        some ⟨false, unquotePair (Text.strip rest)⟩
      else none := by
  have hfirst : (keyword ++ rest).takeWhile (fun c => !Text.isBlank c) = keyword := by
    rw [List.takeWhile_append_of_pos fun c hc => by simp [hword c hc]]
    cases rest with
    | nil => simp
    | cons c rest => simp [hrest c (by simp)]
  simp only [directive?, hfirst, List.drop_left]

/-- **An include directive that is read is one of the grammar.** -/
theorem isDirective_of_directive? {cs : List Char} {d : Directive} (h : directive? cs = some d) :
    IsDirective cs d.target := by
  obtain ⟨keyword, rest, rfl, hword, hrest⟩ := exists_keyword cs
  rw [directive?_append hword hrest] at h
  have hquote := unquoted_unquotePair (Text.strip rest)
  split at h
  · next hname =>
    cases h
    exact .intro hword hrest (.inr hname) hquote
  · split at h
    · next hname =>
      cases h
      exact .intro hword hrest (.inl hname) hquote
    · cases h

/-- **The grammar has no other directives than those that are read.** -/
theorem exists_directive?_of_isDirective {cs target : List Char} (h : IsDirective cs target) :
    ∃ isOptional, directive? cs = some ⟨isOptional, target⟩ := by
  obtain ⟨hword, hrest, hname, hquote⟩ := h
  rw [directive?_append hword hrest, unquotePair_of_unquoted hquote]
  rcases hname with hname | hname
  · rw [hname]
    split
    · exact ⟨true, rfl⟩
    · exact ⟨false, rfl⟩
  · rw [hname]
    exact ⟨true, rfl⟩

/-- A directive is not a comment. -/
lemma IsDirective.isMeaningful {cs target : List Char} (h : IsDirective cs target) :
    isMeaningful cs = true := by
  have hfirst : ∀ {c : Char} {keyword : List Char} {name : String},
      Text.sameLetters (String.ofList (c :: keyword)) name = true →
        name.toList.head?.map Char.toLower = some c.toLower := by
    intro c keyword name hname
    simp only [Text.sameLetters, Text.lower, String.toList_ofList, beq_iff_eq, String.ofList_inj,
      List.map_cons] at hname
    rw [← List.head?_map, ← hname]
    rfl
  cases h with
  | @intro keyword rest _ _ _ hname _ =>
    cases keyword with
    | nil => exact absurd hname (by decide)
    | cons c keyword =>
      have hc : c ≠ '#' := by
        rintro rfl
        rcases hname with hname | hname
        · exact absurd (hfirst hname) (by decide)
        · exact absurd (hfirst hname) (by decide)
      simp [Include.isMeaningful, hc]

end ProxyLint.Include
