import ProxyLint.Proofs.Include.Grammar
import ProxyLint.Proofs.Include.Shape

set_option relaxedAutoImplicit false
set_option autoImplicit false

/-!
# The contents of a text

The contents of a text are its logical lines, trimmed, less the blank ones. They
decide the shape of its script, and they are put together like the text itself:
where a line ends and is not continued, the contents of a text are those of what
stands before and those of what stands after.

## Main definitions

* `ProxyLint.Include.contents` — the contents of a text.
* `ProxyLint.Include.EndsOpen` — the last line of a text is continued.

## Main results

* `ProxyLint.Include.contents_append_of_front`,
  `ProxyLint.Include.contents_append_of_back` — contents of a text that is put
  together.
* `ProxyLint.Include.Resolver.shape_script_eq` — contents decide the shape of a
  script.
-/

namespace ProxyLint.Include

/-! ### Contents of lines -/

/-- The contents of the logical lines that physical lines make up. -/
def lineContents (dialect : Dialect) (lines : List (Nat × List Char)) : List (List Char) :=
  ((joinLines dialect lines).map fun l => Text.strip l.2).filter fun c => !c.isEmpty

/-- A run with one more line. -/
def Run.add (pending : Option Run) (n : Nat) (body : List Char) : Run :=
  match pending with
  | some r => { r with parts := (' ' :: Text.strip body) :: r.parts }
  | none => ⟨n, [Text.stripEnd body]⟩

/-- A line is joined to what is pending, and ends it unless it is continued itself. -/
lemma joinContinued_cons (pending : Option Run) (n : Nat) (line : List Char)
    (rest : List (Nat × List Char)) :
    joinContinued pending ((n, line) :: rest) =
      if (continuation line).2 then
        joinContinued (some (Run.add pending n (continuation line).1)) rest
      else (Run.add pending n (continuation line).1).line :: joinContinued none rest := by
  rw [joinContinued]
  rfl

/-- What joined lines hold depends on the lines only as far as they are trimmed at
their ends, and not on their numbers. -/
lemma map_snd_joinContinued {pending pending' : Option Run} {lines lines' : List (Nat × List Char)}
    (hpending : pending.map Run.parts = pending'.map Run.parts)
    (h : lines.map (fun l => Text.stripEnd l.2) = lines'.map fun l => Text.stripEnd l.2) :
    (joinContinued pending lines).map Prod.snd = (joinContinued pending' lines').map Prod.snd := by
  induction lines generalizing pending pending' lines' with
  | nil =>
    rw [List.map_nil] at h
    rw [List.map_eq_nil_iff.1 h.symm]
    cases pending <;> cases pending' <;> simp_all [joinContinued, Run.line]
  | cons l lines ih =>
    rw [List.map_cons] at h
    obtain ⟨l', rest', rfl, hl, hrest⟩ := List.map_eq_cons_iff.1 h.symm
    obtain ⟨n, line⟩ := l
    obtain ⟨n', line'⟩ := l'
    have hcont : continuation line' = continuation line := by
      unfold continuation
      rw [show Text.stripEnd line' = Text.stripEnd line from hl]
    have hadd : ∀ body, (Run.add pending n body).parts = (Run.add pending' n' body).parts := by
      intro body
      cases pending <;> cases pending' <;> simp_all [Run.add]
    rw [joinContinued_cons, joinContinued_cons, hcont]
    split
    · exact ih (congrArg some (hadd _)) hrest.symm
    · rw [List.map_cons, List.map_cons, ih rfl hrest.symm]
      simp only [Run.line, hadd]

/-- Lines after one that is not continued are joined on their own. -/
lemma joinContinued_append {pending : Option Run} {lines : List (Nat × List Char)}
    (hnil : lines = [] → pending = none) (hlast : ∀ l ∈ lines.getLast?, ¬ IsContinued l.2)
    (lines' : List (Nat × List Char)) :
    joinContinued pending (lines ++ lines') =
      joinContinued pending lines ++ joinContinued none lines' := by
  induction lines generalizing pending with
  | nil =>
    rw [hnil rfl]
    rfl
  | cons l lines ih =>
    obtain ⟨n, line⟩ := l
    have hlast' : ∀ l ∈ lines.getLast?, ¬ IsContinued l.2 := by
      intro l hl
      refine hlast l ?_
      rw [List.getLast?_cons, Option.mem_def.1 hl]
      rfl
    rw [List.cons_append, joinContinued_cons, joinContinued_cons]
    by_cases hline : IsContinued line
    · have hne : lines ≠ [] := by
        rintro rfl
        exact hlast (n, line) rfl hline
      obtain ⟨body, hbody⟩ := hline
      rw [continuation_of_continued hbody, if_pos rfl, if_pos rfl]
      exact ih (fun h => absurd h hne) hlast'
    · rw [continuation_of_not_continued hline, if_neg Bool.false_ne_true,
        if_neg Bool.false_ne_true, ih (fun _ => rfl) hlast', List.cons_append]

/-- Blanks at the ends of lines make no difference to the contents. -/
lemma lineContents_congr (dialect : Dialect) {lines lines' : List (Nat × List Char)}
    (h : lines.map (fun l => Text.stripEnd l.2) = lines'.map fun l => Text.stripEnd l.2) :
    lineContents dialect lines = lineContents dialect lines' := by
  have hstrip : ∀ ls : List (Nat × List Char), ls.map (fun l => Text.strip l.2) =
      (ls.map fun l => Text.stripEnd l.2).map Text.strip := by
    intro ls
    rw [List.map_map]
    exact List.map_congr_left fun l _ => (Text.strip_stripEnd l.2).symm
  have hsnd : ∀ ls : List (Nat × List Char), ls.map (fun l => Text.strip l.2) =
      (ls.map Prod.snd).map Text.strip := by
    intro ls
    rw [List.map_map]
    rfl
  unfold lineContents joinLines
  cases dialect with
  | any => dsimp only; rw [hstrip lines, hstrip lines', h]
  | httpd => dsimp only; rw [hsnd, map_snd_joinContinued rfl h, ← hsnd]

/-- The contents of lines in a row are the contents of both parts, unless the first is continued
into the second. -/
lemma lineContents_append (dialect : Dialect) {lines : List (Nat × List Char)}
    (hlast : dialect = .httpd → ∀ l ∈ lines.getLast?, ¬ IsContinued l.2)
    (lines' : List (Nat × List Char)) :
    lineContents dialect (lines ++ lines') =
      lineContents dialect lines ++ lineContents dialect lines' := by
  unfold lineContents joinLines
  cases dialect with
  | any => simp only [List.map_append, List.filter_append]
  | httpd =>
    simp only [joinContinued_append (fun _ => rfl) (hlast rfl), List.map_append,
      List.filter_append]

/-- A line that is not continued has its own content, unless it is blank. -/
lemma lineContents_singleton (dialect : Dialect) {l : Nat × List Char}
    (h : dialect = .httpd → ¬ IsContinued l.2) :
    lineContents dialect [l] = [Text.strip l.2].filter fun c => !c.isEmpty := by
  obtain ⟨n, line⟩ := l
  unfold lineContents joinLines
  cases dialect with
  | any => rfl
  | httpd =>
    dsimp only
    rw [joinContinued_cons, continuation_of_not_continued (h rfl), if_neg Bool.false_ne_true]
    simp only [Run.add, Run.line, joinContinued, Option.toList_none, List.map_nil, List.map_cons,
      List.reverse_singleton, List.flatten_singleton, Text.stripEnd_stripEnd, Text.strip_stripEnd]

/-- A blank line is not continued. -/
lemma not_isContinued_of_blank {line : List Char} (h : Text.stripEnd line = []) :
    ¬ IsContinued line := by
  rintro ⟨body, hbody⟩
  rw [h] at hbody
  simp at hbody

/-- Blank lines have no contents. -/
lemma lineContents_blank_append (dialect : Dialect) {lines : List (Nat × List Char)}
    (h : ∀ l ∈ lines, Text.stripEnd l.2 = []) (lines' : List (Nat × List Char)) :
    lineContents dialect (lines ++ lines') = lineContents dialect lines' := by
  induction lines with
  | nil => rfl
  | cons l lines ih =>
    have hl := h l List.mem_cons_self
    have hone : lineContents dialect [l] = [] := by
      have hstrip : Text.strip l.2 = [] := by
        rw [← Text.strip_stripEnd, hl]
        rfl
      rw [lineContents_singleton dialect fun _ => not_isContinued_of_blank hl, hstrip]
      rfl
    have hlast : dialect = .httpd → ∀ l' ∈ [l].getLast?, ¬ IsContinued l'.2 := by
      rintro - l' hl'
      cases hl'
      exact not_isContinued_of_blank hl
    rw [List.cons_append, ← List.singleton_append, lineContents_append dialect hlast, hone,
      List.nil_append, ih fun l' hl' => h l' (List.mem_cons_of_mem l hl')]

/-! ### Contents of texts -/

/-- The contents of a text. -/
def contents (dialect : Dialect) (cs : List Char) : List (List Char) :=
  lineContents dialect (numberedLines (String.ofList cs))

/-- The last physical line of a text is continued. -/
def EndsOpen (cs : List Char) : Prop :=
  ∃ line, (Text.lineList cs).getLast? = some line ∧ IsContinued line

/-- A text that starts with the end of a line, or is empty. -/
inductive StartsWithLineEnd : List Char → Prop where
  | nil : StartsWithLineEnd []
  | newline (rest : List Char) : StartsWithLineEnd ('\n' :: rest)
  | returnNewline (rest : List Char) : StartsWithLineEnd ('\r' :: '\n' :: rest)

/-- Numbering lines does not change them. -/
lemma map_numberedLines (f : List Char → List Char) (cs : List Char) :
    (numberedLines (String.ofList cs)).map (fun l => f l.2) = (Text.lineList cs).map f := by
  have hzip : ∀ (ls : List (List Char)) (n : Nat),
      (ls.zipIdx n).map (fun p => f p.1) = ls.map f := by
    intro ls
    induction ls with
    | nil => intro n; rfl
    | cons l ls ih => intro n; rw [List.zipIdx_cons, List.map_cons, List.map_cons, ih]
  rw [numberedLines, String.toList_ofList, List.map_map]
  exact hzip _ 1

/-- A text that does not end open ends in a line that is not continued. -/
lemma not_isContinued_of_not_endsOpen {cs : List Char} (h : ¬ EndsOpen cs) :
    ∀ l ∈ (numberedLines (String.ofList cs)).getLast?, ¬ IsContinued l.2 := by
  intro l hl hcont
  refine h ⟨l.2, ?_, hcont⟩
  have hlast := congrArg List.getLast? (map_numberedLines id cs)
  rw [List.getLast?_map, Option.mem_def.1 hl, List.map_id] at hlast
  exact hlast.symm

/-- Contents of a text whose lines, trimmed at their ends, are those of a first text,
blank lines and those of a second text. -/
lemma contents_eq_append {dialect : Dialect} {text as bs : List Char} {k : Nat}
    (hopen : dialect = .httpd → ¬ EndsOpen as)
    (h : (Text.lineList text).map Text.stripEnd = (Text.lineList as).map Text.stripEnd ++
      (List.replicate k [] ++ (Text.lineList bs).map Text.stripEnd)) :
    contents dialect text = contents dialect as ++ contents dialect bs := by
  have hcongr : (numberedLines (String.ofList text)).map (fun l => Text.stripEnd l.2) =
      (numberedLines (String.ofList as) ++ (List.replicate k ((0, []) : Nat × List Char) ++
        numberedLines (String.ofList bs))).map fun l => Text.stripEnd l.2 := by
    rw [map_numberedLines, h, List.map_append, List.map_append, map_numberedLines,
      map_numberedLines, List.map_replicate]
    rfl
  have hblank : ∀ l ∈ List.replicate k ((0, []) : Nat × List Char), Text.stripEnd l.2 = [] := by
    intro l hl
    rw [(List.mem_replicate.1 hl).2]
    rfl
  rw [contents, lineContents_congr dialect hcongr,
    lineContents_append dialect fun hd => not_isContinued_of_not_endsOpen (hopen hd),
    lineContents_blank_append dialect hblank]
  rfl

/-- The empty text does not end open. -/
lemma not_endsOpen_nil : ¬ EndsOpen [] := by
  rintro ⟨line, hline, -⟩
  cases hline

/-- **Contents of a text after a front that ends a line.** -/
theorem contents_append_of_front {dialect : Dialect} {as : List Char}
    (hfront : as = [] ∨ as.getLast? = some '\n') (hopen : dialect = .httpd → ¬ EndsOpen as)
    (bs : List Char) :
    contents dialect (as ++ bs) = contents dialect as ++ contents dialect bs := by
  refine @contents_eq_append _ _ _ _ 0 hopen ?_
  rw [Text.lineList_append hfront, List.map_append]
  rfl

/-- **Contents of a text before a back that ends a line.**

**Proof sketch.** By how the back starts. A line end in front of it ends the last line of the text
or adds a blank one (`Text.map_stripEnd_lineList_append`), and neither changes the contents
(`contents_eq_append`). -/
theorem contents_append_of_back {dialect : Dialect} {bs : List Char} (hback : StartsWithLineEnd bs)
    {as : List Char} (hopen : dialect = .httpd → ¬ EndsOpen as) :
    contents dialect (as ++ bs) = contents dialect as ++ contents dialect bs := by
  -- in both cases the line end adds at most a blank line to what stands before it
  have hnil : dialect = .httpd → ¬ EndsOpen [] := fun _ => not_endsOpen_nil
  cases hback with
  | nil =>
    rw [List.append_nil]
    cases dialect <;> exact (List.append_nil _).symm
  | newline rest =>
    have hrest : contents dialect ('\n' :: rest) = contents dialect [] ++ contents dialect rest :=
      @contents_eq_append _ _ _ _ 1 hnil rfl
    obtain ⟨k, hk⟩ := Text.map_stripEnd_lineList_append (.inl rfl) as
    rw [hrest]
    refine Eq.trans (@contents_eq_append _ _ as rest k hopen ?_) ?_
    · rw [Text.lineList_append_newline, List.map_append, hk, List.append_assoc]
    · cases dialect <;> rfl
  | returnNewline rest =>
    have hrest : contents dialect ('\r' :: '\n' :: rest) =
        contents dialect [] ++ contents dialect rest :=
      @contents_eq_append _ _ _ _ 1 hnil rfl
    obtain ⟨k, hk⟩ := Text.map_stripEnd_lineList_append (.inr rfl) as
    obtain ⟨k', hk'⟩ := Text.map_stripEnd_lineList_append (.inl rfl) (as ++ ['\r'])
    rw [hrest]
    refine Eq.trans (@contents_eq_append _ _ as rest (k + k') hopen ?_) ?_
    · rw [← List.singleton_append, ← List.append_assoc, Text.lineList_append_newline,
        List.map_append, hk', hk, ← List.replicate_append_replicate]
      simp only [List.append_assoc]
    · cases dialect <;> rfl

/-- The contents of one line that is neither blank nor continued. -/
lemma contents_line {dialect : Dialect} {line : List Char} (hline : '\n' ∉ line)
    (hopen : dialect = .httpd → ¬ IsContinued line) (hblank : Text.strip line ≠ []) :
    contents dialect line = [Text.strip line] := by
  have hne : line ≠ [] := by
    rintro rfl
    exact hblank rfl
  have hnumbered : numberedLines (String.ofList line) = [(1, line)] := by
    rw [numberedLines, String.toList_ofList, Text.lineList_eq_singleton hne hline]
    rfl
  rw [contents, hnumbered, lineContents_singleton dialect hopen]
  simpa using hblank

/-! ### Contents and scripts -/

namespace Resolver

variable {r : Resolver} {t : FileTree} {file : String} {includedFrom? : Option String}

/-- The shape of the actions of a line with this content. -/
def contentShape (r : Resolver) (t : FileTree) (file : String) (content : List Char) :
    List Shape :=
  (r.lineScript t file none (0, content)).map Action.shape

/-- The shape of a line depends on its stripped content alone. -/
lemma shape_lineScript_eq (line : Nat × List Char) :
    (r.lineScript t file includedFrom? line).map Action.shape =
      ([Text.strip line.2].filter fun c => !c.isEmpty).flatMap (r.contentShape t file) := by
  by_cases hblank : Text.strip line.2 = []
  · simp [lineScript, isMeaningful, hblank]
  · have hcontent : (r.lineScript t file includedFrom? line).map Action.shape =
        r.contentShape t file (Text.strip line.2) :=
      shape_lineScript (.refl file) (Text.strip_strip line.2).symm
    simp [hcontent, hblank]

/-- **The contents of a text decide the shape of its script.** -/
theorem shape_script_eq (hlink : r.linkText = false) (text : List Char) :
    (r.script t (String.ofList text) file includedFrom?).map Action.shape =
      (contents r.dialect text).flatMap (r.contentShape t file) := by
  rw [script, hlink, logicalLines_eq, contents, lineContents, List.map_flatMap]
  generalize joinLines r.dialect (numberedLines (String.ofList text)) = lines
  induction lines with
  | nil => rfl
  | cons l lines ih =>
    rw [List.flatMap_cons, shape_lineScript_eq, ih, ← List.flatMap_append, ← List.filter_append]
    rfl

end Resolver

end ProxyLint.Include
