import Mathlib.Data.List.Basic
import Mathlib.Data.List.DropRight
import ProxyLint.Text

set_option relaxedAutoImplicit false
set_option autoImplicit false

/-!
# Fields, blanks and lines

The laws of the small readers on characters: what a text is once it has been cut
into fields, trimmed, searched for a pattern or cut into lines.

## Main results

* `ProxyLint.Text.fields_append_slash`, `ProxyLint.Text.fields_joinWith` — fields of
  a text that is put together.
* `ProxyLint.Text.breakOn?_eq_some` — a pattern is found where it occurs first.
* `ProxyLint.Text.toLower_cases` — the characters that a change to lower case changes.
-/

namespace ProxyLint.Text

/-! ### Fields -/

/-- No piece of a list that has been split holds a separator. -/
lemma eq_false_of_mem_splitOnP {p : Char → Bool} {cs f : List Char} (hf : f ∈ cs.splitOnP p)
    {c : Char} (hc : c ∈ f) : p c = false := by
  induction cs generalizing f with
  | nil =>
    rw [List.splitOnP_nil, List.mem_singleton] at hf
    subst hf
    cases hc
  | cons a cs ih =>
    obtain ⟨g, gs, hg⟩ := List.exists_cons_of_ne_nil (List.splitOnP_ne_nil p cs)
    rw [hg] at ih
    rw [List.splitOnP_cons_eq_if_modifyHead, hg] at hf
    cases ha : p a with
    | true =>
      rw [ha, if_pos rfl] at hf
      rcases List.mem_cons.1 hf with rfl | hf
      · cases hc
      · exact ih hf hc
    | false =>
      rw [ha, if_neg Bool.false_ne_true, List.modifyHead_cons] at hf
      rcases List.mem_cons.1 hf with rfl | hf
      · rcases List.mem_cons.1 hc with rfl | hc
        · exact ha
        · exact ih List.mem_cons_self hc
      · exact ih (List.mem_cons_of_mem g hf) hc

/-- Every text has a field. -/
lemma fields_ne_nil (sep : Char) (s : String) : fields sep s ≠ [] := by
  simp [fields]

/-- No field of a path holds a slash. -/
lemma slash_notMem_of_mem_fields {s f : String} (hf : f ∈ fields '/' s) : '/' ∉ f.toList := by
  simp only [fields, List.mem_map] at hf
  obtain ⟨g, hg, rfl⟩ := hf
  intro hmem
  rw [String.toList_ofList] at hmem
  simpa using eq_false_of_mem_splitOnP hg hmem

/-- The fields of two texts with a separator between them. -/
lemma fields_append_mark {sep : Char} {mark : String} (hmark : mark.toList = [sep])
    (a b : String) : fields sep (a ++ mark ++ b) = fields sep a ++ fields sep b := by
  have h : (a ++ mark ++ b).toList = a.toList ++ sep :: b.toList := by
    simp [String.toList_append, hmark]
  rw [fields, h, List.splitOn_append_cons_self, List.map_append]
  rfl

/-- The fields of two texts with a slash between them. -/
lemma fields_append_slash (a b : String) :
    fields '/' (a ++ "/" ++ b) = fields '/' a ++ fields '/' b :=
  fields_append_mark rfl a b

/-- A text without a separator is its only field. -/
lemma fields_eq_singleton {sep : Char} {s : String} (h : sep ∉ s.toList) :
    fields sep s = [s] := by
  rw [fields, List.splitOn_eq_singleton h, List.map_singleton, String.ofList_toList]

/-- The first of several texts, and a separator in front of the rest. -/
lemma joinWith_cons (sep : String) (s : String) {ts : List String} (h : ts ≠ []) :
    joinWith sep (s :: ts) = s ++ sep ++ joinWith sep ts := by
  cases ts with
  | nil => exact absurd rfl h
  | cons t ts => rfl

/-- Texts are put together like the lists of their characters. -/
lemma toList_joinWith (sep : String) (ts : List String) :
    (joinWith sep ts).toList = sep.toList.intercalate (ts.map String.toList) := by
  induction ts with
  | nil => rfl
  | cons s ts ih =>
    by_cases hts : ts = []
    · subst hts
      simp [joinWith]
    · rw [joinWith_cons sep s hts, List.map_cons,
        List.intercalate_cons_of_ne_nil (by simpa using hts), ← ih, String.toList_append,
        String.toList_append]

/-- Texts without a separator are the fields of what they make with separators between
them. -/
lemma fields_joinWith_mark {sep : Char} {mark : String} (hmark : mark.toList = [sep])
    {ts : List String} (hne : ts ≠ []) (h : ∀ s ∈ ts, sep ∉ s.toList) :
    fields sep (joinWith mark ts) = ts := by
  rw [fields, toList_joinWith, hmark, List.splitOn_intercalate sep (by simpa using h)
    (by simpa using hne), List.map_map]
  exact (List.map_congr_left fun s _ => String.ofList_toList).trans (List.map_id ts)

/-- Texts without a slash are the fields of what they make with slashes between
them. -/
lemma fields_joinWith {ts : List String} (hne : ts ≠ []) (h : ∀ s ∈ ts, '/' ∉ s.toList) :
    fields '/' (joinWith "/" ts) = ts :=
  fields_joinWith_mark rfl hne h

/-- The fields of a path, with slashes between them, are the path. -/
lemma joinWith_fields (s : String) : joinWith "/" (fields '/' s) = s := by
  have hlists : (fields '/' s).map String.toList = s.toList.splitOn '/' := by
    rw [fields, List.map_map]
    exact (List.map_congr_left fun cs _ => String.toList_ofList).trans (List.map_id _)
  rw [← String.toList_inj, toList_joinWith, hlists]
  exact List.intercalate_splitOn '/'

/-! ### Blanks -/

/-- The end is stripped off as the library drops from the right. -/
lemma stripEnd_eq_rdropWhile (cs : List Char) : stripEnd cs = cs.rdropWhile isBlank := rfl

/-- Trimming the end twice is trimming it once. -/
@[simp] lemma stripEnd_stripEnd (cs : List Char) : stripEnd (stripEnd cs) = stripEnd cs := by
  simp only [stripEnd_eq_rdropWhile, List.rdropWhile_idempotent]

/-- A character in front is trimmed if it is a blank and nothing else is left. -/
lemma stripEnd_cons (c : Char) (cs : List Char) :
    stripEnd (c :: cs) =
      if stripEnd cs = [] ∧ isBlank c = true then [] else c :: stripEnd cs := by
  unfold stripEnd
  rw [List.reverse_cons, List.dropWhile_append]
  cases hrest : cs.reverse.dropWhile isBlank with
  | nil => cases hc : isBlank c <;> simp [hc]
  | cons d ds => simp

/-- What is trimmed at the end does not depend on blanks that are trimmed. -/
lemma stripEnd_cons_congr {cs cs' : List Char} (h : stripEnd cs = stripEnd cs') (c : Char) :
    stripEnd (c :: cs) = stripEnd (c :: cs') := by
  rw [stripEnd_cons, stripEnd_cons, h]

/-- It does not matter which end is trimmed first. -/
lemma strip_eq_stripStart_stripEnd (cs : List Char) : strip cs = stripStart (stripEnd cs) := by
  induction cs with
  | nil => rfl
  | cons c cs ih =>
    rw [stripEnd_cons]
    cases hc : isBlank c with
    | true =>
      have hstart : strip (c :: cs) = strip cs := by
        rw [strip, stripStart, List.dropWhile_cons_of_pos hc, strip, stripStart]
      rw [hstart, ih]
      split
      · next h => rw [h.1]
      · rw [stripStart, stripStart, List.dropWhile_cons_of_pos hc]
    | false =>
      have hc' : ¬ isBlank c = true := by rw [hc]; exact Bool.false_ne_true
      have hstart : strip (c :: cs) = stripEnd (c :: cs) := by
        rw [strip, stripStart, List.dropWhile_cons_of_neg hc']
      rw [hstart, stripEnd_cons, if_neg fun h => hc' h.2, if_neg fun h => Bool.false_ne_true h.2,
        stripStart, List.dropWhile_cons_of_neg hc']

/-- Texts that agree but for blanks at the end are stripped alike. -/
lemma strip_congr {cs cs' : List Char} (h : stripEnd cs = stripEnd cs') : strip cs = strip cs' := by
  rw [strip_eq_stripStart_stripEnd, strip_eq_stripStart_stripEnd, h]

/-- Blanks at the end may be stripped first. -/
@[simp] lemma strip_stripEnd (cs : List Char) : strip (stripEnd cs) = strip cs :=
  strip_congr (stripEnd_stripEnd cs)

/-- Trimming twice is trimming once. -/
@[simp] lemma strip_strip (cs : List Char) : strip (strip cs) = strip cs := by
  have hstart : stripStart (strip cs) = strip cs := by
    rw [strip_eq_stripStart_stripEnd, stripStart, stripStart, List.dropWhile_idempotent]
  rw [strip, hstart, strip, stripEnd_stripEnd]

/-- What is left after trimming does not start with a blank. -/
lemma isBlank_of_head?_strip {cs : List Char} {c : Char} (h : (strip cs).head? = some c) :
    isBlank c = false := by
  rw [strip_eq_stripStart_stripEnd, stripStart] at h
  have hhead := List.head?_dropWhile_not isBlank (stripEnd cs)
  rw [h] at hhead
  simpa using hhead

/-- What is left after trimming does not end with a blank. -/
lemma isBlank_of_getLast?_strip {cs : List Char} {c : Char} (h : (strip cs).getLast? = some c) :
    isBlank c = false := by
  rw [strip, stripEnd, List.getLast?_reverse] at h
  have hhead := List.head?_dropWhile_not isBlank (stripStart cs).reverse
  rw [h] at hhead
  simpa using hhead

/-- Without the blanks at its end a text is a prefix of itself. -/
lemma stripEnd_isPrefix (cs : List Char) : stripEnd cs <+: cs := by
  rw [stripEnd, ← List.reverse_suffix, List.reverse_reverse]
  exact List.dropWhile_suffix isBlank

/-- Without the blanks at its start a text is a suffix of itself. -/
lemma stripStart_isSuffix (cs : List Char) : stripStart cs <:+ cs :=
  List.dropWhile_suffix isBlank

/-- What is left after trimming stands in the text. -/
lemma strip_isInfix (cs : List Char) : strip cs <:+: cs :=
  (stripEnd_isPrefix (stripStart cs)).isInfix.trans (stripStart_isSuffix cs).isInfix

/-- A text that does not start with a blank is trimmed at its end only. -/
lemma strip_eq_stripEnd {cs : List Char} (h : ∀ c, cs.head? = some c → isBlank c = false) :
    strip cs = stripEnd cs := by
  cases cs with
  | nil => rfl
  | cons c cs =>
    have hc : ¬ isBlank c = true := by rw [h c rfl]; exact Bool.false_ne_true
    rw [strip, stripStart, List.dropWhile_cons_of_neg hc]

/-- The blanks at the end of a text. -/
def blankEnd (cs : List Char) : List Char :=
  (cs.reverse.takeWhile isBlank).reverse

/-- A text is put together again with the blanks at its end. -/
lemma stripEnd_append_blankEnd (cs : List Char) : stripEnd cs ++ blankEnd cs = cs := by
  rw [stripEnd, blankEnd, ← List.reverse_append, List.takeWhile_append_dropWhile,
    List.reverse_reverse]

/-- At the end of a text only blanks are stripped off. -/
lemma isBlank_of_mem_blankEnd {cs : List Char} {c : Char} (h : c ∈ blankEnd cs) :
    isBlank c = true := by
  rw [blankEnd, List.mem_reverse] at h
  exact List.mem_takeWhile_imp h

/-- Nothing before a character that is no blank is trimmed at the end. -/
lemma stripEnd_append_cons {c : Char} (hc : isBlank c = false) (as bs : List Char) :
    stripEnd (as ++ c :: bs) = as ++ c :: stripEnd bs := by
  induction as with
  | nil =>
    rw [List.nil_append, stripEnd_cons, if_neg fun h => Bool.false_ne_true (hc.symm.trans h.2)]
    rfl
  | cons a as ih =>
    have hne : as ++ c :: stripEnd bs ≠ [] := by simp
    rw [List.cons_append, stripEnd_cons, ih, if_neg fun h => hne h.1]
    rfl

/-- A text in front of a character that is no blank keeps its end. -/
lemma strip_append_cons {c : Char} (hc : isBlank c = false) (as bs : List Char)
    (h : strip as ≠ []) : strip (as ++ c :: bs) = strip as ++ blankEnd as ++ c :: stripEnd bs := by
  have hstart : stripStart as = strip as ++ blankEnd as := by
    have hsplit := stripEnd_append_blankEnd as
    rw [strip_eq_stripStart_stripEnd] at h ⊢
    nth_rewrite 1 [← hsplit]
    rw [stripStart, List.dropWhile_append, if_neg (by simpa [stripStart] using h)]
    rfl
  have hne : stripStart as ≠ [] := by
    rw [hstart]
    exact fun hnil => h (List.append_eq_nil_iff.1 hnil).1
  rw [strip, stripStart, List.dropWhile_append, if_neg (by simpa [stripStart] using hne)]
  rw [show as.dropWhile isBlank = stripStart as from rfl, stripEnd_append_cons hc, hstart]

/-- Only blanks are trimmed away altogether. -/
lemma stripStart_eq_nil_of_strip {cs : List Char} (h : strip cs = []) : stripStart cs = [] := by
  cases hstart : stripStart cs with
  | nil => rfl
  | cons c rest =>
    have hhead := List.head?_dropWhile_not isBlank cs
    rw [show cs.dropWhile isBlank = c :: rest from hstart] at hhead
    have hc : isBlank c = false := by simpa using hhead
    rw [strip, hstart, ← List.nil_append (c :: rest), stripEnd_append_cons hc] at h
    cases h

/-- Blanks in front of a character that is no blank are trimmed. -/
lemma strip_append_cons_of_blank {c : Char} (hc : isBlank c = false) (as bs : List Char)
    (h : strip as = []) : strip (as ++ c :: bs) = c :: stripEnd bs := by
  have hblank : as.dropWhile isBlank = [] := stripStart_eq_nil_of_strip h
  have hc' : ¬ isBlank c = true := by rw [hc]; exact Bool.false_ne_true
  rw [strip, stripStart, List.dropWhile_append, hblank]
  rw [List.isEmpty_nil, if_pos rfl, List.dropWhile_cons_of_neg hc', ← List.nil_append (c :: bs),
    stripEnd_append_cons hc, List.nil_append]

/-! ### Words -/

/-- A blank ends a word, so that the words on its two sides are read apart. -/
lemma wordList_append_cons {c : Char} (hc : isBlank c = true) (as bs : List Char) :
    wordList (as ++ c :: bs) = wordList as ++ wordList bs := by
  rw [wordList, List.splitOnP_append_cons _ _ hc, List.filter_append]
  rfl

/-- A blank at the start belongs to no word. -/
lemma wordList_cons {c : Char} (hc : isBlank c = true) (cs : List Char) :
    wordList (c :: cs) = wordList cs :=
  wordList_append_cons hc [] cs

/-- Words end at a blank. -/
lemma wordList_append {bs : List Char} (h : ∀ c ∈ bs.head?, isBlank c = true) (as : List Char) :
    wordList (as ++ bs) = wordList as ++ wordList bs := by
  cases bs with
  | nil => rw [List.append_nil, show wordList [] = [] from rfl, List.append_nil]
  | cons c bs => rw [wordList_append_cons (h c rfl), wordList_cons (h c rfl)]

/-- Blanks hold no words. -/
lemma wordList_of_blank {cs : List Char} (h : ∀ c ∈ cs, isBlank c = true) : wordList cs = [] := by
  induction cs with
  | nil => rfl
  | cons c cs ih =>
    rw [wordList_cons (h c List.mem_cons_self)]
    exact ih fun d hd => h d (List.mem_cons_of_mem c hd)

/-- Blanks at the end belong to no word. -/
@[simp] lemma wordList_stripEnd (cs : List Char) : wordList (stripEnd cs) = wordList cs := by
  have hblank : ∀ c ∈ blankEnd cs, isBlank c = true := fun c hc => isBlank_of_mem_blankEnd hc
  conv_rhs => rw [← stripEnd_append_blankEnd cs]
  rw [wordList_append (fun c hc => hblank c (List.mem_of_mem_head? hc)), wordList_of_blank hblank,
    List.append_nil]

/-- Blanks at the start belong to no word. -/
@[simp] lemma wordList_stripStart (cs : List Char) : wordList (stripStart cs) = wordList cs := by
  induction cs with
  | nil => rfl
  | cons c cs ih =>
    by_cases hc : isBlank c = true
    · rw [stripStart, List.dropWhile_cons_of_pos hc, wordList_cons hc]
      exact ih
    · rw [stripStart, List.dropWhile_cons_of_neg hc]

/-- Trimming does not change the words. -/
@[simp] lemma wordList_strip (cs : List Char) : wordList (strip cs) = wordList cs := by
  rw [strip, wordList_stripEnd, wordList_stripStart]

/-! ### Lines -/

/-- A character that ends no line is the first of the first line. -/
lemma lineList_cons {c : Char} {cs : List Char} (hc : c ≠ '\n')
    (hcr : ∀ rest, c = '\r' → cs = '\n' :: rest → False) :
    lineList (c :: cs) =
      match lineList cs with
      | [] => [[c]]
      | line :: others => (c :: line) :: others :=
  lineList.eq_4 c cs hc hcr

/-- Lines are read character by character: an end of a line, or a character that is
not at one. -/
lemma lineInduction {motive : List Char → Prop} (cs : List Char) (nil : motive [])
    (newline : ∀ rest, motive rest → motive ('\n' :: rest))
    (returnNewline : ∀ rest, motive rest → motive ('\r' :: '\n' :: rest))
    (other : ∀ c rest, c ≠ '\n' → (∀ rest', c = '\r' → rest = '\n' :: rest' → False) →
      motive rest → motive (c :: rest)) : motive cs := by
  induction cs using lineList.induct with
  | case1 => exact nil
  | case2 rest ih => exact newline rest ih
  | case3 rest ih => exact returnNewline rest ih
  | case4 c rest hc hcr _ ih => exact other c rest hc hcr ih
  | case5 c rest hc hcr _ _ _ ih => exact other c rest hc hcr ih

/-- A text that is not empty has lines. -/
lemma lineList_ne_nil {cs : List Char} (h : cs ≠ []) : lineList cs ≠ [] := by
  induction cs using lineInduction with
  | nil => exact absurd rfl h
  | newline rest _ => simp [lineList]
  | returnNewline rest _ => simp [lineList]
  | other c rest hc hcr _ =>
    rw [lineList_cons hc hcr]
    split <;> simp

/-- A line feed ends a line, and the next one starts after it. -/
lemma lineList_append_newline (as bs : List Char) :
    lineList (as ++ '\n' :: bs) = lineList (as ++ ['\n']) ++ lineList bs := by
  induction as using lineInduction with
  | nil => simp [lineList]
  | newline rest ih => simp [lineList, ih]
  | returnNewline rest ih => simp [lineList, ih]
  | other c rest hc hcr ih =>
    cases rest with
    | nil =>
      by_cases hr : c = '\r'
      · subst hr
        simp [lineList]
      · simp [lineList_cons hc fun _ h => absurd h hr, lineList]
    | cons d rest =>
      have hcr' : ∀ tail rest', c = '\r' → d :: (rest ++ tail) = '\n' :: rest' → False := by
        intro tail rest' hr hd
        cases hd
        exact hcr rest hr rfl
      obtain ⟨l, ls, hl⟩ := List.exists_cons_of_ne_nil
        (lineList_ne_nil (List.cons_ne_nil d (rest ++ ['\n'])))
      rw [List.cons_append, List.cons_append] at ih
      rw [List.cons_append, List.cons_append, List.cons_append, List.cons_append,
        lineList_cons hc (hcr' _), lineList_cons hc (hcr' _), ih, hl]
      rfl

/-- Lines of a text whose front ends a line, or is empty. -/
lemma lineList_append {as : List Char} (h : as = [] ∨ as.getLast? = some '\n') (bs : List Char) :
    lineList (as ++ bs) = lineList as ++ lineList bs := by
  rcases h with rfl | h
  · rfl
  · obtain ⟨front, rfl⟩ := List.getLast?_eq_some_iff.1 h
    rw [List.append_assoc, List.singleton_append, lineList_append_newline]

/-- A line without a line feed is one line. -/
lemma lineList_eq_singleton {cs : List Char} (hne : cs ≠ []) (h : '\n' ∉ cs) :
    lineList cs = [cs] := by
  induction cs with
  | nil => exact absurd rfl hne
  | cons c cs ih =>
    have hc : c ≠ '\n' := fun hc => h (hc ▸ List.mem_cons_self)
    have hcs : '\n' ∉ cs := fun hcs => h (List.mem_cons_of_mem c hcs)
    have hcr : ∀ rest, c = '\r' → cs = '\n' :: rest → False := by
      rintro rest - rfl
      exact hcs List.mem_cons_self
    rw [lineList_cons hc hcr]
    by_cases hempty : cs = []
    · subst hempty
      rfl
    · rw [ih hempty hcs]

/-- With its line feed, a line is still one line, but for a carriage return at its end. -/
lemma exists_lineList_append_newline {cs : List Char} (h : '\n' ∉ cs) :
    ∃ line, lineList (cs ++ ['\n']) = [line] ∧ stripEnd line = stripEnd cs := by
  induction cs with
  | nil => exact ⟨[], rfl, rfl⟩
  | cons c cs ih =>
    have hc : c ≠ '\n' := fun hc => h (hc ▸ List.mem_cons_self)
    have hcs : '\n' ∉ cs := fun hcs => h (List.mem_cons_of_mem c hcs)
    by_cases hreturn : c = '\r' ∧ cs = []
    · obtain ⟨rfl, rfl⟩ := hreturn
      exact ⟨[], by decide, by decide⟩
    · obtain ⟨line, hline, hstrip⟩ := ih hcs
      have hcr : ∀ rest, c = '\r' → cs ++ ['\n'] = '\n' :: rest → False := by
        intro rest hr heq
        cases cs with
        | nil => exact hreturn ⟨hr, rfl⟩
        | cons d cs =>
          cases heq
          exact hcs List.mem_cons_self
      refine ⟨c :: line, ?_, stripEnd_cons_congr hstrip c⟩
      rw [List.cons_append, lineList_cons hc hcr, hline]

/-- A line end at the end of a text ends its last line or adds a blank one.

**Proof sketch.** Induction along the lines. Only the last character matters: a carriage return in
front of a newline is part of the line end, and in any other place it is a blank at the end of a
line. -/
lemma map_stripEnd_lineList_append {c : Char} (hc : c = '\n' ∨ c = '\r') (cs : List Char) :
    ∃ k, (lineList (cs ++ [c])).map stripEnd =
      (lineList cs).map stripEnd ++ List.replicate k [] := by
  induction cs using lineInduction with
  | nil =>
    refine ⟨1, ?_⟩
    rcases hc with rfl | rfl <;> decide
  | newline rest ih =>
    obtain ⟨k, hk⟩ := ih
    exact ⟨k, by simp [lineList, hk]⟩
  | returnNewline rest ih =>
    obtain ⟨k, hk⟩ := ih
    exact ⟨k, by simp [lineList, hk]⟩
  | other d rest hd hdr ih =>
    cases rest with
    | nil =>
      refine ⟨0, ?_⟩
      by_cases hdc : d = '\r' ∧ c = '\n'
      · obtain ⟨rfl, rfl⟩ := hdc
        decide
      · have hlast : ∃ l, lineList [c] = [l] ∧ stripEnd l = [] := by
          rcases hc with rfl | rfl
          · exact ⟨[], rfl, rfl⟩
          · exact ⟨['\r'], by decide, by decide⟩
        obtain ⟨l, hl, hstrip⟩ := hlast
        have hdc' : ∀ rest, d = '\r' → [c] = '\n' :: rest → False := by
          intro rest hr hn
          cases hn
          exact hdc ⟨hr, rfl⟩
        rw [List.singleton_append, lineList_cons hd hdc', lineList_cons hd hdr, hl]
        have hcongr : stripEnd (d :: l) = stripEnd [d] := stripEnd_cons_congr hstrip d
        simp [lineList, hcongr]
    | cons e rest =>
      obtain ⟨k, hk⟩ := ih
      obtain ⟨l, ls, hl⟩ := List.exists_cons_of_ne_nil (lineList_ne_nil (List.cons_ne_nil e rest))
      obtain ⟨l', ls', hl'⟩ := List.exists_cons_of_ne_nil
        (lineList_ne_nil (List.cons_ne_nil e (rest ++ [c])))
      have hdr' : ∀ rest', d = '\r' → e :: (rest ++ [c]) = '\n' :: rest' → False := by
        intro rest' hr he
        cases he
        exact hdr rest hr rfl
      rw [List.cons_append, hl, hl', List.map_cons, List.map_cons, List.cons_append,
        List.cons.injEq] at hk
      refine ⟨k, ?_⟩
      rw [List.cons_append, List.cons_append, lineList_cons hd hdr', lineList_cons hd hdr, hl, hl',
        List.map_cons, List.map_cons, stripEnd_cons_congr hk.1 d, hk.2]
      rfl

/-! ### Searching -/

/-- What a text starts with, and a character does not occur in, ends before the character. -/
lemma prefix_of_prefix_append_cons {c : Char} {part : List Char} (hc : c ∉ part)
    {as bs : List Char} (h : part <+: as ++ c :: bs) : part <+: as := by
  induction as generalizing part with
  | nil =>
    rcases List.prefix_cons_iff.1 h with rfl | ⟨rest, rfl, -⟩
    · exact List.nil_prefix
    · exact absurd List.mem_cons_self hc
  | cons a as ih =>
    rcases List.prefix_cons_iff.1 h with rfl | ⟨rest, rfl, hrest⟩
    · exact List.nil_prefix
    · exact List.cons_prefix_cons.2 ⟨rfl, ih (fun hmem => hc (List.mem_cons_of_mem a hmem)) hrest⟩

/-- What occurs in a text, and a character does not occur in, stands before the character or
after it. -/
lemma infix_of_infix_append_cons {c : Char} {part : List Char} (hc : c ∉ part)
    {as bs : List Char} (h : part <:+: as ++ c :: bs) : part <:+: as ∨ part <:+: bs := by
  induction as with
  | nil =>
    rcases List.infix_cons_iff.1 h with hpre | hin
    · exact .inl (@prefix_of_prefix_append_cons c part hc [] bs hpre).isInfix
    · exact .inr hin
  | cons a as ih =>
    rcases List.infix_cons_iff.1 h with hpre | hin
    · exact .inl (@prefix_of_prefix_append_cons c part hc (a :: as) bs hpre).isInfix
    · exact (ih hin).imp_left fun hin => hin.trans (List.suffix_cons a as).isInfix

/-- A text is put together again from a prefix and what is left behind it. -/
lemma eq_append_of_after? {pre cs rest : List Char} (h : after? pre cs = some rest) :
    cs = pre ++ rest := by
  unfold after? at h
  split at h
  · next hp =>
    cases h
    exact (List.prefix_iff_eq_append.1 (List.isPrefixOf_iff_prefix.1 hp)).symm
  · cases h

/-- Nothing is left only where the text does not start with the prefix. -/
lemma after?_eq_none {pre cs : List Char} (h : after? pre cs = none) : ¬ pre <+: cs := by
  unfold after? at h
  split at h
  · cases h
  · next hp => rwa [← List.isPrefixOf_iff_prefix]

/-- A split is at the first occurrence: the pattern does not occur before it. -/
lemma breakOn?_eq_some {part cs before rest : List Char} (hne : part ≠ [])
    (h : breakOn? part cs = some (before, rest)) :
    cs = before ++ part ++ rest ∧ ¬ part <:+: before := by
  induction cs generalizing before with
  | nil => simp [breakOn?, hne] at h
  | cons c cs ih =>
    unfold breakOn? at h
    split at h
    · next r hr =>
      cases h
      exact ⟨eq_append_of_after? hr, by simpa using hne⟩
    · next hnone =>
      simp only [Option.map_eq_some_iff, Prod.exists, Prod.mk.injEq] at h
      obtain ⟨b, r, hb, rfl, rfl⟩ := h
      obtain ⟨rfl, hfirst⟩ := ih hb
      refine ⟨rfl, fun hin => ?_⟩
      rcases List.infix_cons_iff.1 hin with hpre | hin
      · refine after?_eq_none hnone (hpre.trans ?_)
        rw [List.append_assoc, ← List.cons_append]
        exact List.prefix_append _ _
      · exact hfirst hin

/-- There is no split only where the pattern does not occur. -/
lemma breakOn?_eq_none {part cs : List Char} (h : breakOn? part cs = none) :
    ¬ part <:+: cs := by
  induction cs with
  | nil =>
    have hne : part ≠ [] := by
      rintro rfl
      cases h
    simpa using hne
  | cons c cs ih =>
    unfold breakOn? at h
    split at h
    · cases h
    · next hnone =>
      rw [List.infix_cons_iff]
      exact not_or.2 ⟨after?_eq_none hnone, ih (Option.map_eq_none_iff.1 h)⟩

/-- A pattern that does not occur is not found. -/
lemma breakOn?_of_not_infix {part cs : List Char} (hne : part ≠ []) (h : ¬ part <:+: cs) :
    breakOn? part cs = none := by
  cases hbreak : breakOn? part cs with
  | none => rfl
  | some cut =>
    obtain ⟨before, rest⟩ := cut
    rw [(breakOn?_eq_some hne hbreak).1] at h
    exact absurd (List.infix_append before part rest) h

/-- A pattern whose first character does not occur in it again is found where it
occurs first.

**Proof sketch.** Induction on the text before. The pattern cannot start earlier: it would lie in
that text, or reach into the place where it occurs, and its first character would stand in it again.
-/
lemma breakOn?_append {c : Char} {part before : List Char} (hc : c ∉ part)
    (h : ¬ (c :: part) <:+: before) (rest : List Char) :
    breakOn? (c :: part) (before ++ c :: part ++ rest) = some (before, rest) := by
  induction before with
  | nil =>
    have hafter : after? (c :: part) (c :: part ++ rest) = some rest := by
      rw [after?, if_pos (List.isPrefixOf_iff_prefix.2 (List.prefix_append _ _)), List.drop_left]
    rw [List.nil_append, List.cons_append, breakOn?, ← List.cons_append, hafter]
  | cons b before ih =>
    have hnone : after? (c :: part) (b :: (before ++ c :: part ++ rest)) = none := by
      cases hafter : after? (c :: part) (b :: (before ++ c :: part ++ rest)) with
      | none => rfl
      | some rest' =>
        have heq := eq_append_of_after? hafter
        rw [List.cons_append, List.cons.injEq, List.append_assoc] at heq
        obtain ⟨rfl, heq⟩ := heq
        rcases List.append_eq_append_iff.1 heq with ⟨x, hpart, hx⟩ | ⟨x, hbefore, -⟩
        · -- the pattern would start in front of itself and reach into itself
          cases x with
          | nil =>
            rw [hpart, List.append_nil] at h
            exact absurd List.infix_rfl h
          | cons d x =>
            rw [List.cons_append, List.cons_append, List.cons.injEq] at hx
            rw [hpart, hx.1] at hc
            exact absurd (List.mem_append_right before List.mem_cons_self) hc
        · rw [hbefore, ← List.cons_append] at h
          exact absurd (List.prefix_append _ x).isInfix h
    rw [List.infix_cons_iff, not_or] at h
    rw [List.cons_append, List.cons_append, breakOn?, hnone, ih h.2]
    rfl

/-- A text that ends in a character is what stands before it and that character. -/
lemma beforeLast?_eq_some_iff {c : Char} {cs body : List Char} :
    beforeLast? c cs = some body ↔ cs = body ++ [c] := by
  unfold beforeLast?
  constructor
  · intro h
    split at h
    · next d hd =>
      split at h
      · next heq =>
        cases h
        rw [← beq_iff_eq.1 heq]
        exact (List.dropLast_append_getLast? d hd).symm
      · cases h
    · cases h
  · rintro rfl
    simp

/-- Nothing is dropped where no character is of the kind that is dropped. -/
lemma dropWhile_eq_self {p : Char → Bool} {cs : List Char} (h : ∀ c ∈ cs, p c = false) :
    cs.dropWhile p = cs := by
  cases cs with
  | nil => rfl
  | cons c cs => exact List.dropWhile_cons_of_neg (by simp [h c List.mem_cons_self])

/-- A text without blanks is not trimmed. -/
lemma strip_eq_self {cs : List Char} (h : ∀ c ∈ cs, isBlank c = false) : strip cs = cs := by
  have hreverse : cs.reverse.dropWhile isBlank = cs.reverse :=
    dropWhile_eq_self fun c hc => h c (List.mem_reverse.1 hc)
  rw [strip, stripStart, dropWhile_eq_self h, stripEnd, hreverse, List.reverse_reverse]

/-! ### Letter case -/

/-- The letters and digits of ASCII by number. -/
lemma isAlphanum_iff {c : Char} : c.isAlphanum = true ↔
    (65 ≤ c.toNat ∧ c.toNat ≤ 90 ∨ 97 ≤ c.toNat ∧ c.toNat ≤ 122) ∨
      48 ≤ c.toNat ∧ c.toNat ≤ 57 := by
  change ((decide (65 ≤ c.toNat ∧ c.toNat ≤ 90) ||
    decide (97 ≤ c.toNat) && decide (c.toNat ≤ 122)) ||
    decide (48 ≤ c.toNat) && decide (c.toNat ≤ 57)) = true ↔ _
  simp only [Bool.or_eq_true, Bool.and_eq_true, decide_eq_true_iff]

/-- Only the capital letters of ASCII have a lower case. -/
lemma toLower_cases (c : Char) : c.toLower = c ∨
    65 ≤ c.toNat ∧ c.toNat ≤ 90 ∧ c.toLower.toNat = c.toNat + 32 := by
  by_cases h : c.val ≥ 'A'.val ∧ c.val ≤ 'Z'.val
  · have hupper : 65 ≤ c.toNat ∧ c.toNat ≤ 90 := by
      simpa [UInt32.le_iff_toNat_le] using h
    have htoNat : c.toLower.toNat = (c.toNat + 32) % 2 ^ 32 := by
      unfold Char.toLower
      rw [dif_pos h]
      rfl
    rw [Nat.mod_eq_of_lt (by omega)] at htoNat
    exact .inr ⟨hupper.1, hupper.2, htoNat⟩
  · exact .inl (dif_neg h)

end ProxyLint.Text
