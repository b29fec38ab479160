import Mathlib.Data.List.Infix
import ProxyLint.Proofs.Any.Remark
import ProxyLint.Proofs.Any.Word

set_option relaxedAutoImplicit false
set_option autoImplicit false

/-!
# The layout of a line

A line of nested labels is its symbols as they are written, with blanks around them and a remark
at its end. It is read pass by pass, and each pass takes blanks or one symbol off the front. So
nothing of the line is lost but the blanks and the remark, and the symbols are read again when
they are written down with one blank between them.

## Main definitions

* `ProxyLint.Any.Symbol.spelling` — a symbol as it is written.
* `ProxyLint.Any.Reads` — a symbol at the front of a text, and what is left behind it.
* `ProxyLint.Any.Scans` — a text is read in passes, each of which takes a piece off its front.
* `ProxyLint.Any.IsLayout` — a text is made of symbols, blanks and a remark.

## Main results

* `ProxyLint.Any.exists_scans`, `ProxyLint.Any.scan_of_scans` — the passes over a line.
* `ProxyLint.Any.Scans.isLayout` — what is read in passes is made of what has been read.
* `ProxyLint.Any.Scans.scan_print` — printed symbols are read again.
* `ProxyLint.Any.lineTokens_lossless` — all of this for the tokens of a line.
-/

namespace ProxyLint.Any

open Text

/-! ### Symbols as they are written -/

/-- A symbol as it is written. -/
def Symbol.spelling : Symbol → String
  | .label name => "/" ++ name
  | .value text => text
  | .opening => "\x7b"
  | .closing => "\x7d"

/-- Symbols in a row with one blank between neighbours. -/
def print (ss : List Symbol) : String :=
  joinWith " " (ss.map Symbol.spelling)

/-- The two quotes. -/
def IsQuote (c : Char) : Prop :=
  c = '"' ∨ c = '\''

/-- A quoted run without its closing quote. -/
def IsUnclosed (text : String) : Prop :=
  ∃ q run, IsQuote q ∧ text.toList = q :: run ∧ q ∉ run

/-- The characters that start a word which is a value. -/
structure StartsWord (c : Char) : Prop where
  not_blank : isBlank c = false
  ne_remark : c ≠ '#'
  ne_opening : c ≠ '{'
  ne_closing : c ≠ '}'
  not_quote : ¬ IsQuote c
  ne_slash : c ≠ '/'

/-- A symbol stands at the front of a text: `Reads cs s rest` says that `s` is the first symbol of
`cs`, without blanks before it, and that `rest` is left behind it. -/
inductive Reads : List Char → Symbol → List Char → Prop where
  | opening (rest : List Char) : Reads ('{' :: rest) .opening rest
  | closing (rest : List Char) : Reads ('}' :: rest) .closing rest
  | quoted {q : Char} {inner : List Char} (rest : List Char) : IsQuote q → q ∉ inner →
    Reads (q :: (inner ++ q :: rest)) (.value (String.ofList (q :: (inner ++ [q])))) rest
  | label (cs : List Char) :
    Reads ('/' :: cs) (.label (String.ofList (splitWord false cs).1)) (splitWord false cs).2
  | word {c : Char} (cs : List Char) : StartsWord c →
    Reads (c :: cs) (.value (String.ofList (splitWord false (c :: cs)).1))
      (splitWord false (c :: cs)).2

/-- A text is read in passes: `Scans cs found taken` says that `found` is what is found in `cs`, and
that the passes take the pieces `taken` off its front, one after the other. A remark ends the text,
and so does a quoted run that lacks its closing quote. -/
inductive Scans : List Char → Scan → List (List Char) → Prop where
  | finish : Scans [] {} []
  | remark (cs : List Char) : Scans ('#' :: cs) {} []
  | unmatched {q : Char} {run : List Char} : IsQuote q → q ∉ run →
    Scans (q :: run) ⟨[.value (String.ofList (stripEnd (q :: run)))], some (q :: run)⟩ [q :: run]
  | skip {c : Char} {blanks cs : List Char} {found : Scan} {taken : List (List Char)} :
    (∀ b ∈ c :: blanks, isBlank b = true) → (∀ d, cs.head? = some d → isBlank d = false) →
    Scans cs found taken → Scans (c :: blanks ++ cs) found ((c :: blanks) :: taken)
  | read {cs rest : List Char} {s : Symbol} {found : Scan} {taken : List (List Char)} :
    Reads cs s rest → Scans rest found taken →
    Scans cs (found.cons s) (s.spelling.toList :: taken)

/-- A text is made of symbols, in order, with blanks around them, and of a remark at its end, if
there is one. -/
def IsLayout (cs : List Char) (ss : List Symbol) : Prop :=
  ∃ (gap : List Char) (parts : List (Symbol × List Char)) (remark : List Char),
    cs = gap ++ parts.flatMap (fun p => p.1.spelling.toList ++ p.2) ++ remark ∧
      parts.map Prod.fst = ss ∧ (∀ c ∈ gap, isBlank c = true) ∧
      (∀ p ∈ parts, p.1.spelling ≠ "" ∧ ∀ c ∈ p.2, isBlank c = true) ∧
      (remark = [] ∨ remark.head? = some '#')

/-! ### The symbol at the front -/

/-- A character that starts a word does not end one. -/
lemma StartsWord.endsWord_eq_false {c : Char} (h : StartsWord c) : endsWord c = false := by
  rw [Bool.eq_false_iff, ne_eq, endsWord_iff]
  intro hmem
  simp only [wordEnders, List.mem_cons, List.not_mem_nil, or_false] at hmem
  have hblank := h.not_blank
  rcases hmem with rfl | rfl | rfl | rfl | rfl | rfl | rfl | rfl | rfl | rfl
  · exact h.ne_opening rfl
  · exact h.ne_closing rfl
  · exact h.not_quote (.inl rfl)
  · exact h.not_quote (.inr rfl)
  · exact h.ne_remark rfl
  all_goals exact absurd hblank (by decide)

/-- A word holds the character that starts it. -/
lemma StartsWord.splitWord_cons {c : Char} (h : StartsWord c) (cs : List Char) :
    splitWord false (c :: cs) = (c :: (splitWord (opensReference c cs) cs).1,
      (splitWord (opensReference c cs) cs).2) := by
  rw [splitWord, if_neg Bool.false_ne_true, h.endsWord_eq_false, Bool.and_false,
    if_neg Bool.false_ne_true]

/-- Nothing in front of a quote is trimmed at the end, nor is the quote. -/
lemma IsQuote.stripEnd_cons {q : Char} (hq : IsQuote q) (run : List Char) :
    stripEnd (q :: run) = q :: stripEnd run := by
  have hblank : isBlank q = false := by
    rcases hq with rfl | rfl <;> decide
  exact stripEnd_append_cons hblank [] run

/-- Behind a quote the next one of its kind is looked for. -/
lemma scan_quote {q : Char} (hq : IsQuote q) (cs : List Char) :
    scan (q :: cs) =
      match breakOn? [q] cs with
      | some (inner, rest) => (scan rest).cons (.value (String.ofList (q :: inner ++ [q])))
      | none => ⟨[.value (String.ofList (stripEnd (q :: cs)))], some (q :: cs)⟩ := by
  rw [scan.eq_def]
  dsimp only
  rcases hq with rfl | rfl
  all_goals
    rw [if_neg (by decide), if_neg (by decide), if_neg (by decide), if_neg (by decide),
      if_pos (by decide)]
    split <;> simp_all

namespace Reads

variable {cs rest : List Char} {s : Symbol}

/-- What is read is the symbol as it is written. -/
lemma append_eq (h : Reads cs s rest) : s.spelling.toList ++ rest = cs := by
  cases h with
  | opening | closing => rfl
  | quoted => simp [Symbol.spelling]
  | label cs =>
    rw [Symbol.spelling, String.toList_append, List.append_assoc,
      @String.toList_ofList (splitWord false cs).1, splitWord_append]
    rfl
  | word cs hc => rw [Symbol.spelling, String.toList_ofList, splitWord_append]

/-- It is at least one character. -/
lemma spelling_ne_empty (h : Reads cs s rest) : s.spelling ≠ "" := by
  intro hempty
  have hcs := h.append_eq
  rw [hempty] at hcs
  cases h with
  | opening | closing => exact absurd hempty (by decide)
  | quoted | label => simp [Symbol.spelling, String.ext_iff] at hempty
  | word cs hc => simp [Symbol.spelling, String.ext_iff, hc.splitWord_cons] at hempty

/-- Each pass takes characters. -/
lemma length_lt (h : Reads cs s rest) : rest.length < cs.length := by
  have hcs := congrArg List.length h.append_eq
  have hne : s.spelling.toList.length ≠ 0 := by
    rw [ne_eq, List.length_eq_zero_iff, String.toList_eq_nil_iff]
    exact h.spelling_ne_empty
  rw [List.length_append] at hcs
  omega

/-- **The symbol at the front is read, and then what is left.** -/
theorem scan_eq (h : Reads cs s rest) : scan cs = (scan rest).cons s := by
  cases h with
  | opening => exact scan_opening rest
  | closing => exact scan_closing rest
  | @quoted q inner _ hq hinner =>
    have hbreak : breakOn? [q] (inner ++ q :: rest) = some (inner, rest) := by
      have hnot : ¬ [q] <:+: inner := fun hin => hinner (hin.subset List.mem_cons_self)
      have hfound := breakOn?_append List.not_mem_nil hnot rest
      rwa [List.append_assoc, List.singleton_append] at hfound
    rw [scan_quote hq]
    split
    · next inner' rest' hfound =>
      rw [hbreak] at hfound
      cases hfound
      rfl
    · next hfound =>
      rw [hbreak] at hfound
      cases hfound
  | label cs =>
    rw [scan.eq_def]
    dsimp only
    rw [if_neg (by decide), if_neg (by decide), if_neg (by decide), if_neg (by decide),
      if_neg (by decide), if_pos (by decide)]
  | @word c cs hc =>
    have hblank : ¬ isBlank c = true := by rw [hc.not_blank]; exact Bool.false_ne_true
    have hquote : ¬ (c == '"' || c == '\'') = true := by
      rw [Bool.or_eq_true, beq_iff_eq, beq_iff_eq]
      exact hc.not_quote
    rw [scan.eq_def, hc.splitWord_cons]
    dsimp only
    rw [if_neg hblank, if_neg (by simpa using hc.ne_remark), if_neg (by simpa using hc.ne_opening),
      if_neg (by simpa using hc.ne_closing), if_neg hquote, if_neg (by simpa using hc.ne_slash)]

/-- **A symbol is read again**, alone or in front of a blank. -/
theorem again (h : Reads cs s rest) {tail : List Char}
    (htail : tail = [] ∨ rest ≠ [] ∧ ∃ after, tail = ' ' :: after) :
    Reads (s.spelling.toList ++ tail) s tail := by
  cases h with
  | opening => exact .opening tail
  | closing => exact .closing tail
  | @quoted q inner _ hq hinner =>
    have hspell : (Symbol.value (String.ofList (q :: (inner ++ [q])))).spelling.toList ++ tail =
        q :: (inner ++ q :: tail) := by
      simp [Symbol.spelling]
    rw [hspell]
    exact .quoted tail hq hinner
  | label cs =>
    have hword := @splitWord_append_of_separates false cs tail htail
    have hread := Reads.label ((splitWord false cs).1 ++ tail)
    rw [hword] at hread
    have hspell : (Symbol.label (String.ofList (splitWord false cs).1)).spelling.toList ++ tail =
        '/' :: ((splitWord false cs).1 ++ tail) := by
      simp [Symbol.spelling]
    rw [hspell]
    exact hread
  | @word c cs hc =>
    have hword := @splitWord_append_of_separates false (c :: cs) tail htail
    have hspell : (Symbol.value (String.ofList (splitWord false (c :: cs)).1)).spelling.toList =
        (splitWord false (c :: cs)).1 := String.toList_ofList
    rw [hspell]
    -- the word starts with the same character again
    obtain ⟨word, hcons⟩ : ∃ word, (splitWord false (c :: cs)).1 = c :: word :=
      ⟨_, congrArg Prod.fst (hc.splitWord_cons cs)⟩
    rw [hcons, List.cons_append] at hword ⊢
    have hread := Reads.word (word ++ tail) hc
    rwa [hword] at hread

/-- A symbol that does not end the line is no quoted run without its closing quote. -/
lemma not_isUnclosed {text : String} (h : Reads cs (.value text) rest) : ¬ IsUnclosed text := by
  rintro ⟨q, run, hq, htext, hrun⟩
  cases h with
  | @quoted q' inner _ hq' hinner =>
    rw [String.toList_ofList, List.cons.injEq] at htext
    obtain ⟨rfl, rfl⟩ := htext
    exact hrun (by simp)
  | @word c cs hc =>
    rw [String.toList_ofList, hc.splitWord_cons, List.cons.injEq] at htext
    exact hc.not_quote (htext.1 ▸ hq)

end Reads

/-! ### Passes -/

/-- Every text that is not at an end is skipped or read. -/
lemma reads_or_unmatched {c : Char} (hblank : isBlank c = false) (hremark : c ≠ '#')
    (cs : List Char) :
    (∃ s rest, Reads (c :: cs) s rest) ∨ IsQuote c ∧ c ∉ cs := by
  by_cases hquote : IsQuote c
  · by_cases hmem : c ∈ cs
    · obtain ⟨inner, rest, rfl, hinner⟩ := List.eq_append_cons_of_mem hmem
      exact .inl ⟨_, rest, .quoted rest hquote hinner⟩
    · exact .inr ⟨hquote, hmem⟩
  · by_cases hopening : c = '{'
    · subst hopening
      exact .inl ⟨_, _, .opening cs⟩
    · by_cases hclosing : c = '}'
      · subst hclosing
        exact .inl ⟨_, _, .closing cs⟩
      · by_cases hslash : c = '/'
        · subst hslash
          exact .inl ⟨_, _, .label cs⟩
        · exact .inl ⟨_, _, .word cs ⟨hblank, hremark, hopening, hclosing, hquote, hslash⟩⟩

/-- A quotation mark without its partner takes the rest of the line, which is reported. -/
lemma scan_unmatched {q : Char} {run : List Char} (hq : IsQuote q) (hrun : q ∉ run) :
    scan (q :: run) =
      ⟨[.value (String.ofList (stripEnd (q :: run)))], some (q :: run)⟩ := by
  have hbreak : breakOn? [q] run = none :=
    breakOn?_of_not_infix (List.cons_ne_nil q []) fun hin => hrun (hin.subset List.mem_cons_self)
  rw [scan_quote hq, hbreak]

/-- Blanks are passed over. -/
lemma scan_append_of_isBlank {blanks : List Char} (h : ∀ b ∈ blanks, isBlank b = true)
    (cs : List Char) : scan (blanks ++ cs) = scan cs := by
  induction blanks with
  | nil => rfl
  | cons b blanks ih =>
    rw [List.cons_append, scan_cons_of_isBlank (h b List.mem_cons_self),
      ih fun c hc => h c (List.mem_cons_of_mem b hc)]

/-- **Passes find what is found in the text.** -/
theorem scan_of_scans {cs : List Char} {found : Scan} {taken : List (List Char)}
    (h : Scans cs found taken) : scan cs = found := by
  induction h with
  | finish => exact scan_nil
  | remark cs => exact scan_remark cs
  | unmatched hq hrun => exact scan_unmatched hq hrun
  | skip hblanks _ _ ih => rw [scan_append_of_isBlank hblanks, ih]
  | read hread _ ih => rw [hread.scan_eq, ih]

/-- **Every text is read in passes.**

**Proof sketch.** Induction on the length of the text: after a pass, what is left is shorter. -/
theorem exists_scans (cs : List Char) : ∃ taken, Scans cs (scan cs) taken := by
  suffices h : ∃ found taken, Scans cs found taken by
    obtain ⟨found, taken, hscans⟩ := h
    exact ⟨taken, scan_of_scans hscans ▸ hscans⟩
  induction hlen : cs.length using Nat.strongRecOn generalizing cs with
  | ind k ih =>
    cases cs with
    | nil => exact ⟨_, _, .finish⟩
    | cons c cs =>
      cases hblank : isBlank c with
      | true =>
        have hlt : (stripStart cs).length < k := by
          have hle := stripStart_length_le cs
          rw [List.length_cons] at hlen
          omega
        obtain ⟨found, taken, hrest⟩ := ih _ hlt (stripStart cs) rfl
        have hcs : c :: cs = c :: cs.takeWhile isBlank ++ stripStart cs :=
          congrArg (c :: ·) List.takeWhile_append_dropWhile.symm
        rw [hcs]
        refine ⟨found, _, .skip ?_ ?_ hrest⟩
        · intro b hb
          rcases List.mem_cons.1 hb with rfl | hb
          · exact hblank
          · exact List.mem_takeWhile_imp hb
        · intro d hd
          have hhead := List.head?_dropWhile_not isBlank cs
          rw [show (cs.dropWhile isBlank).head? = some d from hd] at hhead
          simpa using hhead
      | false =>
        by_cases hremark : c = '#'
        · subst hremark
          exact ⟨_, _, .remark cs⟩
        · rcases reads_or_unmatched hblank hremark cs with ⟨s, rest, hread⟩ | ⟨hquote, hmem⟩
          · obtain ⟨found, taken, hrest⟩ := ih rest.length (hlen ▸ hread.length_lt) rest rfl
            exact ⟨_, _, .read hread hrest⟩
          · exact ⟨_, _, .unmatched hquote hmem⟩

namespace Scans

variable {cs : List Char} {found : Scan} {taken : List (List Char)}

/-- Each pass takes at least one character off the front; what is left in the end is nothing or a
remark. -/
lemma taken_spec (h : Scans cs found taken) :
    [] ∉ taken ∧ ∃ left, cs = taken.flatten ++ left ∧ (left = [] ∨ left.head? = some '#') := by
  induction h with
  | finish => exact ⟨List.not_mem_nil, [], rfl, .inl rfl⟩
  | remark cs => exact ⟨List.not_mem_nil, '#' :: cs, rfl, .inr rfl⟩
  | unmatched => exact ⟨by simp, [], by simp, .inl rfl⟩
  | skip _ _ _ ih =>
    obtain ⟨htaken, left, rfl, hleft⟩ := ih
    exact ⟨by simpa using htaken, left, by simp, hleft⟩
  | read hread _ ih =>
    obtain ⟨htaken, left, hrest, hleft⟩ := ih
    refine ⟨?_, left, ?_, hleft⟩
    · rw [List.mem_cons, not_or]
      exact ⟨fun hnil => hread.spelling_ne_empty (String.toList_eq_nil_iff.1 hnil.symm), htaken⟩
    · rw [List.flatten_cons, List.append_assoc, ← hrest, hread.append_eq]

/-- **What is read in passes is made of the symbols that are found.** -/
theorem isLayout (h : Scans cs found taken) : IsLayout cs found.symbols := by
  induction h with
  | finish => exact ⟨[], [], [], rfl, rfl, by simp, by simp, .inl rfl⟩
  | remark cs => exact ⟨[], [], '#' :: cs, rfl, rfl, by simp, by simp, .inr rfl⟩
  | @unmatched q run hq hrun =>
    refine ⟨[], [(.value (String.ofList (stripEnd (q :: run))), blankEnd (q :: run))], [], ?_, rfl,
      by simp, ?_, .inl rfl⟩
    · simp [Symbol.spelling, stripEnd_append_blankEnd]
    · intro p hp
      rw [List.mem_singleton.1 hp]
      refine ⟨?_, fun c => isBlank_of_mem_blankEnd⟩
      simp [Symbol.spelling, hq.stripEnd_cons]
  | @skip c blanks cs found taken hblanks _ _ ih =>
    obtain ⟨gap, parts, remark, rfl, hsymbols, hgap, hparts, hremark⟩ := ih
    refine ⟨c :: blanks ++ gap, parts, remark, by simp, hsymbols, ?_, hparts, hremark⟩
    intro b hb
    rcases List.mem_append.1 hb with hb | hb
    · exact hblanks b hb
    · exact hgap b hb
  | @read cs rest s found taken hread _ ih =>
    obtain ⟨gap, parts, remark, hrest, hsymbols, hgap, hparts, hremark⟩ := ih
    refine ⟨[], (s, gap) :: parts, remark, ?_, by rw [List.map_cons, hsymbols]; rfl, by simp, ?_,
      hremark⟩
    · rw [← hread.append_eq, hrest]
      simp
    · intro p hp
      rcases List.mem_cons.1 hp with rfl | hp
      · exact ⟨hread.spelling_ne_empty, hgap⟩
      · exact hparts p hp

/-- **A quoted run lacks its closing quote exactly if it is the last symbol.** -/
theorem unmatched_iff (h : Scans cs found taken) :
    found.unmatched?.isSome = true ↔
      ∃ text, found.symbols.getLast? = some (.value text) ∧ IsUnclosed text := by
  induction h with
  | finish | remark => simp
  | @unmatched q run hq hrun =>
    refine ⟨fun _ => ⟨_, rfl, q, stripEnd run, hq, ?_, ?_⟩, fun _ => rfl⟩
    · rw [String.toList_ofList, hq.stripEnd_cons]
    · exact fun hmem => hrun ((stripEnd_isPrefix run).subset hmem)
  | skip _ _ _ ih => exact ih
  | @read cs rest s found taken hread _ ih =>
    rw [show (found.cons s).unmatched? = found.unmatched? from rfl, ih,
      show (found.cons s).symbols = s :: found.symbols from rfl, List.getLast?_cons]
    cases hlast : found.symbols.getLast? with
    | some last => rfl
    | none =>
      constructor
      · rintro ⟨text, htext, -⟩
        cases htext
      · rintro ⟨text, htext, hunclosed⟩
        obtain rfl : s = .value text := Option.some_inj.1 htext
        exact absurd hunclosed hread.not_isUnclosed

/-- Where nothing is found, no quoted run lacks its closing quote. -/
lemma unmatched?_eq_none (h : Scans cs found taken) (hsymbols : found.symbols = []) :
    found.unmatched? = none := by
  cases hunmatched : found.unmatched? with
  | none => rfl
  | some run =>
    obtain ⟨text, htext, -⟩ := h.unmatched_iff.1 (by rw [hunmatched]; rfl)
    rw [hsymbols] at htext
    cases htext

/-- **Printed symbols are read again**, with one blank between neighbours in place of the blanks and
the remark that were around them.

**Proof sketch.** Induction on the passes. A word that took the whole text is the last symbol; every
other one ends in front of a blank again (`Reads.again`). -/
theorem scan_print (h : Scans cs found taken) :
    scan (print found.symbols).toList =
      { found with unmatched? := found.unmatched?.map stripEnd } := by
  induction h with
  | finish | remark => exact scan_nil
  | @unmatched q run hq hrun =>
    have hprint : (print [.value (String.ofList (stripEnd (q :: run)))]).toList =
        q :: stripEnd run := by
      rw [← hq.stripEnd_cons]
      exact String.toList_ofList
    have hrun' : q ∉ stripEnd run := fun hmem => hrun ((stripEnd_isPrefix run).subset hmem)
    rw [hprint, scan_unmatched hq hrun', ← hq.stripEnd_cons, stripEnd_stripEnd]
    rfl
  | skip _ _ _ ih => exact ih
  | @read cs rest s found taken hread hrest ih =>
    by_cases hsymbols : found.symbols = []
    · have hagain := (hread.again (.inl rfl)).scan_eq
      rw [List.append_nil, scan_nil] at hagain
      have hprint : print (found.cons s).symbols = s.spelling := by
        rw [Scan.cons, hsymbols]
        rfl
      rw [hprint, hagain]
      simp [Scan.cons, hsymbols, hrest.unmatched?_eq_none hsymbols]
    · have hne : rest ≠ [] := by
        rintro rfl
        have hnil := scan_of_scans hrest
        rw [scan_nil] at hnil
        exact hsymbols (hnil ▸ rfl)
      have hagain := (hread.again (.inr ⟨hne, (print found.symbols).toList, rfl⟩)).scan_eq
      have hprint : (print (found.cons s).symbols).toList =
          s.spelling.toList ++ ' ' :: (print found.symbols).toList := by
        rw [print, Scan.cons, List.map_cons, joinWith_cons " " _ (by simpa using hsymbols)]
        simp [print]
      rw [hprint, hagain, scan_cons_of_isBlank (by decide), ih]
      rfl

end Scans

/-! ### The tokens of a line -/

/-- The tokens of a line are the symbols read from it, and its fault is the quotation mark without a
partner. -/
lemma lineTokens_eq (line : Line) :
    lineTokens line = ⟨(scan line.content.toList).symbols.map fun s => ⟨s, line.source⟩,
      (scan line.content.toList).unmatched?.toList.map fun run =>
        ⟨.anyUnmatchedQuote, "missing closing quote in " ++ String.ofList run, line.source⟩⟩ := by
  unfold lineTokens
  dsimp only
  cases (scan line.content.toList).unmatched? <;> rfl

/-- **The tokens of a line are the line** but for blanks and a remark, whatever the line is. They
are read in passes, each of which takes at least one character off the front of what is left, and
no pass ends inside a character, although words are found among the bytes of the line. Written down
with single blanks between them, the tokens are read again. A missing quote is noted exactly if the
last token is a quoted run without its closing quote.

**Proof sketch.** The scan of the line is a sequence of passes (`exists_scans`), and each part is
known of such a sequence. -/
theorem lineTokens_lossless (line : Line) :
    let symbols := (lineTokens line).value.map Token.symbol
    IsLayout line.content.toList symbols ∧
      (∃ taken left, Scans line.content.toList (scan line.content.toList) taken ∧
        symbols = (scan line.content.toList).symbols ∧
        line.content.toList = taken.flatten ++ left ∧ [] ∉ taken) ∧
      (∀ cs, (encode cs).splitAt (wordSize (encode cs)) =
        (encode (splitWord false cs).1, encode (splitWord false cs).2)) ∧
      (∀ source, (lineTokens ⟨print symbols, source⟩).value = symbols.map fun s => ⟨s, source⟩) ∧
      (.anyUnmatchedQuote ∈ (lineTokens line).findings.map Finding.fault ↔
        ∃ text, symbols.getLast? = some (.value text) ∧ IsUnclosed text) := by
  obtain ⟨taken, hscans⟩ := exists_scans line.content.toList
  obtain ⟨htaken, left, hleft, -⟩ := hscans.taken_spec
  have hsymbols : (lineTokens line).value.map Token.symbol =
      (scan line.content.toList).symbols := by
    rw [lineTokens_eq, List.map_map]
    exact List.map_id _
  have hfault : .anyUnmatchedQuote ∈ (lineTokens line).findings.map Finding.fault ↔
      (scan line.content.toList).unmatched?.isSome = true := by
    rw [lineTokens_eq]
    cases (scan line.content.toList).unmatched? <;> simp
  dsimp only
  rw [hsymbols, hfault]
  refine ⟨hscans.isLayout, ⟨taken, left, hscans, rfl, hleft, htaken⟩, splitAt_wordSize,
    fun source => ?_, hscans.unmatched_iff⟩
  rw [lineTokens_eq]
  dsimp only
  rw [hscans.scan_print]

end ProxyLint.Any
