import Mathlib.Data.List.Infix
import ProxyLint.Any.Token
import ProxyLint.Proofs.Text

set_option relaxedAutoImplicit false
set_option autoImplicit false

/-!
# Remarks at the end of a line

The symbols of a line do not change when a remark is put behind it, provided that the line
has no quotes and no references: a word of the line ends where the remark, or a blank before
it, begins. Of the blanks only those of ASCII end a word. Behind a word, any other blank is
trimmed at the end of a line, but becomes a part of the word in front of a remark.

## Main definitions

* `ProxyLint.Any.EndsBefore` — the words of a text end before what follows it.
* `ProxyLint.Any.EndsClearly` — a remark behind a line leaves its last word as it is.

## Main results

* `ProxyLint.Any.scan_append_congr` — what follows a text matters by its own symbols only.
* `ProxyLint.Any.scan_strip_append_remark` — a remark adds no symbols.
-/

namespace ProxyLint.Any

open Text

/-! ### Words -/

/-- The words of a text, which has no references, end before what follows it. -/
structure EndsBefore (cs tail : List Char) : Prop where
  ends : ∀ c, tail.head? = some c → endsWord c = true
  noReference : ¬ ['$', '{'] <:+: cs ++ tail.take 1

namespace EndsBefore

variable {cs tail : List Char}

/-- What ends a text before its tail ends any end of it there. -/
lemma of_isSuffix {cs' : List Char} (h : EndsBefore cs tail) (hs : cs' <:+ cs) :
    EndsBefore cs' tail where
  ends := h.ends
  noReference hin := by
    refine h.noReference (hin.trans ?_)
    obtain ⟨front, rfl⟩ := hs
    rw [List.append_assoc]
    exact (List.suffix_append _ _).isInfix

/-- No character of the text opens a reference. -/
lemma opensReference_eq_false {c : Char} (h : EndsBefore (c :: cs) tail) :
    opensReference c (cs ++ tail) = false := by
  rw [Bool.eq_false_iff]
  intro hopens
  simp only [opensReference, Bool.and_eq_true, beq_iff_eq] at hopens
  obtain ⟨rfl, hhead⟩ := hopens
  refine h.noReference ?_
  cases cs with
  | nil =>
    obtain ⟨rest, rfl⟩ := List.head?_eq_some_iff.1 hhead
    exact List.infix_refl _
  | cons d cs =>
    cases hhead
    exact ⟨[], cs ++ tail.take 1, rfl⟩

/-- A word that is split off the front does not reach what follows the text. -/
lemma splitWord_append (h : EndsBefore cs tail) :
    splitWord false (cs ++ tail) = ((splitWord false cs).1, (splitWord false cs).2 ++ tail) := by
  induction cs with
  | nil =>
    cases tail with
    | nil => rfl
    | cons d tail =>
      have hends := h.ends d rfl
      have hopens : opensReference d tail = false := by
        rw [Bool.eq_false_iff]
        intro hopens
        simp only [opensReference, Bool.and_eq_true, beq_iff_eq] at hopens
        rw [hopens.1] at hends
        revert hends
        decide
      simp [splitWord, hends, hopens]
  | cons c cs ih =>
    have hopens := h.opensReference_eq_false
    have hopens' : opensReference c cs = false := by
      have hself : EndsBefore (c :: cs) [] := by
        refine ⟨fun d hd => (by cases hd), fun hin => h.noReference (hin.trans ?_)⟩
        rw [List.take_nil, List.append_nil]
        exact (List.prefix_append _ _).isInfix
      have hempty := hself.opensReference_eq_false
      rwa [List.append_nil] at hempty
    rw [List.cons_append, splitWord, splitWord, hopens, hopens']
    simp only [Bool.false_eq_true, if_false, Bool.not_false, Bool.true_and]
    split
    · rfl
    · rw [ih (h.of_isSuffix (List.suffix_cons c cs))]

end EndsBefore

/-! ### Symbols -/

/-- Nothing is read from an empty text. -/
@[simp] lemma scan_nil : scan [] = {} := by
  rw [scan.eq_def]

/-- A blank is passed over. -/
lemma scan_cons_of_isBlank {c : Char} (hc : isBlank c = true) (cs : List Char) :
    scan (c :: cs) = scan cs := by
  rw [scan.eq_def]
  exact if_pos hc

/-- A remark is passed over, and ends the line. -/
lemma scan_remark (cs : List Char) : scan ('#' :: cs) = {} := by
  rw [scan.eq_def]
  dsimp only
  rw [if_neg (by decide), if_pos (by decide)]

/-- An opening brace is a symbol. -/
lemma scan_opening (cs : List Char) : scan ('{' :: cs) = (scan cs).cons .opening := by
  rw [scan.eq_def]
  dsimp only
  rw [if_neg (by decide), if_neg (by decide), if_pos (by decide)]

/-- A closing brace is a symbol. -/
lemma scan_closing (cs : List Char) : scan ('}' :: cs) = (scan cs).cons .closing := by
  rw [scan.eq_def]
  dsimp only
  rw [if_neg (by decide), if_neg (by decide), if_neg (by decide), if_pos (by decide)]

/-- Blanks before a remark are no symbols either. -/
lemma scan_blanks_remark {blanks : List Char} (h : ∀ c ∈ blanks, isBlank c = true)
    (cs : List Char) : scan (blanks ++ '#' :: cs) = {} := by
  induction blanks with
  | nil => exact scan_remark cs
  | cons c blanks ih =>
    rw [List.cons_append, scan_cons_of_isBlank (h c List.mem_cons_self),
      ih fun d hd => h d (List.mem_cons_of_mem c hd)]

/-- A character that is no blank, no quote and not the start of a remark is a symbol of its
own, or begins one with the word after it. -/
lemma scan_cons_cases {c : Char} (hblank : isBlank c = false) (hremark : c ≠ '#')
    (hquote : c ≠ '"') (hquote' : c ≠ '\'') :
    (∃ s, ∀ cs, scan (c :: cs) = (scan cs).cons s) ∨
      ∃ f : List Char → Symbol, ∀ cs, opensReference c cs = false →
        scan (c :: cs) = (scan (splitWord false cs).2).cons (f (splitWord false cs).1) := by
  have hblank' : ¬ isBlank c = true := by rw [hblank]; exact Bool.false_ne_true
  by_cases hopen : c = '{'
  · subst hopen
    exact .inl ⟨.opening, scan_opening⟩
  · by_cases hclose : c = '}'
    · subst hclose
      exact .inl ⟨.closing, scan_closing⟩
    · right
      by_cases hslash : c = '/'
      · subst hslash
        refine ⟨fun word => .label (String.ofList word), fun cs _ => ?_⟩
        rw [scan.eq_def]
        dsimp only
        rw [if_neg (by decide), if_neg (by decide), if_neg (by decide),
          if_neg (by decide), if_neg (by decide), if_pos (by decide)]
      · refine ⟨fun word => .value (String.ofList (c :: word)), fun cs hopens => ?_⟩
        rw [scan.eq_def]
        dsimp only
        rw [if_neg hblank', if_neg (by simpa using hremark), if_neg (by simpa using hopen),
          if_neg (by simpa using hclose), if_neg (by simp [hquote, hquote']),
          if_neg (by simpa using hslash), hopens]

/-- **What follows a text matters by its own symbols only**, if the text has no quotes and
its words end before it.

**Proof sketch.** Induction on the length of the text, from one symbol to the next. -/
theorem scan_append_congr {cs tail tail' : List Char} (hquote : '"' ∉ cs) (hquote' : '\'' ∉ cs)
    (h : EndsBefore cs tail) (h' : EndsBefore cs tail') (htail : scan tail = scan tail') :
    scan (cs ++ tail) = scan (cs ++ tail') := by
  induction hlen : cs.length using Nat.strongRecOn generalizing cs with
  | ind k ih =>
    cases cs with
    | nil => exact htail
    | cons c cs =>
      -- what is left after the first symbol is the end of the text
      have hrest : ∀ rest, rest <:+ cs → scan (rest ++ tail) = scan (rest ++ tail') := by
        intro rest hs
        have hs' : rest <:+ c :: cs := hs.trans (List.suffix_cons c cs)
        refine ih rest.length ?_ (fun hmem => hquote (hs'.subset hmem))
          (fun hmem => hquote' (hs'.subset hmem)) (h.of_isSuffix hs') (h'.of_isSuffix hs') rfl
        have hle := hs.length_le
        rw [List.length_cons] at hlen
        omega
      have hself := hrest cs (List.suffix_refl cs)
      rw [List.cons_append, List.cons_append]
      cases hblank : isBlank c with
      | true => rw [scan_cons_of_isBlank hblank, scan_cons_of_isBlank hblank, hself]
      | false =>
        by_cases hremark : c = '#'
        · rw [hremark, scan_remark, scan_remark]
        · have hc : c ≠ '"' := fun hc => hquote (hc ▸ List.mem_cons_self)
          have hc' : c ≠ '\'' := fun hc => hquote' (hc ▸ List.mem_cons_self)
          rcases scan_cons_cases hblank hremark hc hc' with ⟨s, hs⟩ | ⟨f, hf⟩
          · rw [hs, hs, hself]
          · have hword := (h.of_isSuffix (List.suffix_cons c cs)).splitWord_append
            have hword' := (h'.of_isSuffix (List.suffix_cons c cs)).splitWord_append
            have hsplit : (splitWord false cs).2 <:+ cs := by
              have happend := Any.splitWord_append false cs
              exact ⟨_, happend⟩
            rw [hf _ h.opensReference_eq_false, hf _ h'.opensReference_eq_false, hword, hword',
              hrest _ hsplit]

/-! ### Remarks -/

/-- A remark can be put behind a line without a change to the word before it: the line ends
with a brace, or what follows its last word is a blank of ASCII, if it is a blank at all. -/
def EndsClearly (line : List Char) : Prop :=
  (strip line).getLast? = some '{' ∨ (strip line).getLast? = some '}' ∨
    ∀ c, (blankEnd line).head? = some c → isAsciiBlank c = true

/-- Behind a text without references, a character that ends words and opens no reference ends
its last word. -/
lemma EndsBefore.of_endsWord {cs tail : List Char} {c : Char} (href : ¬ ['$', '{'] <:+: cs)
    (hends : endsWord c = true) (hc : c ∉ ['$', '{']) : EndsBefore cs (c :: tail) where
  ends d hd := by
    cases hd
    exact hends
  noReference hin := by
    rcases infix_of_infix_append_cons hc hin with hin | hin
    · exact href hin
    · cases List.infix_nil.1 hin

/-- A text without references, and without what follows it. -/
lemma EndsBefore.nil {cs : List Char} (href : ¬ ['$', '{'] <:+: cs) : EndsBefore cs [] where
  ends d hd := by cases hd
  noReference := by rwa [List.take_nil, List.append_nil]

/-- What has no symbols adds none behind a brace. -/
lemma scan_append_of_brace {cs tail : List Char} {b : Char} (hquote : '"' ∉ cs)
    (hquote' : '\'' ∉ cs) (href : ¬ ['$', '{'] <:+: cs) (hb : b = '{' ∨ b = '}')
    (hlast : cs.getLast? = some b) (htail : scan tail = {}) : scan (cs ++ tail) = scan cs := by
  obtain ⟨front, rfl⟩ := List.getLast?_eq_some_iff.1 hlast
  have hends : ∀ rest, EndsBefore front (b :: rest) := by
    intro rest
    refine ⟨fun c hc => ?_, href⟩
    cases hc
    rcases hb with rfl | rfl <;> decide
  have hbrace : scan (b :: tail) = scan [b] := by
    rcases hb with rfl | rfl
    · rw [scan_opening, scan_opening, htail, scan_nil]
    · rw [scan_closing, scan_closing, htail, scan_nil]
  rw [List.append_assoc, List.singleton_append]
  exact scan_append_congr (fun hmem => hquote (List.mem_append_left _ hmem))
    (fun hmem => hquote' (List.mem_append_left _ hmem)) (hends tail) (hends []) hbrace

/-- What has no symbols adds none behind a word if its first character ends the word. -/
lemma scan_append_of_endsWord {cs tail : List Char} {c : Char} (hquote : '"' ∉ cs)
    (hquote' : '\'' ∉ cs) (href : ¬ ['$', '{'] <:+: cs) (hends : endsWord c = true)
    (hc : c ∉ ['$', '{']) (htail : scan (c :: tail) = {}) : scan (cs ++ c :: tail) = scan cs := by
  have happend := scan_append_congr hquote hquote' (.of_endsWord href hends hc) (.nil href)
    (htail.trans scan_nil.symm)
  rwa [List.append_nil] at happend

/-- **A remark adds no symbols** to a line without quotes and references that ends clearly.

**Proof sketch.** In front of the remark, the line keeps the blanks that are trimmed
otherwise; they and the remark have no symbols (`scan_blanks_remark`), and the words of the
line end before them, or before the brace at its end (`scan_append_congr`). -/
theorem scan_strip_append_remark {line : List Char} (hne : strip line ≠ []) (hquote : '"' ∉ line)
    (hquote' : '\'' ∉ line) (href : ¬ ['$', '{'] <:+: line) (hend : EndsClearly line)
    (comment : List Char) : scan (strip (line ++ '#' :: comment)) = scan (strip line) := by
  have hsub := (strip_isInfix line).subset
  have hq : '"' ∉ strip line := fun hmem => hquote (hsub hmem)
  have hq' : '\'' ∉ strip line := fun hmem => hquote' (hsub hmem)
  have href' : ¬ ['$', '{'] <:+: strip line := fun hin => href (hin.trans (strip_isInfix line))
  have hnone := scan_blanks_remark (fun c => @isBlank_of_mem_blankEnd line c) (stripEnd comment)
  rw [strip_append_cons (by decide) line comment hne, List.append_assoc]
  rcases hend with hlast | hlast | hascii
  · exact scan_append_of_brace hq hq' href' (.inl rfl) hlast hnone
  · exact scan_append_of_brace hq hq' href' (.inr rfl) hlast hnone
  · cases hblanks : blankEnd line with
    | nil =>
      rw [hblanks] at hnone
      exact scan_append_of_endsWord hq hq' href' (by decide) (by decide) hnone
    | cons c blanks =>
      rw [hblanks] at hnone hascii
      obtain ⟨hends, hc⟩ : endsWord c = true ∧ c ∉ ['$', '{'] := by
        have hc := hascii c rfl
        simp only [isAsciiBlank, Bool.or_eq_true, beq_iff_eq] at hc
        rcases hc with (((rfl | rfl) | rfl) | rfl) | rfl <;> decide
      exact scan_append_of_endsWord hq hq' href' hends hc hnone

end ProxyLint.Any
