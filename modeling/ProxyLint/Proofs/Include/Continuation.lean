import Mathlib.Data.List.Range
import Mathlib.Data.List.SplitBy
import ProxyLint.Proofs.Include.Grammar

set_option relaxedAutoImplicit false
set_option autoImplicit false

/-!
# Continued lines

The web server joins a line that ends in a backslash with the one after it. A run of lines is as
long as it can be: all of its lines but the last one are continued, and the last one is only if the
text ends there. There is one logical line for each run, with the number of its first line, and it
has the words of the lines of the run without the backslashes that continue them. So no text is
lost where lines are joined.

## Main definitions

* `ProxyLint.Include.runs` — the runs of numbered lines.
* `ProxyLint.Include.StandsFor` — a logical line is that of a run.
* `ProxyLint.Include.Starts` — a line that the one before it does not continue into.

## Main results

* `ProxyLint.Include.Joined.runInduction` — logical lines are the empty list, or one for a run in
  front of those of the rest.
* `ProxyLint.Include.logicalLines_lossless` — numbers, runs and words of the logical lines.
-/

namespace ProxyLint.Include

/-! ### Runs of lines -/

instance (line : List Char) : Decidable (IsContinued line) :=
  decidable_of_iff ((Text.stripEnd line).getLast? = some '\\') List.getLast?_eq_some_iff

/-- A line without the backslash that continues it. -/
def uncontinued (line : List Char) : List Char :=
  if IsContinued line then (Text.stripEnd line).dropLast else line

/-- The runs of numbered lines: a line is in one run with the next one exactly if it is
continued. -/
def runs (lines : List (List Char × Nat)) : List (List (List Char × Nat)) :=
  lines.splitBy fun line _ => IsContinued line.1

/-- A logical line is that of a run of numbered lines: it has the number of the first one, and the
words of all, without the backslashes that continue them. -/
structure StandsFor (l : Nat × List Char) (run : List (List Char × Nat)) : Prop where
  number : run.head?.map Prod.snd = some l.1
  words : Text.wordList l.2 = run.flatMap fun line => Text.wordList (uncontinued line.1)

/-- The line with that number is the first one or comes after one that is not continued. -/
def Starts (lines : List (List Char × Nat)) (n : Nat) : Prop :=
  ∃ before line after, lines = before ++ (line, n) :: after ∧
    ∀ prev ∈ before.getLast?, ¬ IsContinued prev.1

/-- The first lines are one run, and the rest starts with a new one. -/
structure IsRun (run rest : List (List Char × Nat)) : Prop where
  ne_nil : run ≠ []
  continued : run.IsChain fun line _ => IsContinued line.1
  ended : rest ≠ [] → ∀ line ∈ run.getLast?, ¬ IsContinued line.1

section Runs

variable {line body content : List Char} {n : Nat} {l : Nat × List Char}
  {run lines rest : List (List Char × Nat)} {ls : List (Nat × List Char)}

/-- A line that is not continued is left as it is. -/
lemma uncontinued_of_not_continued (h : ¬ IsContinued line) : uncontinued line = line :=
  if_neg h

/-- Of a continued line the backslash is taken off, and the blanks behind it. -/
lemma uncontinued_of_continued (h : Text.stripEnd line = body ++ ['\\']) :
    uncontinued line = body := by
  rw [uncontinued, if_pos ⟨body, h⟩, h, List.dropLast_concat]

/-- A run in front is the first one. -/
lemma IsRun.runs_append (h : IsRun run rest) : runs (run ++ rest) = run :: runs rest := by
  have hended : ∀ line ∈ run.getLast?, ∀ next ∈ rest.head?, decide (IsContinued line.1) = false :=
    fun line hline next hnext =>
      decide_eq_false (h.ended (List.ne_nil_of_mem (List.mem_of_mem_head? hnext)) line hline)
  rw [runs, List.splitBy_append hended, List.splitBy_of_isChain h.ne_nil]
  · rfl
  · exact h.continued.imp fun _ _ => decide_eq_true

/-- A line that is not continued is a run. -/
lemma isRun_singleton (h : ¬ IsContinued line) (rest : List (List Char × Nat)) :
    IsRun [(line, n)] rest where
  ne_nil := List.cons_ne_nil _ _
  continued := List.isChain_singleton _
  ended := fun _ prev hprev => by
    cases hprev
    exact h

/-- A continued line at the end of the text is a run. -/
lemma isRun_last (line : List Char × Nat) : IsRun [line] [] where
  ne_nil := List.cons_ne_nil _ _
  continued := List.isChain_singleton _
  ended := fun h => absurd rfl h

/-- A continued line in front of a run extends it. -/
lemma IsRun.cons (h : IsRun run rest) (hline : IsContinued line) :
    IsRun ((line, n) :: run) rest where
  ne_nil := List.cons_ne_nil _ _
  continued := by
    obtain ⟨first, others, rfl⟩ := List.exists_cons_of_ne_nil h.ne_nil
    exact List.isChain_cons_cons.2 ⟨hline, h.continued⟩
  ended := fun hrest prev hprev => by
    obtain ⟨first, others, rfl⟩ := List.exists_cons_of_ne_nil h.ne_nil
    exact h.ended hrest prev hprev

/-- In a run only the first line starts a logical one.

**Proof sketch.** Every line of the run but the first stands behind a continued one, and what
follows the run stands behind a line that is not continued. -/
lemma IsRun.starts_append_iff (h : IsRun run rest) (n : Nat) :
    Starts (run ++ rest) n ↔ run.head?.map Prod.snd = some n ∨ Starts rest n := by
  constructor
  · rintro ⟨before, line, after, heq, hbefore⟩
    rcases List.append_eq_append_iff.1 heq with ⟨others, rfl, hrest⟩ | ⟨others, rfl, hothers⟩
    · refine .inr ⟨others, line, after, hrest, fun prev hprev => hbefore prev ?_⟩
      rw [List.getLast?_append, Option.mem_def.1 hprev]
      rfl
    · cases others with
      | nil => exact .inr ⟨[], line, after, hothers.symm, by simp⟩
      | cons first others =>
        -- a line of the run in front of this one would be continued, so there is none
        obtain ⟨rfl, -⟩ := List.cons.inj hothers
        have hcontinued := (List.isChain_append.1 h.continued).2.2
        have hnil : before = [] := List.getLast?_eq_none_iff.1 <|
          Option.eq_none_iff_forall_not_mem.2 fun prev hprev =>
            hbefore prev hprev (hcontinued prev hprev _ rfl)
        rw [hnil]
        exact .inl rfl
  · rintro (hhead | ⟨before, line, after, rfl, hbefore⟩)
    · obtain ⟨⟨line, n⟩, hfirst, rfl⟩ := Option.map_eq_some_iff.1 hhead
      obtain ⟨others, rfl⟩ := List.head?_eq_some_iff.1 hfirst
      exact ⟨[], line, others ++ rest, rfl, by simp⟩
    · refine ⟨run ++ before, line, after, (List.append_assoc _ _ _).symm, fun prev hprev => ?_⟩
      rcases List.eq_nil_or_concat before with rfl | ⟨others, last, rfl⟩
      · rw [List.append_nil] at hprev
        exact h.ended (List.cons_ne_nil _ _) prev hprev
      · refine hbefore prev ?_
        simpa using hprev

/-- What continues a line starts with a blank, if there is anything at all. -/
lemma Continues.isBlank_of_head? (h : Continues lines content rest) :
    ∀ c ∈ content.head?, Text.isBlank c = true := by
  intro c hc
  cases h with
  | atEnd => cases hc
  | last _ =>
    cases hc
    rfl
  | more _ _ =>
    cases hc
    rfl

/-- The lines that continue a line make up a run with it, and they add their words.

**Proof sketch.** Induction on the lines. What they add starts with a blank, so no two words are
joined. -/
lemma Continues.exists_run (h : Continues lines content rest) (first : List Char × Nat)
    (hfirst : IsContinued first.1) :
    ∃ taken, lines = taken ++ rest ∧ IsRun (first :: taken) rest ∧
      Text.wordList content = taken.flatMap fun line => Text.wordList (uncontinued line.1) := by
  induction h generalizing first with
  | atEnd => exact ⟨[], rfl, isRun_last first, rfl⟩
  | @last line n rest hline =>
    refine ⟨[(line, n)], rfl, (isRun_singleton hline rest).cons hfirst, ?_⟩
    rw [Text.wordList_cons rfl, Text.strip_stripEnd, Text.wordList_strip, List.flatMap_singleton,
      uncontinued_of_not_continued hline]
  | @more line body content n lines rest hline hrest ih =>
    obtain ⟨taken, rfl, hrun, hwords⟩ := ih (line, n) ⟨body, hline⟩
    refine ⟨(line, n) :: taken, rfl, hrun.cons hfirst, ?_⟩
    rw [Text.wordList_append hrest.isBlank_of_head?, Text.wordList_cons rfl, Text.wordList_strip,
      hwords, List.flatMap_cons, uncontinued_of_continued hline]

/-- **Induction on logical lines**: there are none, or one for a run in front of those of the
rest. -/
theorem Joined.runInduction {motive : List (List Char × Nat) → List (Nat × List Char) → Prop}
    (h : Joined lines ls) (nil : motive [] [])
    (cons : ∀ {run rest l ls}, IsRun run rest → StandsFor l run → motive rest ls →
      motive (run ++ rest) (l :: ls)) : motive lines ls := by
  induction h with
  | nil => exact nil
  | @single line n rest ls hline _ ih =>
    refine cons (isRun_singleton (n := n) hline rest) ⟨rfl, ?_⟩ ih
    rw [Text.wordList_stripEnd, List.flatMap_singleton, uncontinued_of_not_continued hline]
  | @run line body content n lines rest ls hline hrest _ ih =>
    obtain ⟨taken, rfl, hrun, hwords⟩ := hrest.exists_run (line, n) ⟨body, hline⟩
    refine cons hrun ⟨rfl, ?_⟩ ih
    rw [Text.wordList_append hrest.isBlank_of_head?, Text.wordList_stripEnd, hwords,
      List.flatMap_cons, uncontinued_of_continued hline]

/-! ### Logical lines -/

/-- There is one logical line for each run. -/
lemma Joined.forall₂_runs (h : Joined lines ls) : List.Forall₂ StandsFor ls (runs lines) := by
  refine h.runInduction (motive := fun lines ls => List.Forall₂ StandsFor ls (runs lines)) .nil ?_
  intro run rest l ls hrun hl ih
  rw [hrun.runs_append]
  exact .cons hl ih

/-- Logical lines are in the order of the physical ones. -/
lemma Joined.sublist (h : Joined lines ls) :
    (ls.map Prod.fst).Sublist (lines.map Prod.snd) := by
  refine h.runInduction
    (motive := fun lines ls => (ls.map Prod.fst).Sublist (lines.map Prod.snd)) .slnil ?_
  intro run rest l ls _ hl ih
  have hhead : [l.1].Sublist (run.map Prod.snd) := by
    rw [List.singleton_sublist]
    have hnumber := hl.number
    rw [← List.head?_map] at hnumber
    exact List.mem_of_mem_head? hnumber
  rw [List.map_append]
  exact hhead.append ih

/-- Logical lines have the words of the physical ones. -/
lemma Joined.flatMap_wordList (h : Joined lines ls) :
    (ls.flatMap fun l => Text.wordList l.2) =
      lines.flatMap fun line => Text.wordList (uncontinued line.1) := by
  refine h.runInduction (motive := fun lines ls => (ls.flatMap fun l => Text.wordList l.2) =
    lines.flatMap fun line => Text.wordList (uncontinued line.1)) rfl ?_
  intro run rest l ls _ hl ih
  rw [List.flatMap_cons, List.flatMap_append, hl.words, ih]

/-- A line starts a logical one exactly if the line before it is not continued. -/
lemma Joined.mem_iff_starts (h : Joined lines ls) (n : Nat) :
    n ∈ ls.map Prod.fst ↔ Starts lines n := by
  refine h.runInduction (motive := fun lines ls => n ∈ ls.map Prod.fst ↔ Starts lines n) ?_ ?_
  · refine ⟨fun hn => absurd hn List.not_mem_nil, ?_⟩
    rintro ⟨before, line, after, heq, -⟩
    exact absurd heq.symm (by simp)
  · intro run rest l ls hrun hl ih
    rw [hrun.starts_append_iff, ← ih, hl.number, List.map_cons, List.mem_cons, Option.some_inj,
      eq_comm]

end Runs

/-- **Continued lines are joined without loss.** The numbers of the logical lines of a text grow
strictly, and they are those of the physical lines that come first or after a line which is not
continued. There is one logical line for each run of physical lines, with the words of its lines;
so all logical lines together have the words of all physical lines in order, without the backslashes
that continue lines. -/
theorem logicalLines_lossless (text : String) :
    let lines := (Text.lineList text.toList).zipIdx 1
    let logical := logicalLines .httpd false text
    (logical.map Prod.fst).Pairwise (· < ·) ∧
      (∀ n, n ∈ logical.map Prod.fst ↔ Starts lines n) ∧
      List.Forall₂ StandsFor logical (runs lines) ∧
      (logical.flatMap fun l => Text.wordList l.2) =
        (Text.lineList text.toList).flatMap fun line => Text.wordList (uncontinued line) := by
  intro lines logical
  have hjoined : Joined lines logical := isLogical_logicalLines .httpd text
  refine ⟨?_, hjoined.mem_iff_starts, hjoined.forall₂_runs, ?_⟩
  · refine List.Pairwise.sublist hjoined.sublist ?_
    rw [List.zipIdx_map_snd]
    exact List.pairwise_lt_range'
  · rw [hjoined.flatMap_wordList, ← List.zipIdx_map_fst 1 (Text.lineList text.toList),
      List.flatMap_map]

/-- A blank line continues a run, and the end of the text ends one. -/
example : logicalLines .httpd false "one \\\n \\\n two\nthree\\" =
    [(1, "one  two".toList), (4, "three".toList)] := by
  decide +kernel

end ProxyLint.Include
