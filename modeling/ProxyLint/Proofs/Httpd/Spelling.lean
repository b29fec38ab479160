import ProxyLint.Proofs.Httpd.Body
import ProxyLint.Proofs.Text

set_option relaxedAutoImplicit false
set_option autoImplicit false

/-!
# Spelled sections

A body has a natural spelling: one line for each directive, and for each section the line that
opens it, the spelling of what it holds, and the line that closes it. Arguments stand in double
quotes, with a backslash in front of each double quote that they hold. The spelling is read back
as the configuration of the body, whatever the arguments are; only a backslash at the end of an
argument would be taken together with the closing quote.

## Main definitions

* `ProxyLint.Httpd.phrase` — a name with its arguments in quotes.
* `ProxyLint.Httpd.Spells` — lines spell a body.
* `ProxyLint.Httpd.Body.isPlain` — the names and arguments of a body can be spelled.

## Main results

* `ProxyLint.Httpd.splitWords_phrase` — the words of a phrase.
* `ProxyLint.Httpd.foldlM_step_of_spells` — a spelling adds its body to the innermost open
  section.
* `ProxyLint.HttpdConfig.ofLines_of_spells` — every spelling of a body is read back as the
  configuration of this body.
-/

namespace ProxyLint.Httpd

/-! ### Spellings -/

/-- The characters of names: all but blanks and those that have a meaning in a line. The letters
and digits of all scripts are among them. -/
def isNameChar (c : Char) : Bool :=
  !Text.isBlank c && c ∉ ['"', '\'', '\\', '<', '>', '/']

/-- Whether a text can be a tag or the name of a directive. -/
def isName (name : String) : Bool :=
  !name.toList.isEmpty && name.toList.all isNameChar

/-- Whether a text can be an argument: it does not end in a backslash. -/
def isArgument (text : String) : Bool :=
  text.toList.getLast? != some '\\'

/-- The characters with a backslash in front of each double quote. -/
def escape (cs : List Char) : List Char :=
  cs.flatMap fun c => if c = '"' then ['\\', '"'] else [c]

/-- An argument behind a blank and between double quotes. -/
def quoted (argument : String) : List Char :=
  ' ' :: '"' :: (escape argument.toList ++ ['"'])

/-- A name with its arguments. -/
def phrase (name : String) (args : List String) : String :=
  String.ofList (name.toList ++ args.flatMap quoted)

/-- Lines spell a body. Directives and openers stand at the places which the body records. A
closer, of which nothing is recorded, may stand anywhere, and its tag may be written in other
letters than that of the opener, up to the case of ASCII letters. -/
inductive Spells : Body → List Line → Prop where
  | nil : Spells .nil []
  | directive {d : Directive} {rest : Body} {lines : List Line} :
    Spells rest lines →
    Spells (.directive d rest) (⟨phrase d.name d.arguments, d.source⟩ :: lines)
  | nested {o : Opener} {inner rest : Body} {lines lines' : List Line} (closer : Line)
      (tag : String) :
    Text.sameLetters o.tag tag = true → closer.content = "</" ++ tag ++ ">" →
    Spells inner lines → Spells rest lines' →
    Spells (.nested o inner rest)
      (⟨"<" ++ phrase o.tag o.arguments ++ ">", o.source⟩ :: (lines ++ closer :: lines'))

/-- Every body can be written. -/
lemma Body.exists_spells (body : Body) : ∃ lines, Spells body lines := by
  induction body with
  | nil => exact ⟨[], .nil⟩
  | directive d rest ih =>
    obtain ⟨lines, h⟩ := ih
    exact ⟨_, .directive h⟩
  | nested o inner rest ihinner ih =>
    obtain ⟨lines, hinner⟩ := ihinner
    obtain ⟨lines', h⟩ := ih
    exact ⟨_, .nested ⟨_, o.source⟩ o.tag (by simp [Text.sameLetters]) rfl hinner h⟩

/-- Whether a name and its arguments can be spelled. -/
def isPlain (name : String) (args : List String) : Bool :=
  isName name && args.all isArgument

/-- Whether the names and arguments of a body can be spelled. -/
def Body.isPlain : Body → Bool
  | .nil => true
  | .directive d rest => Httpd.isPlain d.name d.arguments && rest.isPlain
  | .nested o inner rest => Httpd.isPlain o.tag o.arguments && inner.isPlain && rest.isPlain

/-! ### Names -/

/-- The characters of plain names are neither blank nor have a meaning of their own. -/
lemma isNameChar_iff {c : Char} : isNameChar c = true ↔
    Text.isBlank c = false ∧ c ∉ ['"', '\'', '\\', '<', '>', '/'] := by
  rw [isNameChar, Bool.and_eq_true, Bool.not_eq_true', decide_eq_true_iff]

/-- The characters of plain names differ from all that have a meaning of their own. -/
lemma ne_of_isNameChar {c d : Char} (hc : isNameChar c = true)
    (hd : d ∈ ['"', '\'', '\\', '<', '>', '/']) : c ≠ d := by
  rintro rfl
  exact (isNameChar_iff.1 hc).2 hd

/-- The letters and digits of ASCII are characters of names. -/
lemma isNameChar_of_isAlphanum {c : Char} (h : c.isAlphanum = true) : isNameChar c = true := by
  rw [Text.isAlphanum_iff] at h
  refine isNameChar_iff.2 ⟨?_, fun hmem => ?_⟩
  · simp only [Text.isBlank, Bool.or_eq_false_iff, Bool.and_eq_false_iff, decide_eq_false_iff_not,
      beq_eq_false_iff_ne]
    omega
  · simp only [List.mem_cons, List.not_mem_nil, or_false] at hmem
    rcases hmem with rfl | rfl | rfl | rfl | rfl | rfl <;> revert h <;> decide

/-- The letter case of a character does not matter for plain names. -/
lemma isNameChar_toLower (c : Char) : isNameChar c.toLower = isNameChar c := by
  rcases Text.toLower_cases c with h | ⟨hA, hZ, h⟩
  · rw [h]
  · have hc : c.isAlphanum = true := Text.isAlphanum_iff.2 (by omega)
    have hlower : c.toLower.isAlphanum = true := Text.isAlphanum_iff.2 (by omega)
    rw [isNameChar_of_isAlphanum hlower, isNameChar_of_isAlphanum hc]

/-- A name stays a name in lower case. -/
lemma isName_lower (name : String) : isName (Text.lower name) = isName name := by
  simp [isName, Text.lower, Function.comp_def, isNameChar_toLower]

/-- A name in other letter case is a name. -/
lemma isName_of_sameLetters {a b : String} (h : Text.sameLetters a b = true)
    (ha : isName a = true) : isName b = true := by
  have hlower : Text.lower a = Text.lower b := beq_iff_eq.1 h
  rw [← isName_lower, ← hlower, isName_lower, ha]

/-- A name has a first character. -/
lemma exists_cons_of_isName {name : String} (h : isName name = true) :
    ∃ c cs, name.toList = c :: cs ∧ ∀ d ∈ c :: cs, isNameChar d = true := by
  rw [isName, Bool.and_eq_true, List.all_eq_true] at h
  cases hcs : name.toList with
  | nil =>
    rw [hcs] at h
    exact absurd h.1 Bool.false_ne_true
  | cons c cs => exact ⟨c, cs, rfl, hcs ▸ h.2⟩

/-! ### Words of a phrase -/

/-- Between double quotes every character is taken as it is, but for a double quote and for a
backslash in front of one. -/
lemma splitFrom_quoted_cons {c : Char} {rest : List Char} (hc : c ≠ '"')
    (hrest : c = '\\' → rest.head? ≠ some '"') (word : List Char) :
    splitFrom (some '"') (some word) (c :: rest) =
      splitFrom (some '"') (some (c :: word)) rest := by
  by_cases hslash : c = '\\' ∧ rest ≠ []
  · obtain ⟨rfl, hne⟩ := hslash
    obtain ⟨d, rest, rfl⟩ := List.exists_cons_of_ne_nil hne
    have hd : ¬ (some '"' == some d) = true := fun h => hrest rfl (beq_iff_eq.1 h).symm
    rw [splitFrom, if_neg hd, Option.getD_some]
  · rw [splitFrom, if_neg (by simpa using hc), Option.getD_some]
    rintro d rest' hc' rfl
    exact hslash ⟨hc', List.cons_ne_nil d rest'⟩

/-- What is escaped does not start with a quotation mark. -/
lemma head?_escape_append {cs : List Char} (hne : cs ≠ []) (rest : List Char) :
    (escape cs ++ rest).head? ≠ some '"' := by
  obtain ⟨c, cs, rfl⟩ := List.exists_cons_of_ne_nil hne
  by_cases hc : c = '"' <;> simp [escape, hc]

/-- An argument in double quotes is read back. -/
lemma splitFrom_escape {cs : List Char} (hlast : cs.getLast? ≠ some '\\') (word rest : List Char) :
    splitFrom (some '"') (some word) (escape cs ++ '"' :: rest) =
      splitFrom none (some (cs.reverse ++ word)) rest := by
  induction cs generalizing word with
  | nil => rfl
  | cons c cs ih =>
    have hrest : cs.getLast? ≠ some '\\' := by
      intro h
      rw [List.getLast?_cons, h] at hlast
      exact hlast rfl
    rw [List.reverse_cons, List.append_assoc, List.singleton_append, ← ih hrest]
    by_cases hc : c = '"'
    · subst hc
      rfl
    · have hescape : escape (c :: cs) = c :: escape cs := by
        simp [escape, hc]
      rw [hescape, List.cons_append]
      refine splitFrom_quoted_cons hc (fun hslash => head?_escape_append ?_ _) word
      -- a backslash is not the last character, so it does not stand before the closing quote
      rintro rfl
      exact hlast (hslash ▸ rfl)

/-- A character of a name is added to the word. -/
lemma splitFrom_name_cons {c : Char} (hc : isNameChar c = true) (word? : Option (List Char))
    (rest : List Char) :
    splitFrom none word? (c :: rest) = splitFrom none (some (c :: word?.getD [])) rest := by
  have hquote : ¬ ((c == '"' || c == '\'') && word?.isNone) = true := by
    intro h
    rw [Bool.and_eq_true, Bool.or_eq_true, beq_iff_eq, beq_iff_eq] at h
    exact h.1.elim (ne_of_isNameChar hc (by decide)) (ne_of_isNameChar hc (by decide))
  have hblank : ¬ Text.isBlank c = true := by
    simp [(isNameChar_iff.1 hc).1]
  rw [splitFrom, if_neg hquote, if_neg hblank]
  exact fun _ _ hslash _ => ne_of_isNameChar hc (by decide) hslash

/-- A name is read up to its end. -/
lemma splitFrom_name {cs : List Char} (h : ∀ c ∈ cs, isNameChar c = true) (word rest : List Char) :
    splitFrom none (some word) (cs ++ rest) = splitFrom none (some (cs.reverse ++ word)) rest := by
  induction cs generalizing word with
  | nil => rfl
  | cons c cs ih =>
    rw [List.cons_append, splitFrom_name_cons (h c List.mem_cons_self), Option.getD_some,
      ih fun d hd => h d (List.mem_cons_of_mem c hd), List.reverse_cons, List.append_assoc,
      List.singleton_append]

/-- A quoted argument ends the word in front of it and is read back. -/
lemma splitFrom_quoted {a : String} (h : isArgument a = true) (word rest : List Char) :
    splitFrom none (some word) (quoted a ++ rest) =
      (word.reverse :: (splitFrom none (some a.toList.reverse) rest).1,
        (splitFrom none (some a.toList.reverse) rest).2) := by
  have hescape := splitFrom_escape (bne_iff_ne.1 h) [] rest
  rw [List.append_nil] at hescape
  rw [quoted, List.cons_append, List.cons_append, List.append_assoc, List.singleton_append,
    ← hescape]
  rfl

/-- The arguments behind a word are read back. -/
lemma splitFrom_arguments {args : List String} (h : args.all isArgument = true)
    (word : List Char) :
    splitFrom none (some word) (args.flatMap quoted) =
      (word.reverse :: args.map String.toList, false) := by
  induction args generalizing word with
  | nil => rfl
  | cons a args ih =>
    rw [List.all_cons, Bool.and_eq_true] at h
    rw [List.flatMap_cons, splitFrom_quoted h.1, ih h.2, List.reverse_reverse, List.map_cons]

/-- **The words of a phrase** are the name and the arguments, and no quote stays open. -/
lemma splitWords_phrase {name : String} {args : List String} (h : isPlain name args = true) :
    splitWords (phrase name args).toList = (name :: args, false) := by
  rw [isPlain, Bool.and_eq_true] at h
  obtain ⟨c, cs, hname, hchars⟩ := exists_cons_of_isName h.1
  have hwords : splitFrom none none (name.toList ++ args.flatMap quoted) =
      (name.toList :: args.map String.toList, false) := by
    rw [hname, List.cons_append, splitFrom_name_cons (hchars c List.mem_cons_self),
      splitFrom_name fun d hd => hchars d (List.mem_cons_of_mem c hd), splitFrom_arguments h.2]
    simp
  rw [phrase, String.toList_ofList, splitWords, hwords]
  simp [Function.comp_def]

/-- The arguments that are written are read again, without a fault. -/
lemma arguments_phrase {name : String} {args : List String} (h : isPlain name args = true)
    (source : Source) : arguments (phrase name args).toList source = pure (name :: args) := by
  rw [arguments, splitWords_phrase h]
  rfl

/-! ### Reading a spelling -/

/-- What is written starts with the name. -/
lemma head?_phrase {name : String} {args : List String} (h : isPlain name args = true) :
    ∃ c, (phrase name args).toList.head? = some c ∧ isNameChar c = true := by
  rw [isPlain, Bool.and_eq_true] at h
  obtain ⟨c, cs, hname, hchars⟩ := exists_cons_of_isName h.1
  refine ⟨c, ?_, hchars c List.mem_cons_self⟩
  rw [phrase, String.toList_ofList, hname, List.cons_append, List.head?_cons]

namespace Builder

/-- A directive that is written is added. -/
lemma step_phrase (r : Builder) {d : Directive} (h : isPlain d.name d.arguments = true) :
    r.step ⟨phrase d.name d.arguments, d.source⟩ =
      pure { r with config := r.config.addDirective r.current d } := by
  obtain ⟨c, hphrase, hc⟩ := head?_phrase h
  have hhead : (Line.mk (phrase d.name d.arguments) d.source).content.toList.head? ≠ some '<' := by
    rw [hphrase]
    exact fun heq => ne_of_isNameChar hc (by decide) (Option.some.inj heq)
  rw [r.step_directive hhead, addDirective, arguments_phrase h, pure_bind]

/-- An opening line that is written opens its section. -/
lemma step_spelledOpener (r : Builder) {o : Opener} (h : isPlain o.tag o.arguments = true) :
    r.step ⟨"<" ++ phrase o.tag o.arguments ++ ">", o.source⟩ =
      pure { config := r.config.addSection r.current o.tag o.arguments o.source
             opened := ⟨r.config.size, o.tag, o.source⟩ :: r.opened } := by
  obtain ⟨c, hphrase, hc⟩ := head?_phrase h
  have hline : (Line.mk ("<" ++ phrase o.tag o.arguments ++ ">") o.source).content.toList =
      '<' :: ((phrase o.tag o.arguments).toList ++ ['>']) := by
    simp [String.toList_append]
  have hhead : ((phrase o.tag o.arguments).toList ++ ['>']).head? ≠ some '/' := by
    rw [List.head?_append, hphrase]
    exact fun heq => ne_of_isNameChar hc (by decide) (Option.some.inj heq)
  have hinner : Text.beforeLast? '>' (Text.stripEnd ((phrase o.tag o.arguments).toList ++ ['>'])) =
      some (phrase o.tag o.arguments).toList := by
    rw [Text.stripEnd_append_cons (by decide)]
    exact Text.beforeLast?_eq_some_iff.2 rfl
  rw [r.step_opener hline hhead, openSection, hinner]
  dsimp only
  rw [arguments_phrase h, pure_bind]

/-- The closer of a name names it. -/
lemma closerTag_name {tag : String} (h : isName tag = true) :
    closerTag (tag.toList ++ ['>']) = tag.toList := by
  rw [isName, Bool.and_eq_true, List.all_eq_true] at h
  have hend : ∀ c ∈ tag.toList.reverse, (c == '>') = false := fun c hc =>
    beq_eq_false_iff_ne.2 (ne_of_isNameChar (h.2 c (List.mem_reverse.1 hc)) (by decide))
  have hblank : ∀ c ∈ tag.toList, Text.isBlank c = false := fun c hc =>
    (isNameChar_iff.1 (h.2 c hc)).1
  have hreverse : (Text.stripEnd (tag.toList ++ ['>'])).reverse = '>' :: tag.toList.reverse := by
    rw [Text.stripEnd_append_cons (by decide), List.reverse_append]
    rfl
  rw [closerTag, hreverse, List.dropWhile_cons_of_pos (by decide), Text.dropWhile_eq_self hend,
    List.reverse_reverse, Text.strip_eq_self hblank]

/-- The closer of the innermost section closes that section alone. -/
lemma step_spelledCloser (c : HttpdConfig) (s : OpenSection) (outer : List OpenSection)
    (hname : isName s.tag = true) {tag : String} (htag : Text.sameLetters s.tag tag = true)
    {line : Line} (hline : line.content = "</" ++ tag ++ ">") :
    step ⟨c, s :: outer⟩ line = pure ⟨c, outer⟩ := by
  have hcontent : line.content.toList = '<' :: '/' :: (tag.toList ++ ['>']) := by
    simp [hline, String.toList_append]
  rw [step_closer _ hcontent, closerTag_name (isName_of_sameLetters htag hname),
    String.ofList_toList, close]
  simp [htag, noteUnclosed]

end Builder

/-- **A spelling adds its body to the innermost open section**, and nothing is found.

**Proof sketch.** Induction on the spelling. The section of an opener is the innermost one while
the spelling of what it holds is read, and its own closer closes no other one, since it is the
first that is compared. -/
theorem foldlM_step_of_spells {body : Body} {lines : List Line} (h : Spells body lines)
    (hplain : body.isPlain = true) (r : Builder) (hcurrent : r.current < r.config.size) :
    lines.foldlM Builder.step r = pure { r with config := r.config.extend r.current body } := by
  induction h generalizing r with
  | nil => simp
  | @directive d rest lines _ ih =>
    rw [Body.isPlain, Bool.and_eq_true] at hplain
    have hcurrent' : r.current < (r.config.addDirective r.current d).size := by
      rwa [HttpdConfig.size_addDirective]
    have hrest : lines.foldlM Builder.step ⟨r.config.addDirective r.current d, r.opened⟩ =
        pure ⟨(r.config.addDirective r.current d).extend r.current rest, r.opened⟩ :=
      ih hplain.2 _ hcurrent'
    rw [List.foldlM_cons, r.step_phrase hplain.1, pure_bind, hrest,
      HttpdConfig.addDirective_extend]
  | @nested o inner rest lines lines' closer tag htag hcontent _ _ ihinner ih =>
    rw [Body.isPlain, Bool.and_eq_true, Bool.and_eq_true] at hplain
    obtain ⟨⟨hopener, hinner⟩, hrest⟩ := hplain
    have hname : isName o.tag = true := (Bool.and_eq_true_iff.1 hopener).1
    have hopen := r.step_spelledOpener hopener
    have hsize := r.config.size_addSection r.current o.tag o.arguments o.source
    have hextend := HttpdConfig.addSection_extend hcurrent o inner rest
    -- from here on only the size of the configuration with the new section matters
    generalize r.config.addSection r.current o.tag o.arguments o.source = c at hopen hsize hextend
    have hfill : lines.foldlM Builder.step ⟨c, ⟨r.config.size, o.tag, o.source⟩ :: r.opened⟩ =
        pure ⟨c.extend r.config.size inner, ⟨r.config.size, o.tag, o.source⟩ :: r.opened⟩ := by
      refine ihinner hinner _ ?_
      change r.config.size < c.size
      omega
    have hafter : lines'.foldlM Builder.step ⟨c.extend r.config.size inner, r.opened⟩ =
        pure ⟨(c.extend r.config.size inner).extend r.current rest, r.opened⟩ := by
      refine ih hrest _ ?_
      change r.current < (c.extend r.config.size inner).size
      rw [HttpdConfig.size_extend]
      omega
    have hclose := Builder.step_spelledCloser (c.extend r.config.size inner)
      ⟨r.config.size, o.tag, o.source⟩ r.opened hname htag hcontent
    rw [List.foldlM_cons, hopen, pure_bind, List.foldlM_append, hfill, pure_bind,
      List.foldlM_cons, hclose, pure_bind, hafter, hextend]

end ProxyLint.Httpd

namespace ProxyLint.HttpdConfig

open Httpd

/-- **Every spelling of a body is read back as the configuration of this body**, and nothing is
found. There is a spelling for all bodies; they are asked only that their names hold nothing that
has a meaning in a line, and that no argument ends in a backslash. -/
theorem ofLines_of_spells {body : Body} (hplain : body.isPlain = true) :
    (∃ lines, Spells body lines) ∧
      ∀ lines, Spells body lines → ofLines lines = pure (ofBody (rootSource lines) body) := by
  refine ⟨body.exists_spells, fun lines h => ?_⟩
  have hread := foldlM_step_of_spells h hplain { config := .ofRoot (rootSource lines) }
    Nat.zero_lt_one
  unfold ofLines
  dsimp only
  rw [hread, pure_bind]
  change pure ((ofRoot (rootSource lines)).extend 0 body) = _
  rw [extend_ofRoot]

/-- Line `n` of a file. -/
def hostLine (n : Nat) : Source :=
  ⟨some "vhost.conf", some n, none⟩

/-- Two sections with one tag, the second inside the first, and arguments that hold what has a
meaning outside of quotes. -/
def hostBody : Body :=
  .nested ⟨"If", ["a > \"b\""], hostLine 1⟩
    (.directive ⟨"Header", ["set", "", "it's \\\"<x>\\\" \\ y"], hostLine 2⟩
      (.nested ⟨"if", [], hostLine 3⟩ .nil .nil))
    (.directive ⟨"Listen", ["80"], hostLine 6⟩ .nil)

/-- Their spelling, with closers in other letter case. -/
def hostLines : List Line :=
  [⟨"<If \"a > \\\"b\\\"\">", hostLine 1⟩,
    ⟨"Header \"set\" \"\" \"it's \\\\\"<x>\\\\\" \\ y\"", hostLine 2⟩,
    ⟨"<if>", hostLine 3⟩,
    ⟨"</IF>", hostLine 4⟩,
    ⟨"</iF>", hostLine 5⟩,
    ⟨"Listen \"80\"", hostLine 6⟩]

/-- The two sections are read back from their spelling. -/
theorem ofLines_hostLines :
    hostBody.isPlain = true ∧ Spells hostBody hostLines ∧
      ofLines hostLines = pure (ofBody ⟨some "vhost.conf", none, none⟩ hostBody) := by
  have hplain : hostBody.isPlain = true := by decide
  have hlines : hostLines =
      [⟨"<" ++ phrase "If" ["a > \"b\""] ++ ">", hostLine 1⟩,
        ⟨phrase "Header" ["set", "", "it's \\\"<x>\\\" \\ y"], hostLine 2⟩,
        ⟨"<" ++ phrase "if" [] ++ ">", hostLine 3⟩,
        ⟨"</" ++ "IF" ++ ">", hostLine 4⟩,
        ⟨"</" ++ "iF" ++ ">", hostLine 5⟩,
        ⟨phrase "Listen" ["80"], hostLine 6⟩] := by
    decide
  have hspells : Spells hostBody hostLines := by
    rw [hlines]
    exact .nested _ "iF" (by decide) rfl
      (.directive (.nested ⟨_, hostLine 4⟩ "IF" (by decide) rfl .nil .nil)) (.directive .nil)
  exact ⟨hplain, hspells, (ofLines_of_spells hplain).2 hostLines hspells⟩

end ProxyLint.HttpdConfig
