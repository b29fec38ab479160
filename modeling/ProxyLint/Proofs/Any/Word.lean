import Mathlib.Data.List.Basic
import ProxyLint.Any.Token
import ProxyLint.Proofs.Text.Bytes

set_option relaxedAutoImplicit false
set_option autoImplicit false

/-!
# Words

A word is what `splitWord` splits off the front of a text. Put in front of a blank, or alone, it
is the same word again; only a reference that is never closed takes the blank, and then nothing
is left behind the word.

A text is stored as bytes, and its words may be found among them without a look at the characters:
the bytes that end a word, and those that open or close a reference, are no part of any other
character. So a word never ends inside a character.

## Main definitions

* `ProxyLint.Any.wordSize` — the number of bytes of the word at the front of a text.

## Main results

* `ProxyLint.Any.splitWord_append_of_separates` — a word is the same word in front of a blank.
* `ProxyLint.Any.splitAt_wordSize` — a word ends between two characters.
-/

namespace ProxyLint.Any

open Text

/-! ### Words in front of blanks -/

/-- A word is a prefix of the text that it is taken from. -/
lemma splitWord_fst_isPrefix (inside : Bool) (cs : List Char) : (splitWord inside cs).1 <+: cs :=
  ⟨_, splitWord_append inside cs⟩

/-- Whether a reference opens in front of a word shows in the word. -/
lemma opensReference_splitWord (c : Char) (rest : List Char) {tail : List Char}
    (htail : tail.head? ≠ some '{') :
    opensReference c ((splitWord (opensReference c rest) rest).1 ++ tail) =
      opensReference c rest := by
  cases hopens : opensReference c rest with
  | true =>
    simp only [opensReference, Bool.and_eq_true, beq_iff_eq] at hopens
    obtain ⟨rfl, hhead⟩ := hopens
    obtain ⟨rest', rfl⟩ := List.head?_eq_some_iff.1 hhead
    rfl
  | false =>
    rw [Bool.eq_false_iff] at hopens ⊢
    intro hopens'
    simp only [opensReference, ne_eq, Bool.and_eq_true, beq_iff_eq] at hopens hopens'
    obtain ⟨rfl, hhead⟩ := hopens'
    refine hopens ⟨rfl, ?_⟩
    cases hword : (splitWord false rest).1 with
    | nil =>
      rw [hword] at hhead
      exact absurd hhead htail
    | cons d word =>
      rw [hword] at hhead
      obtain ⟨after, hafter⟩ := splitWord_fst_isPrefix false rest
      rw [← hafter, hword]
      exact hhead

/-- What may stand behind a word that is read from a text, so that the word stays as it is:
nothing, or a blank if the word did not take the whole text. -/
def Separates (inside : Bool) (cs tail : List Char) : Prop :=
  tail = [] ∨ (splitWord inside cs).2 ≠ [] ∧ ∃ rest, tail = ' ' :: rest

/-- A word is not followed by the brace of a variable. -/
lemma Separates.head?_ne {inside : Bool} {cs tail : List Char} (h : Separates inside cs tail) :
    tail.head? ≠ some '{' := by
  rcases h with rfl | ⟨-, rest, rfl⟩
  · exact nofun
  · exact fun h => absurd (Option.some_inj.1 h) (by decide)

/-- **A word is the same word again**, alone or in front of a blank.

**Proof sketch.** Induction on the text, with the reference that the front lies in. -/
theorem splitWord_append_of_separates {inside : Bool} {cs tail : List Char}
    (h : Separates inside cs tail) :
    splitWord inside ((splitWord inside cs).1 ++ tail) = ((splitWord inside cs).1, tail) := by
  induction cs generalizing inside with
  | nil =>
    obtain rfl : tail = [] := by
      rcases h with h | ⟨hne, -⟩
      · exact h
      · exact absurd rfl hne
    rfl
  | cons c cs ih =>
    cases inside with
    | true =>
      have hrest := @ih (c != '}') h
      rw [splitWord, if_pos rfl]
      dsimp only
      rw [List.cons_append, splitWord, if_pos rfl, hrest]
    | false =>
      by_cases hends : (!opensReference c cs && endsWord c) = true
      · have hword : splitWord false (c :: cs) = ([], c :: cs) := by
          rw [splitWord, if_neg Bool.false_ne_true, if_pos hends]
        rw [hword]
        rcases h with rfl | ⟨-, rest, rfl⟩ <;> rfl
      · have hword : splitWord false (c :: cs) =
            (c :: (splitWord (opensReference c cs) cs).1,
              (splitWord (opensReference c cs) cs).2) := by
          rw [splitWord, if_neg Bool.false_ne_true, if_neg hends]
        have hrest : Separates (opensReference c cs) cs tail := by
          rwa [Separates, hword] at h
        rw [hword]
        dsimp only
        rw [List.cons_append, splitWord, if_neg Bool.false_ne_true,
          opensReference_splitWord c cs h.head?_ne, if_neg hends, ih hrest]

/-! ### Words among bytes -/

/-- The characters that end a word. -/
def wordEnders : List Char :=
  ['{', '}', '"', '\'', '#', ' ', '\t', '\n', '\x0c', '\r']

/-- The characters that end words are ASCII, and none of them starts a variable. -/
lemma ascii_of_mem_wordEnders {c : Char} (h : c ∈ wordEnders) :
    c.toNat < 128 ∧ c.toUInt8 ≠ '$'.toUInt8 := by
  have hall : wordEnders.all (fun d => d.toNat < 128 ∧ d.toUInt8 ≠ '$'.toUInt8) = true := by
    decide
  exact of_decide_eq_true (List.all_eq_true.1 hall c h)

/-- The characters that end words are those of the list. -/
lemma endsWord_iff {c : Char} : endsWord c = true ↔ c ∈ wordEnders := by
  simp only [endsWord, isAsciiBlank, wordEnders, Bool.or_eq_true, beq_iff_eq, List.mem_cons,
    List.not_mem_nil, or_false, or_assoc]

/-- The number of bytes of the word at the front of a text. The bytes are read one after the other;
behind an opened reference, the word goes on after the next closing brace, or takes all bytes if
there is none. -/
def wordSize : List UInt8 → Nat
  | [] => 0
  | b :: rest =>
    if b == '$'.toUInt8 && rest.head? == some '{'.toUInt8 then
      match rest.idxOf? '}'.toUInt8 with
      | some i => i + 2 + wordSize (rest.drop (i + 1))
      | none => rest.length + 1
    else if (wordEnders.map Char.toUInt8).contains b then 0
    else wordSize rest + 1
termination_by bs => bs.length
decreasing_by
  all_goals simp only [List.length_drop, List.length_cons]; omega

/-- A byte that ends words is a character that does. -/
lemma endsWord_of_mem {c : Char} {b : UInt8} (hb : b ∈ String.utf8EncodeChar c)
    (h : b ∈ wordEnders.map Char.toUInt8) : endsWord c = true := by
  obtain ⟨d, hd, rfl⟩ := List.mem_map.1 h
  rw [(mem_utf8EncodeChar_iff (ascii_of_mem_wordEnders hd).1).1 hb]
  exact endsWord_iff.2 hd

/-- A byte that opens no reference ends the word or is passed over. -/
lemma wordSize_cons {b : UInt8} {rest : List UInt8}
    (h : ¬ (b = '$'.toUInt8 ∧ rest.head? = some '{'.toUInt8)) :
    wordSize (b :: rest) =
      if b ∈ wordEnders.map Char.toUInt8 then 0 else wordSize rest + 1 := by
  have hopens : ¬ (b == '$'.toUInt8 && rest.head? == some '{'.toUInt8) = true := by
    simpa only [Bool.and_eq_true, beq_iff_eq] using h
  rw [wordSize, if_neg hopens]
  simp only [List.contains_iff_mem]

/-- The bytes of a word are passed over one by one. -/
lemma wordSize_append {bs : List UInt8} (h : ∀ b ∈ bs, b ≠ '$'.toUInt8)
    (hends : ∀ b ∈ bs, b ∉ wordEnders.map Char.toUInt8) (rest : List UInt8) :
    wordSize (bs ++ rest) = bs.length + wordSize rest := by
  induction bs with
  | nil => exact (Nat.zero_add _).symm
  | cons b bs ih =>
    have hrest := ih (fun d hd => h d (List.mem_cons_of_mem b hd))
      fun d hd => hends d (List.mem_cons_of_mem b hd)
    rw [List.cons_append, wordSize_cons fun hopens => h b List.mem_cons_self hopens.1,
      if_neg (hends b List.mem_cons_self), hrest, List.length_cons]
    omega

/-- Behind a reference that is closed, the word goes on. -/
lemma splitWord_true_append {before : List Char} (h : '}' ∉ before) (after : List Char) :
    splitWord true (before ++ '}' :: after) =
      (before ++ '}' :: (splitWord false after).1, (splitWord false after).2) := by
  induction before with
  | nil => rfl
  | cons c before ih =>
    have hc : (c != '}') = true := by
      rw [bne_iff_ne]
      exact fun hc => h (hc ▸ List.mem_cons_self)
    rw [List.cons_append, splitWord, if_pos rfl, hc,
      ih fun hmem => h (List.mem_cons_of_mem c hmem)]
    rfl

/-- A reference that is never closed takes the whole text. -/
lemma splitWord_true_of_notMem {cs : List Char} (h : '}' ∉ cs) : splitWord true cs = (cs, []) := by
  induction cs with
  | nil => rfl
  | cons c cs ih =>
    have hc : (c != '}') = true := by
      rw [bne_iff_ne]
      exact fun hc => h (hc ▸ List.mem_cons_self)
    rw [splitWord, if_pos rfl, hc, ih fun hmem => h (List.mem_cons_of_mem c hmem)]

/-- An entry is found behind others. -/
lemma idxOf?_append_cons {as : List UInt8} {b : UInt8} (h : b ∉ as) (bs : List UInt8) :
    (as ++ b :: bs).idxOf? b = some as.length := by
  induction as with
  | nil => simp [List.idxOf?_cons]
  | cons a as ih =>
    have ha : (a == b) = false := by
      rw [beq_eq_false_iff_ne]
      exact fun hab => h (hab ▸ List.mem_cons_self)
    rw [List.cons_append, List.idxOf?_cons, ha, if_neg Bool.false_ne_true,
      ih fun hmem => h (List.mem_cons_of_mem a hmem)]
    rfl

/-- A reference is passed over as a whole, and the word goes on behind it.

**Proof sketch.** If the reference is closed, its closing brace is the first byte of this kind, as
no other character has such a byte in its code (`mem_encode_iff`); what follows is shorter, which is
the hypothesis. If it is not, the word is all that is left. -/
lemma wordSize_reference {cs : List Char}
    (ih : ∀ after, after.length < cs.length →
      wordSize (encode after) = (encode (splitWord false after).1).length) :
    wordSize (encode ('$' :: '{' :: cs)) =
      (encode (splitWord false ('$' :: '{' :: cs)).1).length := by
  have hword : (splitWord false ('$' :: '{' :: cs)).1 = '$' :: '{' :: (splitWord true cs).1 := rfl
  have hbytes : ∀ cs, encode ('$' :: '{' :: cs) = '$'.toUInt8 :: '{'.toUInt8 :: encode cs :=
    fun _ => rfl
  have hopens : ('$'.toUInt8 == '$'.toUInt8 &&
      ('{'.toUInt8 :: encode cs).head? == some '{'.toUInt8) = true := rfl
  rw [hword, hbytes, hbytes, wordSize, if_pos hopens]
  by_cases hclosed : '}' ∈ cs
  · obtain ⟨before, after, rfl, hbefore⟩ := List.eq_append_cons_of_mem hclosed
    have hnot : '}'.toUInt8 ∉ '{'.toUInt8 :: encode before := by
      rw [List.mem_cons, mem_encode_iff (by decide)]
      exact not_or.2 ⟨by decide, hbefore⟩
    have hsplit : '{'.toUInt8 :: encode (before ++ '}' :: after) =
        ('{'.toUInt8 :: encode before) ++ '}'.toUInt8 :: encode after := by
      rw [encode_append]
      rfl
    have hdrop : (('{'.toUInt8 :: encode before) ++ '}'.toUInt8 :: encode after).drop
        (('{'.toUInt8 :: encode before).length + 1) = encode after := by
      simp
    have hsize : (encode ('}' :: (splitWord false after).1)).length =
        (encode (splitWord false after).1).length + 1 := rfl
    rw [hsplit, idxOf?_append_cons hnot, splitWord_true_append hbefore]
    dsimp only
    rw [hdrop, ih after (by simp; omega), encode_append, List.length_cons, List.length_cons,
      List.length_cons, List.length_append, hsize]
    omega
  · have hnot : '}'.toUInt8 ∉ '{'.toUInt8 :: encode cs := by
      rw [List.mem_cons, mem_encode_iff (by decide)]
      exact not_or.2 ⟨by decide, hclosed⟩
    rw [List.idxOf?_eq_none_iff.2 hnot, splitWord_true_of_notMem hclosed]
    rfl

/-- **The word among the bytes is the word among the characters.**

**Proof sketch.** Induction on the length of the text. A reference is passed over as a whole. Any
other character that goes on with the word is passed over byte by byte: none of its bytes ends a
word or opens a reference, unless it is the character that does. -/
theorem wordSize_encode (cs : List Char) :
    wordSize (encode cs) = (encode (splitWord false cs).1).length := by
  induction hlen : cs.length using Nat.strongRecOn generalizing cs with
  | ind k ih =>
    cases cs with
    | nil => rw [encode_nil, wordSize]; rfl
    | cons c cs =>
      have hrest : ∀ after, after.length < (c :: cs).length →
          wordSize (encode after) = (encode (splitWord false after).1).length :=
        fun after hlt => ih after.length (hlen ▸ hlt) after rfl
      have hself := hrest cs (Nat.lt_succ_self _)
      cases hopens : opensReference c cs with
      | true =>
        simp only [opensReference, Bool.and_eq_true, beq_iff_eq] at hopens
        obtain ⟨rfl, hhead⟩ := hopens
        obtain ⟨cs, rfl⟩ := List.head?_eq_some_iff.1 hhead
        refine wordSize_reference fun after hlt => hrest after ?_
        simp only [List.length_cons]
        omega
      | false =>
        cases hends : endsWord c with
        | true =>
          have hword : (splitWord false (c :: cs)).1 = [] := by
            rw [splitWord, if_neg Bool.false_ne_true, hopens, hends]
            rfl
          have hmem := endsWord_iff.1 hends
          have hascii := ascii_of_mem_wordEnders hmem
          rw [hword, encode_cons, utf8EncodeChar_of_ascii hascii.1, List.singleton_append,
            wordSize_cons fun hopens => hascii.2 hopens.1, if_pos (List.mem_map_of_mem hmem)]
          rfl
        | false =>
          have hword : (splitWord false (c :: cs)).1 = c :: (splitWord false cs).1 := by
            rw [splitWord, if_neg Bool.false_ne_true, hopens, hends]
            rfl
          rw [hword, encode_cons, encode_cons, List.length_append, ← hself]
          by_cases hdollar : c = '$'
          · subst hdollar
            have hhead : (encode cs).head? ≠ some '{'.toUInt8 := by
              rw [ne_eq, head?_encode_eq_some_iff (by decide)]
              simpa [opensReference] using hopens
            rw [utf8EncodeChar_of_ascii (by decide), List.singleton_append,
              wordSize_cons fun hopens => hhead hopens.2, if_neg (by decide), List.length_singleton,
              Nat.add_comm]
          · refine wordSize_append (fun b hb hdollar' => hdollar ?_) (fun b hb hmem => ?_) _
            · rw [hdollar'] at hb
              exact (mem_utf8EncodeChar_iff (by decide)).1 hb
            · rw [endsWord_of_mem hb hmem] at hends
              cases hends

/-- **A word ends between two characters**: cut where the word among its bytes ends, a text falls
into the bytes of the word and the bytes of the characters behind it. -/
theorem splitAt_wordSize (cs : List Char) :
    (encode cs).splitAt (wordSize (encode cs)) =
      (encode (splitWord false cs).1, encode (splitWord false cs).2) := by
  have hcs : encode cs = encode (splitWord false cs).1 ++ encode (splitWord false cs).2 := by
    rw [← encode_append, splitWord_append]
  rw [wordSize_encode, hcs, List.splitAt_eq, List.take_left, List.drop_left]

end ProxyLint.Any
