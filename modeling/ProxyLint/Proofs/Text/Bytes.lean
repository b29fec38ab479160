import Mathlib.Data.List.Lex
import Mathlib.Data.String.Basic
import ProxyLint.Text.Utf8

set_option relaxedAutoImplicit false
set_option autoImplicit false

/-!
# The bytes of texts

Texts are compared character by character, and file systems compare names byte by byte. The two
orders are one: the code of a larger character is larger at the first byte at which two codes
differ, and no code starts another one. A character of ASCII can be found among the bytes of a
text: its byte is no part of another character.

## Main results

* `ProxyLint.Text.bytes_lt_bytes_iff` — the order of texts is the order of their bytes.
* `ProxyLint.Text.mem_utf8EncodeChar_iff` — a byte of ASCII is a character of its own.
-/

namespace ProxyLint.Text

/-- A number below 256 is the number of a byte. -/
lemma toNat_ofNat_byte {n : Nat} (h : n < 256) : (UInt8.ofNat n).toNat = n := by
  rw [UInt8.toNat_ofNat', Nat.mod_eq_of_lt h]

/-- **The code of a larger character is larger**, whatever follows the two.

**Proof sketch.** The first byte of a code grows with its length. Two codes of one length hold the
digits of their characters to the base 64, from the largest to the smallest. -/
lemma utf8EncodeChar_append_lt {c d : Char} (h : c < d) (xs ys : List UInt8) :
    String.utf8EncodeChar c ++ xs < String.utf8EncodeChar d ++ ys := by
  have hlt : c.val.toNat < d.val.toNat := h
  have hd : d.val.toNat < 0x110000 := by
    rcases d.valid with h | h <;> omega
  unfold String.utf8EncodeChar
  generalize c.val.toNat = m at hlt
  generalize d.val.toNat = n at hlt hd
  -- the digits, as quotients of quotients
  have hm : m / 4096 = m / 64 / 64 ∧ m / 262144 = m / 64 / 64 / 64 := by
    rw [Nat.div_div_eq_div_mul, Nat.div_div_eq_div_mul]
    exact ⟨rfl, rfl⟩
  have hn : n / 4096 = n / 64 / 64 ∧ n / 262144 = n / 64 / 64 / 64 := by
    rw [Nat.div_div_eq_div_mul, Nat.div_div_eq_div_mul]
    exact ⟨rfl, rfl⟩
  dsimp only
  rw [hm.1, hm.2, hn.1, hn.2]
  -- one case for each pair of lengths
  split_ifs <;>
    simp (disch := omega) only [List.cons_append, List.nil_append, List.cons_lt_cons_iff,
      UInt8.lt_iff_toNat_lt, ← UInt8.toNat_inj, toNat_ofNat_byte, Nat.mod_eq_of_lt] <;>
    omega

/-- Every character has a code. -/
lemma utf8EncodeChar_ne_nil (c : Char) : String.utf8EncodeChar c ≠ [] := by
  unfold String.utf8EncodeChar
  dsimp only
  split_ifs <;> exact List.cons_ne_nil _ _

/-- The codes of larger texts are larger. -/
lemma encode_lt {cs ds : List Char} (h : cs < ds) : encode cs < encode ds := by
  induction h with
  | @nil d ds =>
    obtain ⟨b, bs, hcode⟩ := List.exists_cons_of_ne_nil (utf8EncodeChar_ne_nil d)
    rw [encode, encode, List.flatMap_cons, hcode]
    exact .nil
  | @rel c cs d ds hlt => exact utf8EncodeChar_append_lt hlt _ _
  | @cons c cs ds _ ih => exact List.append_left_lt ih

/-- **The order of texts is the order of their bytes.** -/
theorem bytes_lt_bytes_iff {a b : String} : bytes a < bytes b ↔ a < b := by
  have hmono : ∀ {s t : String}, s < t → bytes s < bytes t := by
    intro s t h
    exact encode_lt (String.lt_iff_toList_lt.1 h)
  constructor
  · intro h
    rcases lt_trichotomy a b with hab | rfl | hab
    · exact hab
    · exact absurd h (List.lt_irrefl _)
    · exact absurd h (List.lt_asymm (hmono hab))
  · exact hmono

/-! ### Bytes of ASCII -/

/-- The empty text has no bytes. -/
@[simp] lemma encode_nil : encode [] = [] := rfl

/-- The bytes of the first character come first. -/
@[simp] lemma encode_cons (c : Char) (cs : List Char) :
    encode (c :: cs) = String.utf8EncodeChar c ++ encode cs := List.flatMap_cons

/-- Texts in a row have their bytes in a row. -/
@[simp] lemma encode_append (as bs : List Char) : encode (as ++ bs) = encode as ++ encode bs :=
  List.flatMap_append

/-- A character of ASCII is one byte. -/
lemma utf8EncodeChar_of_ascii {c : Char} (h : c.toNat < 128) :
    String.utf8EncodeChar c = [c.toUInt8] := by
  have hle : c.val.toNat ≤ 0x7f := Nat.le_of_lt_succ h
  unfold String.utf8EncodeChar
  rw [if_pos hle]
  rfl

/-- The bytes of all other characters are no bytes of ASCII. -/
lemma le_toNat_of_mem_utf8EncodeChar {c : Char} (h : 128 ≤ c.toNat) {b : UInt8}
    (hb : b ∈ String.utf8EncodeChar c) : 128 ≤ b.toNat := by
  have hc : ¬ c.val.toNat ≤ 0x7f := Nat.not_le_of_lt h
  have hlt : c.val.toNat < 0x110000 := by
    rcases c.valid with h | h <;> omega
  unfold String.utf8EncodeChar at hb
  generalize c.val.toNat = n at hc hlt hb
  dsimp only at hb
  split_ifs at hb <;> simp only [List.mem_cons, List.not_mem_nil, or_false] at hb
  · rcases hb with rfl | rfl <;> rw [toNat_ofNat_byte] <;> omega
  · rcases hb with rfl | rfl | rfl <;> rw [toNat_ofNat_byte] <;> omega
  · rcases hb with rfl | rfl | rfl | rfl <;> rw [toNat_ofNat_byte] <;> omega

/-- **A byte of ASCII is a character of its own**, and no part of another one. -/
theorem mem_utf8EncodeChar_iff {c d : Char} (hd : d.toNat < 128) :
    d.toUInt8 ∈ String.utf8EncodeChar c ↔ c = d := by
  have hbyte : ∀ e : Char, e.toNat < 128 → e.toUInt8.toNat = e.toNat := by
    intro e he
    exact Nat.mod_eq_of_lt (Nat.lt_trans he (by decide))
  constructor
  · intro h
    by_cases hc : c.toNat < 128
    · rw [utf8EncodeChar_of_ascii hc, List.mem_singleton] at h
      have heq := congrArg UInt8.toNat h
      rw [hbyte d hd, hbyte c hc] at heq
      exact (Char.toNat_inj.1 heq).symm
    · have hle := le_toNat_of_mem_utf8EncodeChar (Nat.le_of_not_lt hc) h
      rw [hbyte d hd] at hle
      omega
  · rintro rfl
    rw [utf8EncodeChar_of_ascii hd]
    exact List.mem_singleton_self _

/-- A byte of ASCII occurs where its character does. -/
lemma mem_encode_iff {d : Char} (hd : d.toNat < 128) {cs : List Char} :
    d.toUInt8 ∈ encode cs ↔ d ∈ cs := by
  rw [encode, List.mem_flatMap]
  constructor
  · rintro ⟨c, hc, hmem⟩
    rwa [← (mem_utf8EncodeChar_iff hd).1 hmem]
  · exact fun h => ⟨d, h, (mem_utf8EncodeChar_iff hd).2 rfl⟩

/-- It stands in front of the bytes if its character stands in front. -/
lemma head?_encode_eq_some_iff {d : Char} (hd : d.toNat < 128) {cs : List Char} :
    (encode cs).head? = some d.toUInt8 ↔ cs.head? = some d := by
  cases cs with
  | nil => simp
  | cons c cs =>
    rw [encode_cons, List.head?_append_of_ne_nil _ (utf8EncodeChar_ne_nil c), List.head?_cons,
      Option.some_inj]
    constructor
    · exact fun h => (mem_utf8EncodeChar_iff hd).1 (List.mem_of_mem_head? h)
    · rintro rfl
      rw [utf8EncodeChar_of_ascii hd]
      rfl

/-! ### Reading bytes -/

/-- The last byte of a character completes it. -/
lemma readFrom_last {value low high b : Nat} (hlow : low ≤ b) (hhigh : b ≤ high) (hb : b < 256)
    (bs : List UInt8) :
    readFrom (some ⟨value, 1, low, high⟩) (UInt8.ofNat b :: bs) =
      Char.ofNat (64 * value + (b - 0x80)) :: readFrom none bs := by
  simp [readFrom, toNat_ofNat_byte hb, hlow, hhigh]

/-- Any other byte that may follow adds a digit. -/
lemma readFrom_next {value missing low high b : Nat} (hlow : low ≤ b) (hhigh : b ≤ high)
    (hb : b < 256) (bs : List UInt8) :
    readFrom (some ⟨value, missing + 2, low, high⟩) (UInt8.ofNat b :: bs) =
      readFrom (some ⟨64 * value + (b - 0x80), missing + 1, 0x80, 0xBF⟩) bs := by
  simp [readFrom, toNat_ofNat_byte hb, hlow, hhigh]

/-- The first byte of a longer character starts it. -/
lemma readFrom_first {b : Nat} (hb : b < 256) {u : Unfinished} (h : firstByte b = ([], some u))
    (bs : List UInt8) : readFrom none (UInt8.ofNat b :: bs) = readFrom (some u) bs := by
  simp [readFrom, toNat_ofNat_byte hb, h]

/-- **The code of a character is read as the character**, whatever follows.

**Proof sketch.** The first byte tells how many more there are, and between which bounds the next
one is. Each of them adds a digit to the base 64. -/
theorem readFrom_utf8EncodeChar_append (c : Char) (bs : List UInt8) :
    readFrom none (String.utf8EncodeChar c ++ bs) = c :: readFrom none bs := by
  have hvalid : c.val.toNat < 0xd800 ∨ 0xdfff < c.val.toNat ∧ c.val.toNat < 0x110000 := c.valid
  have hchar : ∀ m, m = c.val.toNat → Char.ofNat m = c := by
    rintro m rfl
    exact Char.ofNat_toNat c
  unfold String.utf8EncodeChar
  generalize c.val.toNat = n at hvalid hchar
  dsimp only
  split_ifs with hone htwo hthree
  · rw [List.singleton_append, readFrom, toNat_ofNat_byte (by omega), firstByte,
      if_pos (by omega), hchar n rfl]
    rfl
  · have hfirst : firstByte (n / 64 % 32 + 192) = ([], some ⟨n / 64 % 32, 1, 0x80, 0xBF⟩) := by
      rw [firstByte, if_neg (by omega), if_pos (by simp; omega)]
      simp
    rw [List.cons_append, readFrom_first (by omega) hfirst, List.cons_append,
      readFrom_last (by omega) (by omega) (by omega), hchar _ (by omega)]
    rfl
  · have hfirst : firstByte (n / 4096 % 16 + 224) = ([], some ⟨n / 4096 % 16, 2,
        if n / 4096 % 16 + 224 = 0xE0 then 0xA0 else 0x80,
        if n / 4096 % 16 + 224 = 0xED then 0x9F else 0xBF⟩) := by
      rw [firstByte, if_neg (by omega), if_neg (by simp), if_pos (by simp; omega)]
      simp
    rw [List.cons_append, readFrom_first (by omega) hfirst, List.cons_append,
      readFrom_next (by split <;> omega) (by split <;> omega) (by omega), List.cons_append,
      readFrom_last (by omega) (by omega) (by omega), hchar _ (by omega)]
    rfl
  · have hfirst : firstByte (n / 262144 % 8 + 240) = ([], some ⟨n / 262144 % 8, 3,
        if n / 262144 % 8 + 240 = 0xF0 then 0x90 else 0x80,
        if n / 262144 % 8 + 240 = 0xF4 then 0x8F else 0xBF⟩) := by
      rw [firstByte, if_neg (by omega), if_neg (by simp), if_neg (by simp),
        if_pos (by simp; omega)]
      simp
    rw [List.cons_append, readFrom_first (by omega) hfirst, List.cons_append,
      readFrom_next (by split <;> omega) (by split <;> omega) (by omega), List.cons_append,
      readFrom_next (by omega) (by omega) (by omega), List.cons_append,
      readFrom_last (by omega) (by omega) (by omega), hchar _ (by omega)]
    rfl

/-- **The bytes of a text are read as the text.** -/
theorem readLossy_encode (cs : List Char) : readLossy (encode cs) = cs := by
  induction cs with
  | nil => rfl
  | cons c cs ih =>
    rw [readLossy, encode_cons, readFrom_utf8EncodeChar_append]
    exact congrArg (c :: ·) ih

/-- Texts with the same bytes are the same. -/
lemma encode_injective : Function.Injective encode := by
  intro cs ds h
  rw [← readLossy_encode cs, h, readLossy_encode]

/-- The start of a character that goes wrong is one mark, also if it has several bytes. -/
example : readLossy [0x61, 0xF0, 0x90, 0x80, 0x62, 0xFF] =
    ['a', replacement, 'b', replacement] := by
  decide

end ProxyLint.Text
