import ProxyLint.Path.Raw
import ProxyLint.Proofs.Path.Relative
import ProxyLint.Proofs.Text.Bytes

set_option relaxedAutoImplicit false
set_option autoImplicit false

/-!
# Bytes and texts as paths

A path of the system is handled as a text with a character for each byte. Nothing but slashes,
dots and what stood in a path before is written into a path, so that the texts that come out stand
for bytes again. And if the bytes are the code of a text, what comes out is the code of what comes
out for the text: slashes and dots are one byte each and no part of any other character, and texts
with the same bytes are the same. So paths that are texts may be handled as texts from the start.

## Main definitions

* `ProxyLint.RawPath.IsByteText` — the characters of a text stand for bytes.
* `ProxyLint.RawPath.spread` — a text with a character for each byte of its code.

## Main results

* `ProxyLint.RawPath.byteText_normalize`, `ProxyLint.RawPath.byteText_join`,
  `ProxyLint.RawPath.byteText_relativeTo?` — what is done with a path is done with its text.
* `ProxyLint.RawPath.normalize_bytes`, `ProxyLint.RawPath.join_bytes`,
  `ProxyLint.RawPath.relativeTo?_bytes` — what is done with the code of a text is done with the
  text.
* `ProxyLint.RawPath.nameFrom_bytes` — the name of a path that is a text.
-/

namespace ProxyLint

namespace Text

/-- What is put together has the characters of its parts. -/
lemma mem_joinWith_of_mem {sep t : String} {ts : List String} (ht : t ∈ ts) {c : Char}
    (hc : c ∈ t.toList) : c ∈ (joinWith sep ts).toList := by
  induction ts with
  | nil => cases ht
  | cons s ts ih =>
    by_cases hts : ts = []
    · subst hts
      rw [List.mem_singleton.1 ht] at hc
      exact hc
    · rw [joinWith_cons sep s hts, String.toList_append, String.toList_append]
      rcases List.mem_cons.1 ht with rfl | ht
      · exact List.mem_append_left _ (List.mem_append_left _ hc)
      · exact List.mem_append_right _ (ih ht)

/-- It has no others than these and what is put between them. -/
lemma of_mem_joinWith {sep : String} {ts : List String} {c : Char}
    (hc : c ∈ (joinWith sep ts).toList) : c ∈ sep.toList ∨ ∃ t ∈ ts, c ∈ t.toList := by
  induction ts with
  | nil => cases hc
  | cons s ts ih =>
    by_cases hts : ts = []
    · subst hts
      exact .inr ⟨s, List.mem_cons_self, hc⟩
    · rw [joinWith_cons sep s hts, String.toList_append, String.toList_append] at hc
      rcases List.mem_append.1 hc with hc | hc
      · rcases List.mem_append.1 hc with hc | hc
        · exact .inr ⟨s, List.mem_cons_self, hc⟩
        · exact .inl hc
      · rcases ih hc with hc | ⟨t, ht, hc⟩
        · exact .inl hc
        · exact .inr ⟨t, List.mem_cons_of_mem s ht, hc⟩

/-- The characters of a field stand in the text. -/
lemma mem_of_mem_fields {s f : String} (hf : f ∈ fields '/' s) {c : Char} (hc : c ∈ f.toList) :
    c ∈ s.toList := by
  rw [← joinWith_fields s]
  exact mem_joinWith_of_mem hf hc

end Text

namespace Path

/-! ### Characters of paths -/

/-- Pieces are spelled with their characters and slashes. -/
lemma of_mem_spell {ps : List Piece} {c : Char} (hc : c ∈ (spell ps).toList) :
    c = '/' ∨ ∃ q ∈ ps, c ∈ q.text.toList := by
  unfold spell at hc
  split at hc
  · exact .inl (by simpa using hc)
  · rcases Text.of_mem_joinWith hc with hc | ⟨s, hs, hc⟩
    · exact .inl (by simpa using hc)
    · obtain ⟨q, hq, rfl⟩ := List.mem_map.1 hs
      exact .inr ⟨q, hq, hc⟩

/-- The characters of a path as seen from a folder stand in the path, but for slashes. -/
lemma mem_of_mem_relativeTo? {root path rel : String} (h : relativeTo? root path = some rel)
    {c : Char} (hc : c ∈ rel.toList) : c = '/' ∨ c ∈ path.toList := by
  have hpieces : ∀ {ps : List Piece}, ps ⊆ pieces path → c ∈ (spell ps).toList →
      c = '/' ∨ c ∈ path.toList := by
    intro ps hps hc
    rcases of_mem_spell hc with hc | ⟨q, hq, hc⟩
    · exact .inl hc
    · refine .inr (Text.mem_of_mem_fields (f := q.text) ?_ hc)
      rw [← map_text_pieces]
      exact List.mem_map_of_mem (hps hq)
  unfold relativeTo? at h
  split at h
  · cases h
    exact hpieces (dropIdleEnd_isPrefix _).subset hc
  · obtain ⟨ps, hstrip, rfl⟩ := Option.map_eq_some_iff.1 h
    refine hpieces (fun q hq => (strip?_eq_some hstrip).2.1.subset ?_) hc
    exact (List.dropWhile_suffix _).subset ((dropIdleEnd_isPrefix _).subset hq)

end Path

namespace RawPath

/-! ### Texts of bytes -/

/-- The characters of a text stand for bytes. -/
def IsByteText (s : String) : Prop :=
  ∀ c ∈ s.toList, c.toNat < 256

/-- The character of a byte has the number of the byte. -/
lemma toNat_ofNat_toNat (b : UInt8) : (Char.ofNat b.toNat).toNat = b.toNat := by
  have hb := b.toNat_lt
  have hvalid : b.toNat.isValidChar := .inl (by omega)
  rw [Char.ofNat, dif_pos hvalid]
  rfl

/-- A path is read off its text. -/
@[simp] lemma ofByteText_byteText (p : RawPath) : ofByteText p.byteText = p := by
  rw [ofByteText, byteText, String.toList_ofList, List.map_map]
  refine (List.map_congr_left fun b _ => ?_).trans (List.map_id p)
  rw [Function.comp_apply, toNat_ofNat_toNat, UInt8.ofNat_toNat]
  rfl

/-- A text whose characters stand for bytes is the text of these. -/
lemma byteText_ofByteText {s : String} (h : IsByteText s) : (ofByteText s).byteText = s := by
  rw [byteText, ofByteText, List.map_map, ← String.toList_inj, String.toList_ofList]
  refine (List.map_congr_left fun c hc => ?_).trans (List.map_id _)
  rw [Function.comp_apply, Text.toNat_ofNat_byte (h c hc), Char.ofNat_toNat]
  rfl

/-- The characters of the text of a path stand for bytes. -/
lemma isByteText_byteText (p : RawPath) : IsByteText p.byteText := by
  intro c hc
  rw [byteText, String.toList_ofList] at hc
  obtain ⟨b, -, rfl⟩ := List.mem_map.1 hc
  rw [toNat_ofNat_toNat]
  exact b.toNat_lt

/-- **A path is seen from a folder as its text is.** -/
theorem byteText_relativeTo? (root p : RawPath) :
    (relativeTo? root p).map byteText = Path.relativeTo? root.byteText p.byteText := by
  rw [relativeTo?, Option.map_map]
  cases hrel : Path.relativeTo? root.byteText p.byteText with
  | none => rfl
  | some rel =>
    refine congrArg some (byteText_ofByteText fun c hc => ?_)
    rcases Path.mem_of_mem_relativeTo? hrel hc with rfl | hc
    · decide
    · exact isByteText_byteText p c hc

/-- A path is told by its text. -/
lemma byteText_injective : Function.Injective byteText :=
  Function.LeftInverse.injective ofByteText_byteText

/-! ### Codes of texts -/

/-- The text with a character for each byte of its code. -/
def spread (s : String) : String :=
  byteText (Text.bytes s)

/-- Two texts in a row are spread one after the other. -/
lemma spread_append (s t : String) : spread (s ++ t) = spread s ++ spread t := by
  rw [spread, byteText, Text.bytes, String.toList_append, Text.encode_append, List.map_append,
    String.ofList_append]
  rfl

/-- Texts that are spread alike are the same. -/
lemma spread_injective : Function.Injective spread := by
  intro s t h
  have hbytes := byteText_injective h
  exact String.toList_inj.1 (Text.encode_injective hbytes)

/-- A slash is spread as it is. -/
lemma spread_slash : spread "/" = "/" := by decide

/-- A text is spread field by field. -/
lemma spread_joinWith (ts : List String) :
    spread (Text.joinWith "/" ts) = Text.joinWith "/" (ts.map spread) := by
  induction ts with
  | nil => rfl
  | cons t ts ih =>
    by_cases hts : ts = []
    · subst hts
      rfl
    · rw [Text.joinWith_cons "/" t hts, spread_append, spread_append, spread_slash, ih,
        List.map_cons, Text.joinWith_cons "/" (spread t) (by simpa using hts)]

/-- Only the byte of a slash is read as a slash. -/
lemma ofNat_toNat_eq_slash_iff {b : UInt8} : Char.ofNat b.toNat = '/' ↔ b = '/'.toUInt8 := by
  constructor
  · intro h
    have hnum := congrArg Char.toNat h
    rw [toNat_ofNat_toNat] at hnum
    exact UInt8.toNat_inj.1 hnum
  · rintro rfl
    decide

/-- A slash is a byte of its own. -/
lemma slash_mem_spread {s : String} (h : '/' ∈ (spread s).toList) : '/' ∈ s.toList := by
  rw [spread, byteText, String.toList_ofList] at h
  obtain ⟨b, hb, hslash⟩ := List.mem_map.1 h
  rw [ofNat_toNat_eq_slash_iff.1 hslash, Text.bytes] at hb
  exact (Text.mem_encode_iff (by decide)).1 hb

/-- The fields of a text that is spread are its fields, spread. -/
lemma fields_spread (s : String) :
    Text.fields '/' (spread s) = (Text.fields '/' s).map spread := by
  have hne := Text.fields_ne_nil '/' s
  conv_lhs => rw [← Text.joinWith_fields s, spread_joinWith]
  refine Text.fields_joinWith (by simpa using hne) fun f hf hslash => ?_
  obtain ⟨g, hg, rfl⟩ := List.mem_map.1 hf
  exact Text.slash_notMem_of_mem_fields hg (slash_mem_spread hslash)

/-- A text that is spread is empty, `.` or `..` only if the text is. -/
lemma spread_beq (s : String) :
    (spread s == "") = (s == "") ∧ (spread s == ".") = (s == ".") ∧
      (spread s == "..") = (s == "..") := by
  have hsame : ∀ t : String, spread t = t → (spread s == t) = (s == t) := by
    intro t ht
    rw [Bool.eq_iff_iff, beq_iff_eq, beq_iff_eq]
    conv_lhs => rw [← ht]
    exact spread_injective.eq_iff
  exact ⟨hsame "" (by decide), hsame "." (by decide), hsame ".." (by decide)⟩

/-- A part with its name spread. -/
def spreadPart : Path.Part → Path.Part
  | .name n => .name (spread n)
  | p => p

/-- A piece with its text and its name spread. -/
def spreadPiece (q : Path.Piece) : Path.Piece :=
  ⟨spread q.text, q.part?.map spreadPart⟩

/-- Parts that are spread alike are the same. -/
lemma spreadPart_injective : Function.Injective spreadPart := by
  intro p q h
  cases p <;> cases q <;> simp_all [spreadPart, spread_injective.eq_iff]

/-- A part is written as its text, spread. -/
lemma text_spreadPart (p : Path.Part) : (spreadPart p).text = spread p.text := by
  cases p with
  | name n => rfl
  | root | here | up => decide

/-- An inner piece denotes what it denoted, spread. -/
lemma ofInner?_spread (t : String) :
    Path.Part.ofInner? (spread t) = (Path.Part.ofInner? t).map spreadPart := by
  obtain ⟨hempty, hdot, hup⟩ := spread_beq t
  unfold Path.Part.ofInner?
  rw [hempty, hdot, hup]
  split
  · rfl
  · split <;> rfl

/-- A front piece denotes what it denoted, spread. -/
lemma frontPart?_spread (t : String) (alone : Bool) :
    Path.frontPart? (spread t) alone = (Path.frontPart? t alone).map spreadPart := by
  obtain ⟨hempty, hdot, -⟩ := spread_beq t
  unfold Path.frontPart?
  rw [hempty, hdot]
  split
  · cases alone <;> rfl
  · split
    · rfl
    · exact ofInner?_spread t

/-- The pieces of a path that is spread are its pieces, spread. -/
lemma pieces_spread (s : String) : Path.pieces (spread s) = (Path.pieces s).map spreadPiece := by
  obtain ⟨first, rest, hfields⟩ := List.exists_cons_of_ne_nil (Text.fields_ne_nil '/' s)
  have hspread := fields_spread s
  rw [hfields, List.map_cons] at hspread
  rw [Path.pieces_of_fields hspread, Path.pieces_of_fields hfields, List.map_cons, List.map_map,
    List.map_map, List.isEmpty_map, frontPart?_spread]
  refine congrArg _ (List.map_congr_left fun f _ => ?_)
  simp only [Function.comp_apply, spreadPiece, ofInner?_spread]

/-- The parts of a path that is spread are its parts, spread. -/
lemma parts_spread (s : String) : Path.parts (spread s) = (Path.parts s).map spreadPart := by
  rw [Path.parts, Path.parts, pieces_spread, List.filterMap_map, List.map_filterMap]
  rfl

/-- A step of normalisation is the same for parts that are spread. -/
lemma collapse_spread (st : List Path.Part) (p : Path.Part) :
    Path.collapse (st.map spreadPart) (spreadPart p) = (Path.collapse st p).map spreadPart := by
  cases p with
  | root | here | name => rfl
  | up =>
    cases st with
    | nil => rfl
    | cons q st => cases q <;> rfl

/-- Parts that are spread are written as the path, spread. -/
lemma ofParts_spread (ps : List Path.Part) :
    Path.ofParts (ps.map spreadPart) = spread (Path.ofParts ps) := by
  have hroot : (ps.map spreadPart == [.root]) = (ps == [.root]) := by
    rw [Bool.eq_iff_iff, beq_iff_eq, beq_iff_eq]
    exact (List.map_injective_iff.2 spreadPart_injective).eq_iff (b := [.root])
  have htexts : (ps.map spreadPart).map Path.Part.text = (ps.map Path.Part.text).map spread := by
    rw [List.map_map, List.map_map]
    exact List.map_congr_left fun p _ => text_spreadPart p
  unfold Path.ofParts
  rw [hroot, htexts]
  split
  · decide
  · rw [spread_joinWith]

/-- **The code of a text is normalised as the text.** -/
theorem normalize_spread (s : String) : Path.normalize (spread s) = spread (Path.normalize s) := by
  have hfold : ∀ ps st : List Path.Part, (ps.map spreadPart).foldl Path.collapse
      (st.map spreadPart) = (ps.foldl Path.collapse st).map spreadPart := by
    intro ps
    induction ps with
    | nil => exact fun st => rfl
    | cons p ps ih =>
      intro st
      rw [List.map_cons, List.foldl_cons, collapse_spread, ih, List.foldl_cons]
  rw [Path.normalize_eq, Path.normalize_eq, Path.stack, parts_spread]
  rw [show ([] : List Path.Part) = [].map spreadPart from rfl, hfold, ← List.map_reverse,
    ofParts_spread]
  rfl

/-- The code of a text starts at the root if the text does. -/
lemma isAbsolute_spread (s : String) : Path.isAbsolute (spread s) = Path.isAbsolute s := by
  have hhead : ∀ s : String, Path.isAbsolute s = true ↔ s.toList.head? = some '/' := by
    intro s
    rw [Path.isAbsolute, Text.startsWith, List.isPrefixOf_iff_prefix]
    cases s.toList with
    | nil => simp
    | cons c cs => simp [eq_comm]
  rw [Bool.eq_iff_iff, hhead, hhead, spread, byteText, String.toList_ofList, List.head?_map,
    ← Text.head?_encode_eq_some_iff (by decide), ← Text.bytes]
  cases (Text.bytes s).head? with
  | none => simp
  | some b => simp [ofNat_toNat_eq_slash_iff]

/-- The code of a text ends in a slash if the text does. -/
lemma getLast?_spread (s : String) :
    ((spread s).toList.getLast? == some '/') = (s.toList.getLast? == some '/') := by
  rw [Bool.eq_iff_iff, beq_iff_eq, beq_iff_eq, spread, byteText, String.toList_ofList,
    List.getLast?_map, Text.bytes]
  rcases List.eq_nil_or_concat s.toList with hnil | ⟨cs, c, hcs⟩
  · rw [hnil]
    simp
  · obtain ⟨bs, b, hcode⟩ :=
      (List.eq_nil_or_concat (String.utf8EncodeChar c)).resolve_left (Text.utf8EncodeChar_ne_nil c)
    have hlast : b ∈ String.utf8EncodeChar c := by simp [hcode]
    rw [hcs, List.concat_eq_append, Text.encode_append, Text.encode_cons, Text.encode_nil, hcode]
    simp only [List.concat_eq_append, List.append_nil, List.getLast?_append,
      List.getLast?_singleton, Option.some_or, Option.map_some, Option.some_inj,
      ofNat_toNat_eq_slash_iff]
    constructor
    · rintro rfl
      exact (Text.mem_utf8EncodeChar_iff (by decide)).1 hlast
    · rintro rfl
      rw [Text.utf8EncodeChar_of_ascii (by decide)] at hlast
      exact List.mem_singleton.1 hlast

/-- **Codes of texts are joined as the texts.** -/
theorem join_spread (base target : String) :
    Path.join (spread base) (spread target) = spread (Path.join base target) := by
  have hempty : (spread base).isEmpty = base.isEmpty := by
    rw [Bool.eq_iff_iff, String.isEmpty_iff, String.isEmpty_iff, ← beq_iff_eq,
      (spread_beq base).1, beq_iff_eq]
  unfold Path.join
  rw [isAbsolute_spread, hempty, getLast?_spread]
  split
  · rfl
  · split
    · rw [spread_append]
    · rw [spread_append, spread_append, spread_slash]

/-- Pieces that are spread are spelled as the path, spread. -/
lemma spell_spread (ps : List Path.Piece) :
    Path.spell (ps.map spreadPiece) = spread (Path.spell ps) := by
  have hroot : ((ps.map spreadPiece).map Path.Piece.part? == [some .root]) =
      (ps.map Path.Piece.part? == [some .root]) := by
    have hparts : (ps.map spreadPiece).map Path.Piece.part? =
        (ps.map Path.Piece.part?).map (Option.map spreadPart) := by
      rw [List.map_map, List.map_map]
      rfl
    rw [hparts, Bool.eq_iff_iff, beq_iff_eq, beq_iff_eq]
    exact (List.map_injective_iff.2 (Option.map_injective spreadPart_injective)).eq_iff
      (b := [some .root])
  have htexts : (ps.map spreadPiece).map Path.Piece.text = (ps.map Path.Piece.text).map spread := by
    rw [List.map_map, List.map_map]
    rfl
  unfold Path.spell
  rw [hroot, htexts]
  split
  · decide
  · rw [spread_joinWith]

/-- A piece that is spread denotes nothing only if the piece does. -/
lemma isNone_spreadPiece :
    (fun q : Path.Piece => q.part?.isNone) ∘ spreadPiece = fun q => q.part?.isNone := by
  funext q
  simp [spreadPiece]

/-- The idle pieces at the end are the same. -/
lemma dropIdleEnd_spread (ps : List Path.Piece) :
    Path.dropIdleEnd (ps.map spreadPiece) = (Path.dropIdleEnd ps).map spreadPiece := by
  rw [Path.dropIdleEnd, ← List.map_reverse, List.dropWhile_map, isNone_spreadPiece,
    ← List.map_reverse]
  rfl

/-- What is left when the parts of a folder are taken off is the same. -/
lemma strip?_spread (rs : List Path.Part) (ps : List Path.Piece) :
    Path.strip? (rs.map spreadPart) (ps.map spreadPiece) =
      (Path.strip? rs ps).map (List.map spreadPiece) := by
  induction ps generalizing rs with
  | nil => cases rs <;> rfl
  | cons q ps ih =>
    obtain ⟨text, part?⟩ := q
    cases rs with
    | nil => rfl
    | cons r rs =>
      cases part? with
      | none => exact ih (r :: rs)
      | some p =>
        rw [Path.strip?]
        by_cases hsame : r = p
        · subst hsame
          rw [if_pos rfl, ← ih]
          exact if_pos rfl
        · rw [if_neg hsame]
          exact if_neg fun h => hsame (spreadPart_injective h)

/-- **The code of a text is seen from a folder as the text.** -/
theorem relativeTo?_spread (root path : String) :
    Path.relativeTo? (spread root) (spread path) = (Path.relativeTo? root path).map spread := by
  unfold Path.relativeTo?
  rw [parts_spread, pieces_spread]
  cases Path.parts root with
  | nil =>
    rw [List.map_nil, dropIdleEnd_spread, spell_spread]
    rfl
  | cons r rs =>
    rw [List.map_cons]
    dsimp only
    rw [← List.map_cons, strip?_spread, Option.map_map, Option.map_map]
    refine congrArg (Option.map · _) (funext fun ps => ?_)
    rw [Function.comp_apply, Function.comp_apply, List.dropWhile_map, isNone_spreadPiece,
      dropIdleEnd_spread, spell_spread]

/-! ### Paths that are texts -/

/-- The text of a code is the code of the text. -/
lemma ofByteText_spread (s : String) : ofByteText (spread s) = Text.bytes s :=
  ofByteText_byteText (Text.bytes s)

/-- **A path that is a text is normalised as the text.** -/
theorem normalize_bytes (s : String) :
    normalize (Text.bytes s) = Text.bytes (Path.normalize s) := by
  rw [normalize, ← spread, normalize_spread, ofByteText_spread]

/-- **Paths that are texts are joined as the texts.** -/
theorem join_bytes (base target : String) :
    join (Text.bytes base) (Text.bytes target) = Text.bytes (Path.join base target) := by
  rw [join, ← spread, ← spread, join_spread, ofByteText_spread]

/-- **A path that is a text is seen from a folder as the text.** -/
theorem relativeTo?_bytes (root path : String) :
    relativeTo? (Text.bytes root) (Text.bytes path) =
      (Path.relativeTo? root path).map Text.bytes := by
  rw [relativeTo?, ← spread, ← spread, relativeTo?_spread, Option.map_map]
  exact congrArg (Option.map · _) (funext ofByteText_spread)

/-- A text without backslashes is shown as it is. -/
lemma map_slash_eq_self {cs : List Char} (h : '\\' ∉ cs) :
    cs.map (fun c => if c == '\\' then '/' else c) = cs := by
  refine (List.map_congr_left fun c hc => ?_).trans (List.map_id cs)
  rw [if_neg]
  · rfl
  · intro heq
    rw [beq_iff_eq.1 heq] at hc
    exact h hc

/-- **The name of a path that is a text** is that of the text: nothing is lost when its bytes are
read. -/
theorem nameFrom_bytes (root path : String) :
    nameFrom (Text.bytes root) (Text.bytes path) =
      String.ofList (((Path.relativeTo? (Path.normalize root) path).getD path).toList.map
        fun c => if c == '\\' then '/' else c) := by
  rw [nameFrom, normalize_bytes, relativeTo?_bytes]
  cases Path.relativeTo? (Path.normalize root) path with
  | none =>
    rw [Option.map_none, Option.getD_none, Option.getD_none, Text.bytes, Text.readLossy_encode]
  | some rel =>
    rw [Option.map_some, Option.getD_some, Option.getD_some, Text.bytes, Text.readLossy_encode]

/-- A name without backslashes is the path as seen from the folder, or the path. -/
lemma nameFrom_bytes_eq_getD {root path : String}
    (h : '\\' ∉ ((Path.relativeTo? (Path.normalize root) path).getD path).toList) :
    nameFrom (Text.bytes root) (Text.bytes path) =
      (Path.relativeTo? (Path.normalize root) path).getD path := by
  rw [nameFrom_bytes, map_slash_eq_self h, String.ofList_toList]

end RawPath

end ProxyLint
