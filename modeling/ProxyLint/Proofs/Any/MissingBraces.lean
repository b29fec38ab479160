import ProxyLint.Proofs.Any.Spelling
import ProxyLint.Proofs.Farm.Faults
import ProxyLint.Proofs.Places.Farm

set_option relaxedAutoImplicit false
set_option autoImplicit false

/-!
# Missing closing braces

The braces at the end of a farm may be missing: its own, and that of a cache that is the last
thing in it. The next farm shows it, since neither a farm nor a cache may hold a block with such
a label; the blocks that are still open are closed in front of it. In the last farm a missing
brace takes the one behind all farms for its own, and the end of the text shows it. So no farm
is lost or merged with another one, and each missing brace is noted.

## Main definitions

* `ProxyLint.Any.SpellsOpen` — tokens spell a farm up to the braces at its end.
* `ProxyLint.Any.Cut` — what is left of farms when braces at their ends are missing.
* `ProxyLint.Any.StandsOpen` — blocks are open that have to be closed.
* `ProxyLint.FarmConfig.ofTokens` — the configuration that tokens stand for.

## Main results

* `ProxyLint.Any.Cut.foldlM_step` — farms with missing braces are read like whole ones.
* `ProxyLint.FarmConfig.ofTokens_of_cut` — missing braces change nothing but what is noted.
-/

namespace ProxyLint

namespace Any

/-! ### Farms with missing braces -/

/-- A closing brace. -/
def Token.closer (source : Source) : Token :=
  ⟨.closing, source⟩

/-- Tokens spell a farm but for a number of braces at its end: its own, and that of a cache that
is the last item of the farm. -/
inductive SpellsOpen : Item → List Token → Nat → Prop where
  | farm {label : Sourced String} {source : Source} {body : List Item} {ts : List Token} :
    Spells body ts →
    SpellsOpen (.block (some label) source body)
      (.ofLabel label :: ⟨.opening, source⟩ :: ts) 1
  | cache {label : Sourced String} {source : Source} {body : List Item} {ts : List Token}
      {place brace : Source} {inner : List Item} {ts' : List Token} :
    Spells body ts → Spells inner ts' →
    SpellsOpen (.block (some label) source (body ++ [.block (some ⟨"cache", place⟩) brace inner]))
      (.ofLabel label :: ⟨.opening, source⟩ ::
        (ts ++ .ofLabel ⟨"cache", place⟩ :: ⟨.opening, brace⟩ :: ts')) 2

/-- Tokens spell farms, one after the other, and of the braces at the end of each farm only some
are left: `Cut farms whole left n` says that `whole` spells the farms, and that `left` is `whole`
without `n` of these braces. -/
inductive Cut : List Item → List Token → List Token → Nat → Prop where
  | nil : Cut [] [] [] 0
  | cons {farm : Item} {farms : List Item} {head whole left : List Token} {k n : Nat}
      {closers kept : List Source} :
    SpellsOpen farm head k → closers.length = k → kept.Sublist closers → Cut farms whole left n →
    Cut (farm :: farms) (head ++ (closers.map Token.closer ++ whole))
      (head ++ (kept.map Token.closer ++ left)) ((k - kept.length) + n)

/-- A document whose last block is the list of farms. -/
def document (before farms : List Token) (place brace closer : Source) : List Token :=
  before ++ .ofLabel ⟨"farms", place⟩ :: ⟨.opening, brace⟩ :: (farms ++ [⟨.closing, closer⟩])

/-- So many braces are missing. -/
lemma Cut.length_left {farms : List Item} {whole left : List Token} {n : Nat}
    (h : Cut farms whole left n) : left.length + n = whole.length := by
  induction h with
  | nil => rfl
  | @cons farm farms head whole left k n closers kept _ hk hkept _ ih =>
    have hle := hkept.length_le
    simp only [List.length_append, List.length_map]
    omega

/-- Farms are blocks with labels. -/
lemma Cut.map_label {farms : List Item} {whole left : List Token} {n : Nat}
    (h : Cut farms whole left n) :
    ((farms.filterMap Item.entry?).map Entry.label).map some = farms.map Item.label? := by
  induction h with
  | nil => rfl
  | cons hfarm _ _ _ ih => cases hfarm <;> simpa [Item.entry?, Item.label?] using ih

/-! ### Spellings in a row -/

/-- Items in a row are spelled by their tokens in a row. -/
lemma Spells.append {items items' : List Item} {ts ts' : List Token} (h : Spells items ts)
    (h' : Spells items' ts') : Spells (items ++ items') (ts ++ ts') := by
  induction h with
  | nil => exact h'
  | value _ ih =>
    rw [List.cons_append, List.append_assoc, List.cons_append]
    exact .value ih
  | block closer hinner _ _ ih =>
    rw [List.cons_append, List.append_assoc, List.cons_append, List.append_assoc, List.cons_append]
    exact .block closer hinner ih

/-- With the braces at its end a farm is spelled. -/
lemma SpellsOpen.spells {farm : Item} {head : List Token} {k : Nat} (h : SpellsOpen farm head k)
    {closers : List Source} (hk : closers.length = k) :
    Spells [farm] (head ++ closers.map Token.closer) := by
  cases h with
  | @farm label source body ts hbody =>
    obtain ⟨closer, rfl⟩ := List.length_eq_one_iff.1 hk
    exact .block closer hbody .nil
  | @cache label source body ts place brace inner ts' hbody hinner =>
    obtain ⟨first, second, rfl⟩ := List.length_eq_two.1 hk
    have hcache : Spells [.block (some ⟨"cache", place⟩) brace inner]
        (labelTokens (some ⟨"cache", place⟩) ++ ⟨.opening, brace⟩ ::
          (ts' ++ [⟨.closing, first⟩])) := .block first hinner .nil
    have hfarm : Spells
        [.block (some label) source (body ++ [.block (some ⟨"cache", place⟩) brace inner])] _ :=
      .block second (hbody.append hcache) .nil
    simpa [labelTokens, Token.closer] using hfarm

/-- The tokens from which braces are taken away spell the farms. -/
lemma Cut.spells {farms : List Item} {whole left : List Token} {n : Nat}
    (h : Cut farms whole left n) : Spells farms whole := by
  induction h with
  | nil => exact .nil
  | cons hopen hk _ _ ih =>
    rw [← List.append_assoc, ← List.singleton_append]
    exact (hopen.spells hk).append ih

/-! ### Unclosed blocks -/

/-- A value is read, and a number of blocks are noted that are never closed. -/
structure ReadsTo {α : Type} (x : Noted α) (a : α) (n : Nat) : Prop where
  value : x.value = a
  faults : x.findings.map Finding.fault = List.replicate n .anyBraceUnclosed

namespace ReadsTo

variable {α β : Type} {a : α} {b : β} {m n : Nat}

/-- What is merely returned has no faults. -/
lemma pure (a : α) : ReadsTo (Pure.pure a : Noted α) a 0 := ⟨rfl, rfl⟩

/-- The faults of two steps are counted together. -/
lemma bind {x : Noted α} {f : α → Noted β} (hx : ReadsTo x a m) (hf : ReadsTo (f a) b n) :
    ReadsTo (x >>= f) b (m + n) := by
  obtain ⟨rfl, hx⟩ := hx
  obtain ⟨rfl, hf⟩ := hf
  refine ⟨rfl, ?_⟩
  rw [Noted.findings_bind, List.map_append, hx, hf, List.replicate_append_replicate]

/-- Nothing more is noted. -/
lemma bind_pure {x : Noted α} {f : α → Noted β} (hx : ReadsTo x a n) (hf : f a = Pure.pure b) :
    ReadsTo (x >>= f) b n := by
  refine hx.bind (n := 0) ?_
  rw [hf]
  exact .pure b

/-- An unclosed block is one fault. -/
lemma noteUnclosed (f : Frame) : ReadsTo f.noteUnclosed () 1 := ⟨rfl, rfl⟩

end ReadsTo

/-- Blocks stand open on top of a block: `StandsOpen base outer n top below` says that `top` is
innermost and `below` are the blocks around it, and that closing `n` blocks, each of which is a
farm or a cache, leaves `base` as the innermost one with `outer` around it. -/
inductive StandsOpen (base : Frame) (outer : List Frame) : Nat → Frame → List Frame → Prop where
  | base : StandsOpen base outer 0 base outer
  | block {n : Nat} {top parent : Frame} {below : List Frame} :
    top.role = .farm ∨ top.role = .cache →
    StandsOpen base outer n (parent.push top.item) below →
    StandsOpen base outer (n + 1) top (parent :: below)

namespace StandsOpen

variable {base top : Frame} {outer below : List Frame} {n : Nat}

/-- A closing brace closes one of the blocks that stand open. -/
lemma step_closer (h : StandsOpen base outer (n + 1) top below) (source : Source) :
    ∃ top' below', StandsOpen base outer n top' below' ∧
      Builder.step { top, outer := below } (Token.closer source) =
        pure { top := top', outer := below' } := by
  cases h with
  | @block _ _ parent below hrole hrest => exact ⟨_, below, hrest, rfl⟩

/-- Closing braces close as many of the blocks that stand open. -/
lemma foldlM_closers {kept : List Source} (h : StandsOpen base outer n top below)
    (hkept : kept.length ≤ n) :
    ∃ top' below', StandsOpen base outer (n - kept.length) top' below' ∧
      (kept.map Token.closer).foldlM Builder.step { top, outer := below } =
        pure { top := top', outer := below' } := by
  induction kept generalizing n top below with
  | nil => exact ⟨top, below, h, rfl⟩
  | cons source kept ih =>
    rw [List.length_cons] at hkept
    obtain ⟨m, rfl⟩ : ∃ m, n = m + 1 := ⟨n - 1, by omega⟩
    obtain ⟨top₁, below₁, h₁, hstep⟩ := h.step_closer source
    obtain ⟨top', below', h', hrest⟩ := ih h₁ (by omega)
    refine ⟨top', below', ?_, ?_⟩
    · rw [List.length_cons, Nat.add_sub_add_right]
      exact h'
    · rw [List.map_cons, List.foldlM_cons, hstep, pure_bind, hrest]

/-- A block that only the base may hold closes all that stands open. -/
lemma closeUntil {label : String} (h : StandsOpen base outer n top below)
    (hbase : base.role.accepts label = true) (hfarm : label ∉ farmBlocks)
    (hcache : label ∉ cacheBlocks) :
    ReadsTo (Builder.closeUntil label top below) (base, outer) n := by
  induction h with
  | base =>
    cases outer with
    | nil => exact .pure _
    | cons parent outer =>
      rw [Builder.closeUntil, if_pos hbase]
      exact .pure _
  | @block n top parent below hrole _ ih =>
    have hrefuses : top.role.accepts label = false := by
      rcases hrole with hrole | hrole <;> simp [hrole, Role.accepts, hfarm, hcache]
    rw [Builder.closeUntil, hrefuses, if_neg Bool.false_ne_true, Nat.add_comm]
    exact (ReadsTo.noteUnclosed top).bind ih

/-- The end of the text closes all that stands open. -/
lemma closeAll (h : StandsOpen base outer n top below) {root : Frame} {m : Nat}
    (hroot : ReadsTo (Builder.closeAll base outer) root m) :
    ReadsTo (Builder.closeAll top below) root (n + m) := by
  induction h with
  | base =>
    rw [Nat.zero_add]
    exact hroot
  | @block n top parent below _ _ ih =>
    rw [Builder.closeAll, Nat.add_comm n 1, Nat.add_assoc]
    exact (ReadsTo.noteUnclosed top).bind ih

/-- The base is one of the open blocks, though items may be missing in it. -/
lemma exists_role (h : StandsOpen base outer n top below) :
    ∃ f ∈ top :: below, f.role = base.role := by
  induction h with
  | base => exact ⟨base, List.mem_cons_self, rfl⟩
  | @block n top parent below _ _ ih =>
    obtain ⟨f, hf, hrole⟩ := ih
    rcases List.mem_cons.1 hf with rfl | hf
    · exact ⟨parent, by simp, hrole⟩
    · exact ⟨f, by simp [hf], hrole⟩

/-- What stands open is closed in front of a block that only the base may hold. -/
lemma recover {label : String} (h : StandsOpen base outer n top below)
    (hbase : base.role = .farms) (hfarm : label ∉ farmBlocks) (hcache : label ∉ cacheBlocks)
    (pending? : Option (Sourced String)) :
    ReadsTo (Builder.recover { top, outer := below, pending? } label)
      { top := base, outer, pending? } n := by
  have haccepts : base.role.accepts label = true := by
    rw [hbase]
    rfl
  have hclose := h.closeUntil haccepts hfarm hcache
  unfold Builder.recover
  cases h with
  | base =>
    rw [haccepts, Bool.true_or, if_pos rfl]
    exact .pure _
  | @block n _ parent below hrole hrest =>
    have hrefuses : top.role.accepts label = false := by
      rcases hrole with hrole | hrole <;> simp [hrole, Role.accepts, hfarm, hcache]
    have hany : ((parent :: below).any fun f => f.role.accepts label) = true := by
      obtain ⟨f, hf, hrole⟩ := hrest.exists_role
      rw [List.any_eq_true]
      rcases List.mem_cons.1 hf with rfl | hf
      · exact ⟨parent, List.mem_cons_self, hrole ▸ haccepts⟩
      · exact ⟨f, List.mem_cons_of_mem _ hf, hrole ▸ haccepts⟩
    rw [hrefuses, hany, Bool.not_true, Bool.or_false, if_neg Bool.false_ne_true]
    exact hclose.bind_pure rfl

/-- What stands open is closed in front of a farm, and the farm is opened in the base. -/
lemma foldlM_farm {label : Sourced String} (h : StandsOpen base outer n top below)
    (hbase : base.role = .farms) (hfarm : label.value ∉ farmBlocks)
    (hcache : label.value ∉ cacheBlocks) {source : Source} {ts : List Token} {b : Builder}
    (hrest : ts.foldlM Builder.step
      { top := ⟨some label, .farm, source, #[]⟩, outer := base :: outer } = pure b) :
    ReadsTo ((Token.ofLabel label :: ⟨.opening, source⟩ :: ts).foldlM Builder.step
      { top, outer := below }) b n := by
  have hrole : base.role.child (some label.value) = .farm := by
    rw [hbase]
    rfl
  have hopen : ReadsTo (Builder.openBlock { top, outer := below, pending? := some label } source)
      { top := ⟨some label, base.role.child (some label.value), source, #[]⟩
        outer := base :: outer } n :=
    (h.recover hbase hfarm hcache (some label)).bind_pure rfl
  rw [hrole] at hopen
  exact hopen.bind_pure (f := fun b => ts.foldlM Builder.step b) hrest

end StandsOpen

/-! ### Reading farms with missing braces -/

/-- Items in a row fit if all of them do. -/
lemma Item.fitAll_append (role : Role) (items items' : List Item) :
    Item.fitAll role (items ++ items') = (Item.fitAll role items && Item.fitAll role items') := by
  induction items with
  | nil => rfl
  | cons item items ih => rw [List.cons_append, Item.fitAll, Item.fitAll, ih, Bool.and_assoc]

/-- A frame with items is closed to a block with these items. -/
@[simp] lemma Frame.item_append (label? : Option (Sourced String)) (role : Role) (source : Source)
    (items : List Item) :
    (Frame.append ⟨label?, role, source, #[]⟩ items).item = .block label? source items := by
  simp [Frame.item, Frame.append]

/-- An item may be appended to the items of a frame before these are. -/
@[simp] lemma Frame.append_push (f : Frame) (items : List Item) (item : Item) :
    (f.append items).push item = f.append (items ++ [item]) := by
  simp [Frame.append, Frame.push, ← Array.toList_inj]

/-- **Reading a farm up to the braces at its end.** All that stands open is noted and closed in
front of it, and then as many blocks stand open as it has braces at its end.

**Proof sketch.** By what is left open at the end. The label of the farm closes what stands open
(`StandsOpen.foldlM_farm`); then its items are read into the open farm, and if its cache is open
too, those of the cache into the open cache. -/
theorem SpellsOpen.foldlM_step {farm : Item} {head : List Token} {k : Nat}
    (h : SpellsOpen farm head k) (hfits : farm.fits .farms = true)
    (hlabel : ∀ label, farm.label? = some label →
      label.value ∉ farmBlocks ∧ label.value ∉ cacheBlocks)
    {base top : Frame} {outer below : List Frame} {n : Nat} (hbase : base.role = .farms)
    (hopen : StandsOpen base outer n top below) :
    ∃ top' below', ReadsTo (head.foldlM Builder.step { top, outer := below })
        { top := top', outer := below' } n ∧
      StandsOpen (base.push farm) outer k top' below' := by
  cases h with
  | @farm label source body ts hbody =>
    obtain ⟨hfarm, hcache⟩ := hlabel label rfl
    simp only [Item.fits, Bool.and_eq_true] at hfits
    have hfill := foldlM_step_of_spells hbody
      { top := ⟨some label, .farm, source, #[]⟩, outer := base :: outer } rfl
      (fun hrole => by cases hrole) hfits.2
    refine ⟨Frame.append ⟨some label, .farm, source, #[]⟩ body, base :: outer,
      hopen.foldlM_farm hbase hfarm hcache hfill, .block (.inl rfl) ?_⟩
    rw [Frame.item_append]
    exact .base
  | @cache label source body ts place brace inner ts' hbody hinner =>
    obtain ⟨hfarm, hcache⟩ := hlabel label rfl
    simp only [Item.fits, Bool.and_eq_true, Item.fitAll_append, Item.fitAll] at hfits
    obtain ⟨-, hfitsBody, ⟨-, hfitsInner⟩, -⟩ := hfits
    have hfill := foldlM_step_of_spells hbody
      { top := ⟨some label, .farm, source, #[]⟩, outer := base :: outer } rfl
      (fun hrole => by cases hrole) hfitsBody
    have hfillInner := foldlM_step_of_spells hinner
      { top := ⟨some ⟨"cache", place⟩, .cache, brace, #[]⟩
        outer := Frame.append ⟨some label, .farm, source, #[]⟩ body :: base :: outer } rfl
      (fun hrole => by cases hrole) hfitsInner
    refine ⟨Frame.append ⟨some ⟨"cache", place⟩, .cache, brace, #[]⟩ inner,
      Frame.append ⟨some label, .farm, source, #[]⟩ body :: base :: outer,
      hopen.foldlM_farm hbase hfarm hcache ?_, .block (.inr rfl) ?_⟩
    · rw [List.foldlM_append, hfill, pure_bind]
      exact hfillInner
    · rw [Frame.item_append, Frame.append_push]
      refine .block (.inl rfl) ?_
      rw [Frame.item_append]
      exact .base

/-- **Farms with missing braces are read like whole ones.** Each missing brace is noted, or the
block that it should close still stands open behind the farms.

**Proof sketch.** Induction on the farms. A whole farm leaves nothing open, and one without its
braces leaves as many blocks open as it has lost (`SpellsOpen.foldlM_step`), which the label of the
next farm closes. -/
theorem Cut.foldlM_step {farms : List Item} {whole left : List Token} {n : Nat}
    (h : Cut farms whole left n) (hfits : Item.fitAll .farms farms = true)
    (hlabels : ∀ farm ∈ farms, ∀ label, farm.label? = some label →
      label.value ∉ farmBlocks ∧ label.value ∉ cacheBlocks)
    {base top : Frame} {outer below : List Frame} {m : Nat} (hbase : base.role = .farms)
    (hopen : StandsOpen base outer m top below) :
    ∃ top' below' noted standing,
      ReadsTo (left.foldlM Builder.step { top, outer := below })
        { top := top', outer := below' } noted ∧
      StandsOpen (base.append farms) outer standing top' below' ∧ noted + standing = m + n := by
  induction h generalizing base top below m with
  | nil =>
    rw [Frame.append_nil]
    exact ⟨top, below, 0, m, .pure _, hopen, Nat.zero_add m⟩
  | @cons farm farms head whole left k n closers kept hfarm hk hkept _ ih =>
    -- what was open is noted in front of the farm, and what the farm leaves open is counted anew
    rw [Item.fitAll, Bool.and_eq_true] at hfits
    obtain ⟨top₁, below₁, hhead, hopen₁⟩ := hfarm.foldlM_step hfits.1
      (hlabels farm List.mem_cons_self) hbase hopen
    obtain ⟨top₂, below₂, hopen₂, hclose⟩ := hopen₁.foldlM_closers (hk ▸ hkept.length_le)
    have hbase' : (base.push farm).role = .farms := hbase
    obtain ⟨top', below', noted, standing, hrest, hopen', hcount⟩ := ih hfits.2
      (fun farm hmem => hlabels farm (List.mem_cons_of_mem _ hmem)) hbase' hopen₂
    refine ⟨top', below', m + noted, standing, ?_, ?_, by omega⟩
    · rw [List.foldlM_append]
      refine hhead.bind ?_
      rw [List.foldlM_append, hclose, pure_bind]
      exact hrest
    · rw [← Frame.push_append]
      exact hopen'

/-- The brace behind all farms, and then the end of the text, close what stands open in the list
of farms and the list itself. -/
lemma StandsOpen.finish {base root top : Frame} {below : List Frame} {n : Nat}
    (h : StandsOpen base [root] n top below) (closer : Source) :
    ReadsTo (Builder.step { top, outer := below } ⟨.closing, closer⟩ >>= Builder.finish)
      (root.push base.item).items.toList n := by
  cases n with
  | zero =>
    cases h
    exact .pure _
  | succ n =>
    -- the brace closes a farm or a cache, so the list itself is open at the end
    obtain ⟨top', below', h', hstep⟩ := h.step_closer closer
    have hbase : ReadsTo (Builder.closeAll base [root]) (root.push base.item) 1 :=
      (ReadsTo.noteUnclosed base).bind_pure rfl
    change ReadsTo (Builder.step { top, outer := below } (Token.closer closer) >>= Builder.finish)
      (root.push base.item).items.toList (n + 1)
    rw [hstep, pure_bind]
    exact (h'.closeAll hbase).bind_pure (f := fun root => pure root.items.toList) rfl

/-- **The tree of farms with missing braces** is that of the whole farms, and each missing brace
is noted once.

**Proof sketch.** The tokens before the farms are read as they are spelled, the farms leave open
what has lost its braces (`Cut.foldlM_step`), and the end of the input closes it. -/
theorem build_of_cut {front farms : List Item} {before whole left : List Token} {n : Nat}
    (hbefore : Spells front before) (hfarms : Cut farms whole left n) (place brace closer : Source)
    (hfits : Item.fitAll .root (front ++ [.block (some ⟨"farms", place⟩) brace farms]) = true)
    (hlabels : ∀ farm ∈ farms, ∀ label, farm.label? = some label →
      label.value ∉ farmBlocks ∧ label.value ∉ cacheBlocks) :
    ReadsTo (build (document before left place brace closer))
      (front ++ [.block (some ⟨"farms", place⟩) brace farms]) n := by
  rw [Item.fitAll_append, Bool.and_eq_true] at hfits
  obtain ⟨hfitsFront, hfitsFarms⟩ := hfits
  simp only [Item.fitAll, Item.fits, Bool.and_eq_true] at hfitsFarms
  unfold build
  dsimp only
  generalize ((document before left place brace closer).head?.map Token.source).getD
    Source.unknown = source
  have hfront := foldlM_step_of_spells hbefore { top := ⟨none, .root, source, #[]⟩ } rfl
    (fun _ => rfl) hfitsFront
  have hlist : ∀ ts, (Token.ofLabel ⟨"farms", place⟩ :: ⟨.opening, brace⟩ :: ts).foldlM Builder.step
      { top := Frame.append ⟨none, .root, source, #[]⟩ front } =
        ts.foldlM Builder.step
          { top := ⟨some ⟨"farms", place⟩, .farms, brace, #[]⟩
            outer := [Frame.append ⟨none, .root, source, #[]⟩ front] } := fun _ => rfl
  have hstart : StandsOpen ⟨some ⟨"farms", place⟩, .farms, brace, #[]⟩
      [Frame.append ⟨none, .root, source, #[]⟩ front] 0
      ⟨some ⟨"farms", place⟩, .farms, brace, #[]⟩ [Frame.append ⟨none, .root, source, #[]⟩ front] :=
    .base
  obtain ⟨top, below, noted, standing, hread, hopen, hcount⟩ := hfarms.foldlM_step
    hfitsFarms.1.2 hlabels rfl hstart
  have hend := hopen.finish closer
  have hitems : (Frame.append ⟨none, .root, source, #[]⟩
      (front ++ [.block (some ⟨"farms", place⟩) brace farms])).items.toList =
        front ++ [.block (some ⟨"farms", place⟩) brace farms] := by
    simp [Frame.append]
  rw [Frame.item_append, Frame.append_push, hitems] at hend
  rw [document, List.foldlM_append, hfront, pure_bind, hlist, List.foldlM_append, bind_assoc,
    ← Nat.zero_add n, ← hcount]
  refine hread.bind ?_
  rw [List.foldlM_cons, bind_assoc]
  exact hend

end Any

namespace FarmConfig

open Any

/-- The configuration that tokens stand for. -/
def ofTokens (ts : List Token) : Noted FarmConfig := do
  decode (← build ts)

/-- Lines stand for the configuration that their tokens stand for. -/
lemma ofLines_eq (lines : List Line) : ofLines lines = tokens lines >>= ofTokens :=
  rfl

/-- **Missing closing braces never merge or lose farms.** A document ends with a list of farms;
no farm has the label of a block of a farm or of a cache, and every block is in its place. If any
of the braces at the ends of the farms are missing, each farm's own and that of a cache that is
the last thing in it, the document stands for the same configuration. So there are as many farms
as are written, in their order and with their labels. And one block that is never closed is noted
for each brace that is missing; no other fault of braces is noted, and what is noted about the
whole document is noted as before.

**Proof sketch.** The blocks that a missing brace leaves open are counted (`StandsOpen`); a label
that only the list of farms accepts closes and notes all of them, so that the count starts again
with each farm (`Cut.foldlM_step`). What the last farm leaves open is closed by the brace of the
list, if there is anything, and by the end of the text, which finds the list itself open then. -/
theorem ofTokens_of_cut {front farms : List Item} {before whole left : List Token} {n : Nat}
    (hbefore : Spells front before) (hfarms : Cut farms whole left n) (place brace closer : Source)
    (hfits : Item.fitAll .root (front ++ [.block (some ⟨"farms", place⟩) brace farms]) = true)
    (hlabels : ∀ farm ∈ farms, ∀ label, farm.label? = some label →
      label.value ∉ farmBlocks ∧ label.value ∉ cacheBlocks) :
    let intact := ofTokens (document before whole place brace closer)
    let damaged := ofTokens (document before left place brace closer)
    damaged.value = intact.value ∧
      damaged.value.farms.length = farms.length ∧
      damaged.value.farms.map (fun f => some f.label) = farms.map Item.label? ∧
      ∃ unclosed, damaged.findings = unclosed ++ intact.findings ∧
        unclosed.map Finding.fault =
          List.replicate (whole.length - left.length) .anyBraceUnclosed ∧
        ∀ f ∈ intact.findings, f.fault ≠ .anyBraceUnclosed ∧ f.fault ≠ .anyBraceMissing := by
  intro intact damaged
  have hintact : intact = decode (front ++ [.block (some ⟨"farms", place⟩) brace farms]) := by
    have hspells : Spells (front ++ [.block (some ⟨"farms", place⟩) brace farms])
        (document before whole place brace closer) :=
      hbefore.append (.block closer hfarms.spells .nil)
    change ofTokens _ = _
    rw [ofTokens, (build_of_spells hfits).2 _ hspells, pure_bind]
  have hread := build_of_cut hbefore hfarms place brace closer hfits hlabels
  have hvalue : damaged.value = intact.value := by
    change (decode (build _).value).value = _
    rw [hread.value, hintact]
  have hlast : lastBlockOf? "farms" (front ++ [.block (some ⟨"farms", place⟩) brace farms]) =
      some farms := by
    simp [lastBlockOf?, Item.labelled?, Content.items?]
  have hforall : List.Forall₂ Farm.WrittenAs damaged.value.farms (farms.filterMap Item.entry?) := by
    have hwritten := (writtenAs_decode
      (front ++ [.block (some ⟨"farms", place⟩) brace farms])).farms
    rw [hlast, Option.getD_some, ← hintact, ← hvalue] at hwritten
    exact hwritten
  have hmap : damaged.value.farms.map (fun f => some f.label) = farms.map Item.label? := by
    have hlabel : damaged.value.farms.map Farm.label =
        (farms.filterMap Item.entry?).map Entry.label := by
      rw [← List.forall₂_eq_eq_eq, List.forall₂_map_left_iff, List.forall₂_map_right_iff]
      exact hforall.imp fun _ _ h => h.label
    rw [← hfarms.map_label, ← hlabel, List.map_map]
    rfl
  refine ⟨hvalue, ?_, hmap, (build (document before left place brace closer)).findings, ?_, ?_, ?_⟩
  · simpa using congrArg List.length hmap
  · change (build _).findings ++ (decode (build _).value).findings = _
    rw [hread.value, hintact]
  · rw [hread.faults, ← hfarms.length_left, Nat.add_sub_cancel_left]
  · intro f hf
    have hof := ofValues_decode (front ++ [.block (some ⟨"farms", place⟩) brace farms]) f
      (hintact ▸ hf)
    constructor <;> intro hfault <;> rw [hfault] at hof <;> cases hof

/-- Three farms: one ends with a cache, one with a value, and one holds nothing. -/
def tornFarms : List Item :=
  [.block (some ⟨"publish", siteLine 2⟩) (siteLine 2)
      [.block (some ⟨"cache", siteLine 3⟩) (siteLine 3)
        [.block (some ⟨"rules", siteLine 4⟩) (siteLine 4) []]],
    .block (some ⟨"author", siteLine 5⟩) (siteLine 5)
      [.value (some ⟨"failover", siteLine 6⟩) ⟨"\"1\"", siteLine 6⟩],
    .block (some ⟨"live", siteLine 7⟩) (siteLine 7) []]

/-- The first farm up to the braces at its end. -/
def tornHead : List Token :=
  [⟨.label "publish", siteLine 2⟩, ⟨.opening, siteLine 2⟩,
    ⟨.label "cache", siteLine 3⟩, ⟨.opening, siteLine 3⟩,
    ⟨.label "rules", siteLine 4⟩, ⟨.opening, siteLine 4⟩, ⟨.closing, siteLine 4⟩]

/-- The other farms, with a number of braces at the end of each. -/
def tornTail (author live : List Token) : List Token :=
  [⟨.label "author", siteLine 5⟩, ⟨.opening, siteLine 5⟩,
    ⟨.label "failover", siteLine 6⟩, ⟨.value "\"1\"", siteLine 6⟩] ++ author ++
  [⟨.label "live", siteLine 7⟩, ⟨.opening, siteLine 7⟩] ++ live

/-- The first farm lacks the brace of its cache and its own, and the last one its own; the second
farm is whole. The three farms are still there, and three blocks are noted. -/
theorem ofTokens_tornFarms :
    let brace : Token := ⟨.closing, siteLine 8⟩
    let whole := tornHead ++ [brace, brace] ++ tornTail [brace] [brace]
    let left := tornHead ++ tornTail [brace] []
    let damaged := ofTokens (document [] left (siteLine 1) (siteLine 1) (siteLine 9))
    Cut tornFarms whole left 3 ∧
      damaged.value.farms.length = 3 ∧
      damaged.value.farms.map (fun f => some f.label) = tornFarms.map Item.label? ∧
      (damaged.findings.map Finding.fault).count .anyBraceUnclosed = 3 := by
  intro brace whole left damaged
  have hcut : Cut tornFarms whole left 3 :=
    .cons (.cache .nil (.block (siteLine 4) .nil .nil)) rfl
      (List.nil_sublist [siteLine 8, siteLine 8])
      (.cons (.farm (.value .nil)) rfl (List.Sublist.refl [siteLine 8])
        (.cons (.farm .nil) rfl (List.nil_sublist [siteLine 8]) .nil))
  obtain ⟨-, hlength, hmap, unclosed, hfindings, hfaults, hothers⟩ :=
    ofTokens_of_cut .nil hcut (siteLine 1) (siteLine 1) (siteLine 9) (by decide) (by decide)
  refine ⟨hcut, hlength, hmap, ?_⟩
  rw [hfindings, List.map_append, hfaults, List.count_append]
  have hnone : ((ofTokens (document [] whole (siteLine 1) (siteLine 1) (siteLine 9))).findings.map
      Finding.fault).count .anyBraceUnclosed = 0 := by
    rw [List.count_eq_zero, List.mem_map]
    rintro ⟨f, hf, hfault⟩
    exact (hothers f hf).1 hfault
  rw [hnone]
  rfl

end FarmConfig

end ProxyLint
