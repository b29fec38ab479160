import Mathlib.Data.List.Basic
import Mathlib.Logic.Function.Iterate
import ProxyLint.Any.Block
import ProxyLint.Proofs.Any.Conservation

set_option relaxedAutoImplicit false
set_option autoImplicit false

/-!
# Open blocks

While tokens are read, the blocks that stand open have roles of one shape: the whole configuration
is the outermost one, the list of farms, a farm and its cache may follow in this order, and all
blocks further in are of no special kind. A block is refused only by the whole configuration, a farm
and a cache, and the list of farms is around every farm. So the recovery of missing braces never
closes more than a farm and its cache.

## Main definitions

* `ProxyLint.Any.Nested` — the shape of the roles of open blocks.
* `ProxyLint.Any.Builder.close` — the innermost block is closed.
* `ProxyLint.Any.Builder.Recovers` — what recovery does.

## Main results

* `ProxyLint.Any.Nested.recovers` — recovery closes a farm and its cache at most.
* `ProxyLint.Any.Nested.step`, `ProxyLint.Any.Nested.foldlM` — one token, and so every sequence of
  tokens, keeps the shape.
* `ProxyLint.Any.openBlocks_of_tokens` — both for the states that reading passes through.
-/

namespace ProxyLint.Any

/-! ### Roles of open blocks -/

/-- The roles from the whole configuration down to the cache of a farm. -/
def spine : List Role :=
  [.root, .farms, .farm, .cache]

/-- The roles of open blocks, from the outermost one: the first of the spine, at least one of them,
and then blocks of no special kind. -/
def Nested (roles : List Role) : Prop :=
  ∃ k n, roles = spine.take (k + 1) ++ List.replicate n .other

/-- At the top there are lists of farms and blocks of no importance. -/
lemma Role.child_root (label? : Option String) :
    Role.root.child label? = .farms ∨ Role.root.child label? = .other := by
  cases label? with
  | none => exact .inr rfl
  | some label => exact ite_eq_or_eq _ _ _

/-- In a farm there are caches and blocks of no importance. -/
lemma Role.child_farm (label? : Option String) :
    Role.farm.child label? = .cache ∨ Role.farm.child label? = .other := by
  cases label? with
  | none => exact .inr rfl
  | some label => exact ite_eq_or_eq _ _ _

namespace Nested

variable {roles : List Role} {role : Role}

/-- The outermost blocks have the shape on their own. -/
lemma of_isPrefix {roles' : List Role} (h : Nested roles) (hpre : roles' <+: roles)
    (hne : roles' ≠ []) : Nested roles' := by
  obtain ⟨k, n, rfl⟩ := h
  have htake := List.prefix_iff_eq_take.1 hpre
  obtain ⟨m, hm⟩ : ∃ m, roles'.length = m + 1 :=
    Nat.exists_eq_succ_of_ne_zero fun hlen => hne (List.length_eq_zero_iff.1 hlen)
  rw [hm, List.take_append, List.take_take, List.take_replicate, Nat.add_min_add_right] at htake
  exact ⟨_, _, htake⟩

/-- What is around the innermost block is determined by its role, unless that is of no special
kind. -/
lemma around (h : Nested (roles ++ [role])) :
    role = .root ∧ roles = [] ∨ role = .farms ∧ roles = [.root] ∨
      role = .farm ∧ roles = [.root, .farms] ∨ role = .cache ∧ roles = [.root, .farms, .farm] ∨
      role = .other := by
  obtain ⟨k, n, hroles⟩ := h
  cases n with
  | succ n =>
    rw [List.replicate_succ', ← List.append_assoc] at hroles
    exact .inr (.inr (.inr (.inr (List.cons.inj (List.append_inj' hroles rfl).2).1)))
  | zero =>
    rw [List.replicate_zero, List.append_nil] at hroles
    have hsplit : ∀ ps p, spine.take (k + 1) = ps ++ [p] → role = p ∧ roles = ps := by
      intro ps p hps
      obtain ⟨h, h'⟩ := List.append_inj' (hroles.trans hps) rfl
      exact ⟨(List.cons.inj h').1, h⟩
    match k with
    | 0 => exact .inl (hsplit [] .root rfl)
    | 1 => exact .inr (.inl (hsplit [.root] .farms rfl))
    | 2 => exact .inr (.inr (.inl (hsplit [.root, .farms] .farm rfl)))
    | k + 3 =>
      have hall : spine.take (k + 3 + 1) = spine := List.take_of_length_le (by simp [spine])
      exact .inr (.inr (.inr (.inl (hsplit [.root, .farms, .farm] .cache hall))))

/-- A block that is opened has its place in the shape. -/
lemma concat_child (h : Nested (roles ++ [role])) (label? : Option String) :
    Nested (roles ++ [role] ++ [role.child label?]) := by
  have hother : role.child label? = .other → Nested (roles ++ [role] ++ [role.child label?]) := by
    intro hchild
    obtain ⟨k, n, hroles⟩ := h
    exact ⟨k, n + 1, by rw [hchild, hroles, List.append_assoc, List.replicate_succ']⟩
  rcases h.around with ⟨rfl, rfl⟩ | ⟨rfl, rfl⟩ | ⟨rfl, rfl⟩ | ⟨rfl, rfl⟩ | rfl
  · rcases Role.child_root label? with hchild | hchild
    · exact ⟨1, 0, by rw [hchild]; rfl⟩
    · exact hother hchild
  · cases label? with
    | none => exact hother rfl
    | some label => exact ⟨2, 0, rfl⟩
  · rcases Role.child_farm label? with hchild | hchild
    · exact ⟨3, 0, by rw [hchild]; rfl⟩
    · exact hother hchild
  · exact hother rfl
  · exact hother rfl

end Nested

/-! ### Closing blocks -/

namespace Frame

/-- What is noted for a block that is never closed. -/
def unclosed (f : Frame) : Finding :=
  let context :=
    match f.label? with
    | some label => "block /" ++ label.value ++ " is never closed"
    | none => "block is never closed"
  ⟨.anyBraceUnclosed, context, f.source⟩

/-- An item does not change what a frame reports if it is left open. -/
@[simp] lemma unclosed_push (f : Frame) (item : Item) : (f.push item).unclosed = f.unclosed := rfl

/-- An item does not change the role of a frame. -/
@[simp] lemma role_push (f : Frame) (item : Item) : (f.push item).role = f.role := rfl

end Frame

namespace Builder

/-- The state in which reading starts: only the whole configuration is open. -/
def start (source : Source) : Builder :=
  { top := ⟨none, .root, source, #[]⟩ }

/-- The open blocks, innermost first. -/
def stack (b : Builder) : List Frame :=
  b.top :: b.outer

/-- The roles of the open blocks, from the outermost one. -/
def roles (b : Builder) : List Role :=
  b.stack.reverse.map Frame.role

/-- The innermost block is closed and becomes an item of the one around it; the whole configuration
stays open. -/
def close (b : Builder) : Builder :=
  match b.outer with
  | [] => b
  | parent :: outer => { b with top := parent.push b.top.item, outer }

/-- Recovery for a block with that label closes the `n` innermost blocks. They are farms and caches
which cannot hold the block, one finding stands for each of them from the inside, and the block
around them can hold it; if no block can, none is closed. -/
structure Recovers (b : Builder) (label : String) (n : Nat) : Prop where
  le_two : n ≤ 2
  lt_length : n < b.stack.length
  recover : b.recover label = ⟨close^[n] b, (b.stack.take n).map Frame.unclosed⟩
  closed : ∀ f ∈ b.stack.take n, f.role = .farm ∨ f.role = .cache
  refuses : ∀ f ∈ b.stack.take n, f.role.accepts label = false
  accepts : (∃ f ∈ b.stack, f.role.accepts label = true) →
    (close^[n] b).top.role.accepts label = true
  none_of_refuses : (∀ f ∈ b.stack, f.role.accepts label = false) → n = 0

/-- The roles of the open blocks, outermost first, end with that of the innermost. -/
lemma roles_eq (b : Builder) : b.roles = (b.outer.map Frame.role).reverse ++ [b.top.role] := by
  simp [roles, stack]

/-- Closing the innermost block leaves the roles of those around it. -/
lemma roles_close_isPrefix (b : Builder) : b.close.roles <+: b.roles := by
  obtain ⟨top, _ | ⟨parent, outer⟩, pending?⟩ := b
  · exact List.prefix_rfl
  · exact ⟨[top.role], by simp [close, roles, stack]⟩

/-- The block that takes the closed one in has an item more, and nothing else is new in the blocks
that stay open. -/
lemma map_stack_close {α : Type} {g : Frame → α} (hg : ∀ f item, g (Frame.push f item) = g f)
    {b : Builder} (hne : b.outer ≠ []) : b.close.stack.map g = b.outer.map g := by
  obtain ⟨top, _ | ⟨parent, outer⟩, pending?⟩ := b
  · exact absurd rfl hne
  · exact congrArg (· :: outer.map g) (hg parent top.item)

/-- There is always an open block. -/
lemma roles_ne_nil (b : Builder) : b.roles ≠ [] := by
  simp [roles, stack]

end Builder

/-! ### Recovery -/

namespace Builder

variable {b : Builder} {label : String}

/-- What the roles of the blocks around the innermost one are does not change if it is closed. -/
lemma exists_accepts_close (h : ∃ f ∈ b.outer, f.role.accepts label = true) :
    ∃ f ∈ b.close.stack, f.role.accepts label = true := by
  obtain ⟨f, hf, haccepts⟩ := h
  have hrole : f.role ∈ b.close.stack.map Frame.role := by
    rw [map_stack_close Frame.role_push (List.ne_nil_of_mem hf)]
    exact List.mem_map_of_mem hf
  obtain ⟨f', hf', heq⟩ := List.mem_map.1 hrole
  exact ⟨f', hf', heq ▸ haccepts⟩

/-- A label that fits the innermost block closes nothing. -/
lemma recover_of_accepts (h : b.top.role.accepts label = true) : b.recover label = pure b := by
  simp [recover, h]

/-- A label that fits no open block closes nothing. -/
lemma recover_of_refuse (h : ∀ f ∈ b.outer, f.role.accepts label = false) :
    b.recover label = pure b := by
  have hany : b.outer.any (fun f => f.role.accepts label) = false := by simpa using h
  simp [recover, hany]

/-- If some block can hold the new one, then blocks are closed until the innermost one can. -/
lemma recover_eq_closeUntil (h : ∃ f ∈ b.stack, f.role.accepts label = true) :
    b.recover label = do
      let (top, outer) ← closeUntil label b.top b.outer
      return { b with top, outer } := by
  obtain ⟨top, outer, pending?⟩ := b
  by_cases htop : top.role.accepts label = true
  · rw [recover_of_accepts htop]
    cases outer with
    | nil => rfl
    | cons parent outer =>
      rw [closeUntil, if_pos htop]
      rfl
  · obtain ⟨f, hf, haccepts⟩ := h
    have hmem : f ∈ outer := by
      refine (List.mem_cons.1 hf).resolve_left ?_
      rintro rfl
      exact htop haccepts
    have hany : outer.any (fun f => f.role.accepts label) = true :=
      List.any_eq_true.2 ⟨f, hmem, haccepts⟩
    rw [recover, if_neg]
    simp [htop, hany]

/-- A block that refuses the new one is closed first if another one can hold it. -/
lemma recover_of_refuses (htop : b.top.role.accepts label = false)
    (houter : ∃ f ∈ b.outer, f.role.accepts label = true) :
    b.recover label =
      ⟨(b.close.recover label).value, b.top.unclosed :: (b.close.recover label).findings⟩ := by
  have hclose := exists_accepts_close houter
  obtain ⟨f, hf, haccepts⟩ := houter
  rw [recover_eq_closeUntil hclose, recover_eq_closeUntil ⟨f, List.mem_cons_of_mem _ hf, haccepts⟩]
  obtain ⟨top, _ | ⟨parent, outer⟩, pending?⟩ := b
  · simp at hf
  · rw [closeUntil, if_neg (by simp [htop])]
    rfl

namespace Recovers

/-- Nothing is closed where the innermost block can hold the new one if any block can. -/
lemma zero (hrecover : b.recover label = pure b)
    (haccepts : (∃ f ∈ b.stack, f.role.accepts label = true) →
      b.top.role.accepts label = true) : b.Recovers label 0 where
  le_two := Nat.zero_le 2
  lt_length := Nat.succ_pos _
  recover := hrecover
  closed := by simp
  refuses := by simp
  accepts := haccepts
  none_of_refuses := fun _ => rfl

/-- A label that fits needs no brace. -/
lemma zero_of_accepts (h : b.top.role.accepts label = true) : b.Recovers label 0 :=
  zero (recover_of_accepts h) fun _ => h

/-- A label that fits nowhere is left where it stands. -/
lemma zero_of_refuse (h : ∀ f ∈ b.stack, f.role.accepts label = false) : b.Recovers label 0 := by
  refine zero (recover_of_refuse fun f hf => h f (List.mem_cons_of_mem _ hf)) ?_
  rintro ⟨f, hf, haccepts⟩
  exact absurd haccepts (by simp [h f hf])

/-- What holds of the role of the innermost block, and of those closed after it, holds of all that
are closed. -/
lemma forall_mem_take_succ {P : Role → Prop} {n : Nat} (htop : P b.top.role)
    (h : ∀ f ∈ b.close.stack.take n, P f.role) (hne : b.outer ≠ []) :
    ∀ f ∈ b.stack.take (n + 1), P f.role := by
  rw [stack, List.take_succ_cons, List.forall_mem_cons]
  refine ⟨htop, fun f hf => ?_⟩
  have hmem := List.mem_map_of_mem (f := Frame.role) hf
  rw [List.map_take, ← map_stack_close Frame.role_push hne, ← List.map_take] at hmem
  obtain ⟨f', hf', heq⟩ := List.mem_map.1 hmem
  exact heq ▸ h f' hf'

/-- A farm or a cache that refuses the new block is closed first. -/
lemma succ {n : Nat} (h : b.close.Recovers label n) (hn : n < 2)
    (hrole : b.top.role = .farm ∨ b.top.role = .cache) (htop : b.top.role.accepts label = false)
    (houter : ∃ f ∈ b.outer, f.role.accepts label = true) : b.Recovers label (n + 1) := by
  have hne : b.outer ≠ [] := by
    obtain ⟨f, hf, -⟩ := houter
    exact List.ne_nil_of_mem hf
  exact
  { le_two := hn
    lt_length := by
      have hlt := h.lt_length
      rw [← List.length_map (f := Frame.role), map_stack_close Frame.role_push hne,
        List.length_map] at hlt
      exact Nat.succ_lt_succ hlt
    recover := by
      rw [recover_of_refuses htop houter, h.recover, List.map_take,
        map_stack_close Frame.unclosed_push hne, ← List.map_take]
      rfl
    closed :=
      forall_mem_take_succ (P := fun role => role = .farm ∨ role = .cache) hrole h.closed hne
    refuses :=
      forall_mem_take_succ (P := fun role => role.accepts label = false) htop h.refuses hne
    accepts := fun _ => h.accepts (exists_accepts_close houter)
    none_of_refuses := fun hnone => by
      obtain ⟨f, hf, haccepts⟩ := houter
      exact absurd haccepts (by simp [hnone f (List.mem_cons_of_mem _ hf)]) }

end Recovers

end Builder

/-! ### Steps of the reading -/

namespace Nested

variable {b : Builder}

/-- At the start the one open block is the root. -/
lemma start (source : Source) : Nested (Builder.start source).roles :=
  ⟨0, 0, rfl⟩

/-- Closing the innermost block leaves the others nested. -/
lemma close (h : Nested b.roles) : Nested b.close.roles :=
  h.of_isPrefix b.roles_close_isPrefix b.close.roles_ne_nil

/-- Closing any number of blocks leaves the others nested. -/
lemma close_iterate (h : Nested b.roles) (m : Nat) : Nested (Builder.close^[m] b).roles := by
  induction m with
  | zero => exact h
  | succ m ih =>
    rw [Function.iterate_succ_apply']
    exact ih.close

/-- A farm is in the list of farms, which can hold any block. -/
lemma recovers_farm (hrole : b.top.role = .farm) (houter : b.outer.map Frame.role = [.farms, .root])
    (label : String) : ∃ n < 2, b.Recovers label n := by
  by_cases htop : b.top.role.accepts label = true
  · exact ⟨0, Nat.two_pos, .zero_of_accepts htop⟩
  rw [Bool.not_eq_true] at htop
  obtain ⟨top, outer, pending?⟩ := b
  obtain ⟨farms, outer, rfl, hfarms, -⟩ := List.map_eq_cons_iff.1 houter
  have haccepts : farms.role.accepts label = true := by rw [hfarms]; rfl
  exact ⟨1, Nat.one_lt_two, .succ (.zero_of_accepts haccepts) Nat.two_pos (.inl hrole) htop
    ⟨farms, List.mem_cons_self, haccepts⟩⟩

/-- **Recovery closes a farm and its cache at most**, and no more of them than it has to. -/
theorem recovers (h : Nested b.roles) (label : String) : ∃ n, b.Recovers label n := by
  by_cases htop : b.top.role.accepts label = true
  · exact ⟨0, .zero_of_accepts htop⟩
  rw [Bool.not_eq_true] at htop
  rw [Builder.roles_eq] at h
  rcases h.around with ⟨-, houter⟩ | ⟨hrole, -⟩ | ⟨hrole, houter⟩ | ⟨hrole, houter⟩ | hrole
  · rw [List.reverse_eq_nil_iff, List.map_eq_nil_iff] at houter
    exact ⟨0, .zero_of_refuse (by simp [Builder.stack, houter, htop])⟩
  · simp [hrole, Role.accepts] at htop
  · obtain ⟨n, -, hn⟩ := recovers_farm hrole (List.reverse_eq_iff.1 houter) label
    exact ⟨n, hn⟩
  · -- once the cache is closed, the farm around it is innermost
    rw [List.reverse_eq_iff] at houter
    obtain ⟨top, outer, pending?⟩ := b
    obtain ⟨farm, outer, rfl, hfarm, hrest⟩ := List.map_eq_cons_iff.1 houter
    obtain ⟨farms, outer, rfl, hfarms, -⟩ := List.map_eq_cons_iff.1 hrest
    obtain ⟨n, hlt, hn⟩ := recovers_farm
      (b := Builder.close ⟨top, farm :: farms :: outer, pending?⟩) hfarm hrest label
    exact ⟨n + 1, hn.succ hlt (.inr hrole) htop ⟨farms, by simp, by rw [hfarms]; rfl⟩⟩
  · simp [hrole, Role.accepts] at htop

/-- A block that is opened keeps the shape. -/
lemma openBlock (h : Nested b.roles) (source : Source) :
    Nested (b.openBlock source).value.roles := by
  have hopen : ∀ {b' : Builder} (label? : Option (Sourced String)) (role : Role),
      Nested b'.roles → role = b'.top.role.child (label?.map Sourced.value) →
      Nested (Builder.roles { top := ⟨label?, role, source, #[]⟩, outer := b'.stack }) := by
    intro b' label? role h' hrole
    rw [Builder.roles_eq] at h' ⊢
    rw [hrole, Builder.stack, List.map_cons, List.reverse_cons]
    exact h'.concat_child _
  obtain ⟨top, outer, pending?⟩ := b
  cases pending? with
  | none => exact hopen none _ h rfl
  | some label =>
    obtain ⟨n, hn⟩ := h.recovers label.value
    rw [Builder.openBlock]
    simp only [hn.recover]
    exact hopen (some label) _ (h.close_iterate n) rfl

/-- One token keeps the shape. -/
theorem step (h : Nested b.roles) (t : Token) : Nested (b.step t).value.roles := by
  obtain ⟨symbol, source⟩ := t
  cases symbol with
  | label name =>
    rw [Builder.step_label]
    exact h
  | value text =>
    rw [Builder.roles_eq] at h ⊢
    exact h
  | opening => exact h.openBlock source
  | closing =>
    obtain ⟨top, _ | ⟨parent, outer⟩, pending?⟩ := b
    · rw [Builder.step_closing_nil]
      exact h
    · rw [Builder.step_closing_cons]
      exact h.close

/-- Every sequence of tokens keeps the shape. -/
theorem foldlM (h : Nested b.roles) (ts : List Token) :
    Nested (ts.foldlM Builder.step b).value.roles := by
  induction ts generalizing b with
  | nil => exact h
  | cons t ts ih =>
    rw [List.foldlM_cons]
    exact ih (h.step t)

end Nested

/-! ### The states of a reading -/

namespace Builder

/-- The blocks that are open at the end are closed one by one, each with its finding. -/
lemma closeAll_eq (b : Builder) :
    closeAll b.top b.outer = ⟨(close^[b.outer.length] b).top,
      (b.stack.take b.outer.length).map Frame.unclosed⟩ := by
  obtain ⟨top, outer, pending?⟩ := b
  induction outer generalizing top with
  | nil => rfl
  | cons parent outer ih =>
    have hrest := ih (parent.push top.item)
    rw [List.map_take] at hrest ⊢
    rw [closeAll, hrest]
    rfl

end Builder

/-- What is read is in the whole configuration, once all blocks in it are closed. -/
theorem build_eq_close (ts : List Token) :
    let source := (ts.head?.map Token.source).getD Source.unknown
    let b := (ts.foldlM Builder.step (Builder.start source)).value
    (build ts).value = (Builder.close^[b.outer.length] b).top.items.toList := by
  intro source b
  have hfinish : (build ts).value = b.finish.value := rfl
  rw [hfinish, Builder.finish_eq, Builder.closeAll_eq]

/-- **Open blocks** in every state that reading reaches, the blocks closed at the end included, are
the first of the whole configuration, the list of farms, a farm and its cache, at least one of them,
and then blocks of no special kind. In each of these states recovery closes two blocks at most, each
a farm or a cache, from the inside and with one finding each. Then the innermost block can hold the
new one, unless no open block can, and in this case nothing is closed. -/
theorem openBlocks_of_tokens (source : Source) (ts : List Token) :
    let b := (ts.foldlM Builder.step (Builder.start source)).value
    (∀ m, Nested (Builder.close^[m] b).roles) ∧ ∀ label, ∃ n, b.Recovers label n := by
  have h := (Nested.start source).foldlM ts
  exact ⟨h.close_iterate, h.recovers⟩

end ProxyLint.Any
