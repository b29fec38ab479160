import Mathlib.Data.List.Basic
import ProxyLint.Noted

set_option relaxedAutoImplicit false
set_option autoImplicit false

/-!
# Forgetting places

Whatever is read from a configuration carries the places where it was written. To
forget them is to put the unknown place in their stead and to leave everything
else as it is. Readers use places only to hand them on, so they commute with
forgetting: this is what the modules of this folder prove, reader by reader.

## Main definitions

* `ProxyLint.Placed` — data with places that can be forgotten.

## Main results

* `ProxyLint.Placed.forget_bind` — readers that commute with forgetting, one after
  the other, commute with it.
-/

namespace ProxyLint

/-- Data with places in it. -/
class Placed (α : Type) where
  /-- The data with every place forgotten. -/
  forget : α → α

namespace Placed

variable {α β : Type} [Placed α] [Placed β]

/-! ### Data -/

instance : Placed Source := ⟨fun _ => .unknown⟩

instance : Placed Unit := ⟨id⟩

instance : Placed String := ⟨id⟩

instance : Placed Int := ⟨id⟩

instance : Placed Bool := ⟨id⟩

instance : Placed (Option α) := ⟨Option.map forget⟩

instance : Placed (List α) := ⟨List.map forget⟩

instance : Placed (α × β) := ⟨Prod.map forget forget⟩

instance : Placed (Sourced α) := ⟨fun s => ⟨forget s.value, .unknown⟩⟩

instance : Placed Line := ⟨fun l => { l with source := .unknown }⟩

instance : Placed Finding := ⟨fun f => { f with source := .unknown }⟩

instance : Placed (Noted α) := ⟨fun x => ⟨forget x.value, forget x.findings⟩⟩

/-- A text has no places. -/
@[simp] lemma forget_string (s : String) : forget s = s := rfl

/-- What is there is still there with its places forgotten. -/
@[simp] lemma forget_some (a : α) : forget (some a) = some (forget a) := rfl

/-- In an empty list there is nothing to forget. -/
@[simp] lemma forget_nil : forget ([] : List α) = [] := rfl

/-- Lists are forgotten member by member. -/
@[simp] lemma forget_cons (a : α) (as : List α) : forget (a :: as) = forget a :: forget as := rfl

/-- Lists in a row are forgotten one by one. -/
@[simp] lemma forget_append (as bs : List α) : forget (as ++ bs) = forget as ++ forget bs :=
  List.map_append

/-- A value that is forgotten has its own places forgotten. -/
@[simp] lemma value_forget_sourced (s : Sourced α) : (forget s).value = forget s.value := rfl

/-- A line keeps its content. -/
@[simp] lemma content_forget (l : Line) : (forget l).content = l.content := rfl

/-- The place of a line is forgotten. -/
@[simp] lemma source_forget_line (l : Line) : (forget l).source = .unknown := rfl

/-- Texts that were written in no place stay as they are. -/
@[simp] lemma forget_strings (as : List String) : forget as = as := List.map_id as

/-- Lines are the same once their places are forgotten if their contents are. -/
lemma forget_lines_eq {ls ls' : List Line}
    (h : ls.map Line.content = ls'.map Line.content) : forget ls = forget ls' := by
  have hforget : ∀ ls : List Line,
      forget ls = (ls.map Line.content).map fun c => ⟨c, .unknown⟩ := by
    intro ls
    rw [List.map_map]
    rfl
  rw [hforget ls, hforget ls', h]

/-- Findings are the same once their places are forgotten if they are the same
faults with the same contexts. -/
lemma forget_findings_eq {fs fs' : List Finding}
    (h : fs.map (fun f => (f.fault, f.context)) = fs'.map fun f => (f.fault, f.context)) :
    forget fs = forget fs' := by
  have hforget : ∀ fs : List Finding,
      forget fs = (fs.map fun f => (f.fault, f.context)).map fun p => ⟨p.1, p.2, .unknown⟩ := by
    intro fs
    rw [List.map_map]
    rfl
  rw [hforget fs, hforget fs', h]

/-! ### Readers -/

/-- What is merely returned may be forgotten before. -/
@[simp] lemma forget_pure (a : α) : forget (pure a : Noted α) = pure (forget a) := rfl

/-- A fault keeps its context. -/
@[simp] lemma forget_note (fault : Fault) (context : String) (source : Source) :
    forget (note fault context source) = note fault context .unknown := rfl

/-- Readers that commute with forgetting, one after the other, commute with it. -/
theorem forget_bind {f g : α → Noted β} (h : ∀ a, g (forget a) = forget (f a)) (x : Noted α) :
    forget x >>= g = forget (x >>= f) := by
  have hx : (forget x).value = forget x.value := rfl
  have hb : (forget (x >>= f)).findings = forget (x.findings ++ (f x.value).findings) := rfl
  refine Noted.ext ?_ ?_
  · rw [Noted.value_bind, hx, h]
    rfl
  · rw [Noted.findings_bind, hx, h, hb, forget_append]
    rfl

/-- A note in front of a reader. -/
lemma note_bind_forget {x y : Noted α} (h : y = forget x) (fault : Fault) (context : String)
    (source : Source) :
    (do note fault context .unknown; y) = forget (do note fault context source; x) := by
  rw [← forget_note fault context source]
  exact forget_bind (fun _ => h) _

/-- A reader that goes through a list commutes with forgetting if each of its steps
does. -/
theorem foldlM_forget {f : α → β → Noted α}
    (h : ∀ a b, f (forget a) (forget b) = forget (f a b)) (bs : List β) (a : α) :
    (forget bs).foldlM f (forget a) = forget (bs.foldlM f a) := by
  induction bs generalizing a with
  | nil => rfl
  | cons b bs ih =>
    rw [forget_cons, List.foldlM_cons, List.foldlM_cons, h]
    exact forget_bind ih _

end Placed

end ProxyLint
