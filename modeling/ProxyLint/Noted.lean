import ProxyLint.Violation

/-!
# Values with findings

Reading a configuration never stops at a fault: it goes on with some value and
notes the fault. A `Noted` value is what was read together with the findings, in
the order in which they were noted.

## Main definitions

* `ProxyLint.Noted` — a value with findings; a lawful monad.
* `ProxyLint.note` — notes one fault.
-/

set_option relaxedAutoImplicit false
set_option autoImplicit false

namespace ProxyLint

/-- A value and what was found while it was read. -/
structure Noted (α : Type) where
  /-- The value. -/
  value : α
  /-- The findings in order. -/
  findings : List Finding
  deriving DecidableEq, Repr, Inhabited

namespace Noted

/-- First one value, then another that depends on it. -/
def andThen {α β : Type} (x : Noted α) (f : α → Noted β) : Noted β :=
  let y := f x.value
  ⟨y.value, x.findings ++ y.findings⟩

instance : Monad Noted where
  pure a := ⟨a, []⟩
  bind := andThen

/-- What is merely returned is the value. -/
@[simp] theorem value_pure {α : Type} (a : α) : (pure a : Noted α).value = a := rfl

/-- Nothing is noted where a value is merely returned. -/
@[simp] theorem findings_pure {α : Type} (a : α) : (pure a : Noted α).findings = [] := rfl

/-- The value of two steps is that of the second, run on the value of the first. -/
@[simp] theorem value_bind {α β : Type} (x : Noted α) (f : α → Noted β) :
    (x >>= f).value = (f x.value).value := rfl

/-- The faults of two steps are noted in the order of the steps. -/
@[simp] theorem findings_bind {α β : Type} (x : Noted α) (f : α → Noted β) :
    (x >>= f).findings = x.findings ++ (f x.value).findings := rfl

/-- Results with the same value and the same faults are the same. -/
@[ext] theorem ext {α : Type} {x y : Noted α} (hv : x.value = y.value)
    (hf : x.findings = y.findings) : x = y := by
  cases x; cases y; simp_all

instance : LawfulMonad Noted :=
  LawfulMonad.mk' Noted
    (fun x => by ext1 <;> simp [Functor.map, andThen])
    (fun a f => by ext1 <;> simp)
    (fun x f g => by ext1 <;> simp)

end Noted

/-- Notes one fault. -/
def note (fault : Fault) (context : String) (source : Source) : Noted Unit :=
  ⟨(), [⟨fault, context, source⟩]⟩

end ProxyLint
