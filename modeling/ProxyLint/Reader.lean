/-!
# Readers that make progress

A reader takes a value off the front of a text and leaves less than it was
given. That a reader cannot stand still is part of its type, so that readers can
be repeated without a bound on the number of repetitions.

## Main definitions

* `ProxyLint.Rest` — what a reader leaves.
* `ProxyLint.Reader` — a reader of values.
* `ProxyLint.Skip` — what may be passed over, possibly nothing.
* `ProxyLint.Reader.iterate` — repeats a reader until it says that it is done.
-/

set_option relaxedAutoImplicit false
set_option autoImplicit false

namespace ProxyLint

/-- What a reader leaves of a text: less than it was given. -/
abbrev Rest (cs : List Char) := { rest : List Char // rest.length < cs.length }

namespace Rest

/-- What is left when the first character is taken. -/
def tail (c : Char) (rest : List Char) : Rest (c :: rest) :=
  ⟨rest, by simp⟩

/-- What is left of what is left. -/
def trans {cs : List Char} (r : Rest cs) (s : Rest r.val) : Rest cs :=
  ⟨s.val, Nat.lt_trans s.property r.property⟩

/-- What is left of a part that is no longer than the whole. -/
def widen {cs ds : List Char} (h : ds.length ≤ cs.length) (r : Rest ds) : Rest cs :=
  ⟨r.val, Nat.lt_of_lt_of_le r.property h⟩

end Rest

/-- What may be passed over, possibly nothing. -/
structure Skip where
  /-- What is left. -/
  skip : List Char → List Char
  /-- No more is left than was given. -/
  length_le : ∀ cs, (skip cs).length ≤ cs.length

/-- Passes over the characters of a class. -/
def Skip.all (p : Char → Bool) : Skip :=
  ⟨List.dropWhile p, fun _ => (List.dropWhile_suffix p).length_le⟩

/-- A reader of values at the front of a text. -/
structure Reader (α : Type) where
  /-- The value at the front and what is left, if there is a value. -/
  read? : (cs : List Char) → Option (α × Rest cs)

/-- Whether a repeated reader goes on. -/
inductive Progress (σ α : Type) where
  /-- It goes on from a state. -/
  | more (state : σ)
  /-- It is done with a value. -/
  | done (value : α)
  deriving Repr

namespace Reader

variable {α β σ : Type}

/-- Reads one character that has a value. -/
def one (f : Char → Option α) : Reader α :=
  ⟨fun
    | c :: rest => (f c).map fun a => (a, Rest.tail c rest)
    | [] => none⟩

/-- Reads the given character. -/
def char (c : Char) : Reader Unit :=
  one fun d => if d == c then some () else none

/-- Reads as many characters of a class as there are, and at least one. -/
def run (p : Char → Bool) : Reader (List Char) :=
  ⟨fun
    | c :: rest =>
      if p c then
        some (c :: rest.takeWhile p,
          ⟨rest.dropWhile p,
            Nat.lt_succ_of_le (List.dropWhile_suffix p).length_le⟩)
      else none
    | [] => none⟩

/-- Reads a value that a function accepts. -/
def filterMap (r : Reader α) (f : α → Option β) : Reader β :=
  ⟨fun cs => (r.read? cs).bind fun (a, rest) => (f a).map fun b => (b, rest)⟩

/-- Applies a function to what is read. -/
def map (r : Reader α) (f : α → β) : Reader β :=
  r.filterMap fun a => some (f a)

/-- Reads a value and then what the value asks for. -/
def bind (r : Reader α) (f : α → Reader β) : Reader β :=
  ⟨fun cs => (r.read? cs).bind fun (a, rest) =>
    ((f a).read? rest.val).map fun (b, left) => (b, rest.trans left)⟩

/-- Reads a value and then another one, which is kept. -/
def andThen (r : Reader α) (s : Reader β) : Reader β :=
  r.bind fun _ => s

/-- Reads a value, which is kept, and then another one. -/
def followedBy (r : Reader α) (s : Reader β) : Reader α :=
  r.bind fun a => s.map fun _ => a

/-- Reads with the second reader what the first one cannot read. -/
def orElse (r s : Reader α) : Reader α :=
  ⟨fun cs => (r.read? cs).orElse fun _ => s.read? cs⟩

/-- Reads a value after what is passed over. -/
def skipping (k : Skip) (r : Reader α) : Reader α :=
  ⟨fun cs => (r.read? (k.skip cs)).map fun (a, rest) => (a, rest.widen (k.length_le cs))⟩

/-- Reads a value and passes over what may follow it. -/
def trailing (r : Reader α) (k : Skip) : Reader α :=
  ⟨fun cs => (r.read? cs).map fun (a, rest) =>
    (a, ⟨k.skip rest.val, Nat.lt_of_le_of_lt (k.length_le _) rest.property⟩)⟩

/-- Reads until the reader says that it is done. -/
def iterateFrom (step : σ → Reader (Progress σ α)) (state : σ) (cs : List Char) :
    Option (α × Rest cs) :=
  match (step state).read? cs with
  | none => none
  | some (.done a, rest) => some (a, rest)
  | some (.more next, rest) =>
    have := rest.property
    (iterateFrom step next rest.val).map fun (a, left) => (a, rest.trans left)
termination_by cs.length

/-- Repeats a reader, from a state to the next one, until it says that it is
done. -/
def iterate (step : σ → Reader (Progress σ α)) (state : σ) : Reader α :=
  ⟨iterateFrom step state⟩

end Reader

end ProxyLint
