import ProxyLint.Path
import ProxyLint.Text.Utf8

/-!
# Paths as bytes

A path of the system is a sequence of bytes, which need not be the code of a text. Paths are told
apart by their slashes and dots alone, and these are one byte each, wherever they stand: so what is
done with a path that is a text is done with bytes as well, each byte being a character of its own.
Only for display are the bytes read as a text.

## Main definitions

* `ProxyLint.RawPath` — a path of the system.
* `ProxyLint.RawPath.normalize`, `ProxyLint.RawPath.join`, `ProxyLint.RawPath.relativeTo?` — what
  is done with it.
* `ProxyLint.RawPath.nameFrom` — a path as it is shown, seen from a folder.
-/

set_option relaxedAutoImplicit false
set_option autoImplicit false

namespace ProxyLint

/-- A path of the system. -/
abbrev RawPath := List UInt8

namespace RawPath

/-- The path as a text with a character for each byte. -/
def byteText (p : RawPath) : String :=
  String.ofList (p.map fun b => Char.ofNat b.toNat)

/-- The bytes that the characters of a text stand for. -/
def ofByteText (s : String) : RawPath :=
  s.toList.map fun c => UInt8.ofNat c.toNat

/-- The parts a path denotes; each byte of a name is a character. -/
def parts (p : RawPath) : List Path.Part :=
  Path.parts p.byteText

/-- Whether a path starts at the root. -/
def isAbsolute (p : RawPath) : Bool :=
  Path.isAbsolute p.byteText

/-- The path in normal form. -/
def normalize (p : RawPath) : RawPath :=
  ofByteText (Path.normalize p.byteText)

/-- Appends `target` to `base`; an absolute `target` replaces it. -/
def join (base target : RawPath) : RawPath :=
  ofByteText (Path.join base.byteText target.byteText)

/-- The path as seen from `root`, if it lies below it. -/
def relativeTo? (root p : RawPath) : Option RawPath :=
  (Path.relativeTo? root.byteText p.byteText).map ofByteText

/-- The path as it is shown: as seen from the folder `root` in normal form, if it lies below it,
read as a text and with forward slashes. -/
def nameFrom (root p : RawPath) : String :=
  let relative := (relativeTo? root.normalize p).getD p
  String.ofList ((Text.readLossy relative).map fun c => if c == '\\' then '/' else c)

end RawPath

end ProxyLint
