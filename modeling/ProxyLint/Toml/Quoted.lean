import ProxyLint.Reader
import ProxyLint.Text

/-!
# Quoted texts of a TOML document

Texts in double quotes have escapes, texts in single quotes have none. Either
may stand in three quotes at each end and then run over several lines; up to two
more quotes may stand right before the last three. Lines end in line feeds.

## Main definitions

* `ProxyLint.Toml.basic`, `ProxyLint.Toml.literal` — texts on one line.
* `ProxyLint.Toml.longBasic`, `ProxyLint.Toml.longLiteral` — texts on several
  lines.
-/

set_option relaxedAutoImplicit false
set_option autoImplicit false

namespace ProxyLint.Toml

open Reader (one char run)

/-- The characters that a text or a comment may hold as they are: all but the
control characters, and the tab. -/
def isPrintable (c : Char) : Bool :=
  c == '\t' || (0x20 ≤ c.toNat && c.toNat != 0x7F)

/-- The blanks inside a line. -/
def isSpace (c : Char) : Bool :=
  c == ' ' || c == '\t'

/-! ### Escapes -/

/-- The character of a code, if there is one. -/
def character? (n : Nat) : Option Char :=
  if n.isValidChar then some (Char.ofNat n) else none

/-- Reads a hexadecimal number of exactly so many digits. -/
def hexDigits : Nat → Nat → Reader Nat
  | 0, n => (one Text.hexValue?).map fun d => 16 * n + d
  | more + 1, n => (one Text.hexValue?).bind fun d => hexDigits more (16 * n + d)

/-- What a one-letter escape stands for. -/
def escaped? : Char → Option Char
  | 'b' => some '\x08'
  | 't' => some '\t'
  | 'n' => some '\n'
  | 'f' => some '\x0c'
  | 'r' => some '\r'
  | '"' => some '"'
  | '\\' => some '\\'
  | _ => none

/-- Reads an escape, of one letter or with the code of a character. -/
def escape : Reader Char :=
  (char '\\').andThen <|
    ((one escaped?).orElse ((char 'u').andThen ((hexDigits 3 0).filterMap character?))).orElse
      ((char 'U').andThen ((hexDigits 7 0).filterMap character?))

/-- Reads the end of a line, escaped, and the blanks and line ends after it. -/
def escapedLineEnd : Reader Unit :=
  ((char '\\').andThen ((char '\n').skipping (Skip.all isSpace))).trailing
    (Skip.all fun c => isSpace c || c == '\n')

/-! ### Texts on one line -/

/-- Goes on with a text to which a character is added. -/
def adding (s : String) (r : Reader Char) : Reader (Progress String String) :=
  r.map fun c => .more (s.push c)

/-- Reads a character of a class that is not the given one. -/
def plain (p : Char → Bool) (except : Char → Bool) : Reader Char :=
  one fun c => if p c && !except c then some c else none

/-- Reads a text in double quotes. -/
def basic : Reader String :=
  (char '"').andThen <| Reader.iterate (fun s =>
    ((char '"').map fun _ => .done s).orElse <|
      adding s (escape.orElse (plain isPrintable fun c => c == '"' || c == '\\'))) ""

/-- Reads a text in single quotes. -/
def literal : Reader String :=
  (char '\'').andThen <| Reader.iterate (fun s =>
    ((char '\'').map fun _ => .done s).orElse (adding s (plain isPrintable (· == '\'')))) ""

/-! ### Texts on several lines -/

/-- Reads three quotes and the line end that may follow them. -/
def openLong (quote : Char) : Reader Unit :=
  let quotes := (char quote).andThen ((char quote).andThen (char quote))
  (quotes.andThen (char '\n')).orElse quotes

/-- Reads a run of quotes: fewer than three belong to the text, and three to five
end it. -/
def quoteRun (quote : Char) (s : String) : Reader (Progress String String) :=
  (run (· == quote)).filterMap fun qs =>
    if qs.length < 3 then some (.more (s ++ String.ofList qs))
    else if qs.length < 6 then some (.done (s ++ String.ofList (qs.drop 3)))
    else none

/-- The characters that a text on several lines may hold as they are. -/
def isLongPrintable (c : Char) : Bool :=
  isPrintable c || c == '\n'

/-- Reads a text in three double quotes. -/
def longBasic : Reader String :=
  (openLong '"').andThen <| Reader.iterate (fun s =>
    (quoteRun '"' s).orElse <|
      (escapedLineEnd.map fun _ => Progress.more s).orElse <|
        adding s (escape.orElse (plain isLongPrintable fun c => c == '"' || c == '\\'))) ""

/-- Reads a text in three single quotes. -/
def longLiteral : Reader String :=
  (openLong '\'').andThen <| Reader.iterate (fun s =>
    (quoteRun '\'' s).orElse (adding s (plain isLongPrintable (· == '\'')))) ""

/-- Reads a text in any of its forms. -/
def text : Reader String :=
  (longBasic.orElse basic).orElse (longLiteral.orElse literal)

end ProxyLint.Toml
