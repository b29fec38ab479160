import ProxyLint.Noted

/-!
# Words of a directive

A line of the web server is split at blanks. A word that starts with a quote runs
to the next such quote, which a backslash takes as it is, and goes on after it;
the quotes themselves are dropped. A quote inside a word means nothing.

## Main definitions

* `ProxyLint.Httpd.splitWords` — the words of a text, and whether a quote stays
  open.
* `ProxyLint.Httpd.arguments` — the same, with the open quote noted.
-/

set_option relaxedAutoImplicit false
set_option autoImplicit false

namespace ProxyLint.Httpd

/-- Splits a text into words. `quote?` is the quote that is open, and `word?` the
word that has begun, its last character first. -/
def splitFrom (quote? : Option Char) (word? : Option (List Char)) :
    List Char → List (List Char) × Bool
  | [] => (word?.toList.map List.reverse, quote?.isSome)
  | '\\' :: d :: rest =>
    if quote? == some d then splitFrom quote? (some (d :: word?.getD [])) rest
    else splitFrom quote? (some ('\\' :: word?.getD [])) (d :: rest)
  | c :: rest =>
    match quote? with
    | some q =>
      if c == q then splitFrom none (some (word?.getD [])) rest
      else splitFrom (some q) (some (c :: word?.getD [])) rest
    | none =>
      if (c == '"' || c == '\'') && word?.isNone then splitFrom (some c) (some []) rest
      else if Text.isBlank c then
        let others := splitFrom none none rest
        (word?.toList.map List.reverse ++ others.1, others.2)
      else splitFrom none (some (c :: word?.getD [])) rest

/-- The words of a text, and whether a quote stays open. -/
def splitWords (text : List Char) : List String × Bool :=
  let (words, isOpen) := splitFrom none none text
  (words.map String.ofList, isOpen)

/-- The words of a text; a quote that stays open is noted. -/
def arguments (text : List Char) (source : Source) : Noted (List String) := do
  let (words, isOpen) := splitWords text
  if isOpen then
    note .httpdUnmatchedQuote ("missing closing quote in " ++ String.ofList text) source
  return words

end ProxyLint.Httpd
