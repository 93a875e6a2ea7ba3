import PlainSteps.Text.Ascii

/-!
# Addresses of pages

* `Address.origin?` : the scheme and host of an address.
* `Address.absolute` : an address relative to the site, made absolute by the origin of a base.
-/

namespace PlainSteps.Address

open Text

/-- What follows the first `://` of an address, and what comes before its end. -/
def splitScheme? : List Char → Option (List Char × List Char)
  | [] => none
  | c :: s =>
    if startsWith "://".toList (c :: s) then some ("://".toList, s.drop 2)
    else (splitScheme? s).map fun r => (c :: r.1, r.2)

def endsHost (c : Char) : Bool :=
  c == '/' || c == '?' || c == '#'

/-- The scheme and host of an address. -/
def origin? (s : List Char) : Option (List Char) :=
  (splitScheme? s).map fun r => r.1 ++ r.2.takeWhile fun c => !endsHost c

/-- An address that begins with a slash is taken relative to the origin of the base, if it has
one. -/
def absolute (base url : String) : String :=
  if url.toList.head? == some '/' then
    match origin? base.toList with
    | some origin => String.ofList origin ++ url
    | none => url
  else url

end PlainSteps.Address
