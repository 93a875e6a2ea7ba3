import PlainSteps.Action
import PlainSteps.Text.Lowercase

/-!
# Locators for a hint

* `StopWords` : words without meaning at the edges of a hint, for each kind of action.
* `StopWords.sanitize` : the words of a hint that name the element.
* `candidates` : the locators that a sanitized hint stands for, in the order in which they are
  tried.
* `Resolver` : any way to find locators for a hint; `StopWords.resolver` is the usual one.
-/

namespace PlainSteps

open Text

/-- A way to find the locators of a hint, in the order in which they are tried. -/
abbrev Resolver := String → ActionKind → List String

/-- Words that are dropped at the edges of a hint. -/
structure StopWords where
  click : List String
  fill : List String
  verify : List String
  store : List String
  wait : List String
  deriving DecidableEq, Repr

namespace StopWords

/-- The words dropped for a kind of action; some kinds drop none and have no list. -/
def list? (w : StopWords) : ActionKind → Option (List String)
  | .click => some w.click
  | .fill => some w.fill
  | .verify => some w.verify
  | .store => some w.store
  | .waitFor | .conditional => some w.wait
  | .navigate | .waitDuration | .unknown => none

/-- Whether a word of a hint is among the stop words. The stop words are taken in lower case, and
then compared up to the case of ASCII letters. -/
def isStop (stop : List String) (word : String) : Bool :=
  stop.any fun w => sameIgnoringCase (lowercase w) word

/-- The words of a hint that name the element. A quoted hint is taken whole; otherwise the stop
words before the first other word and after the last one are dropped. -/
def sanitize (w : StopWords) (hint : String) (kind : ActionKind) : String :=
  let text := unquote hint
  if text.utf8ByteSize != (trim hint).utf8ByteSize then text
  else match w.list? kind with
    | none => text
    | some stop =>
      let kept := (((wordsOf text).dropWhile (isStop stop)).reverse.dropWhile (isStop stop)).reverse
      if kept.isEmpty then text else unquote (" ".intercalate kept)

end StopWords

/-- The text between double quotes in a locator: quotes and backslashes are escaped. -/
def quotedInLocator (s : String) : String :=
  String.ofList (s.toList.flatMap fun c => if c == '\\' || c == '"' then ['\\', c] else [c])

def elementNames : List String :=
  ["h1", "h2", "h3", "h4", "h5", "h6", "p", "span", "div", "a", "button", "input", "textarea",
    "select", "label", "table", "tr", "td", "th", "li", "ul", "ol", "form", "img", "nav",
    "header", "footer", "main", "section", "article"]

/-- Whether a hint reads as a selector: a class, an id, an attribute, or the name of an element. -/
def looksLikeSelector (hint : String) : Bool :=
  let s := hint.toList
  if s.any isBlank && !s.contains '>' then false
  else if ['#', '.', '['].any (s.head? == some ·) then true
  else
    let head := s.takeWhile isAsciiAlphanumeric
    let rest := s.dropWhile isAsciiAlphanumeric
    elementNames.contains (String.ofList (head.map lower)) &&
      (rest.isEmpty || ['#', '.', '[', ':', ' '].any (rest.head? == some ·))

def withAttribute (name value : String) : String :=
  "[" ++ name ++ "=\"" ++ value ++ "\"]"

/-- A role with the given accessible name. -/
def withRole (role name : String) : String :=
  "role=" ++ role ++ "[name=\"" ++ name ++ "\"]"

/-- The locators that a sanitized hint stands for. -/
def candidates (hint : String) (kind : ActionKind) : List String :=
  let q := quotedInLocator hint
  if hint.isEmpty then []
  else match kind with
    | .click =>
      [withRole "button" q, withRole "link" q, "text=\"" ++ q ++ "\"", withAttribute "aria-label" q,
        withAttribute "title" q, withAttribute "value" q, withAttribute "data-testid" q,
        "text=" ++ hint]
    | .fill =>
      [withAttribute "placeholder" q, withAttribute "name" q, withAttribute "aria-label" q,
        withRole "textbox" q, withAttribute "id" q, withAttribute "data-testid" q,
        "[placeholder*=\"" ++ q ++ "\" i]"]
    | .store =>
      (if looksLikeSelector hint then ["css=" ++ hint] else []) ++
        [withAttribute "data-testid" q, withAttribute "aria-label" q, withAttribute "name" q,
          "text=" ++ hint]
    | .waitFor | .conditional =>
      if looksLikeSelector hint then ["css=" ++ hint] else ["text=" ++ hint]
    | .verify => ["text=" ++ hint]
    | .navigate | .waitDuration | .unknown => []

/-- The usual resolver: the candidates of the sanitized hint. -/
def StopWords.resolver (w : StopWords) : Resolver :=
  fun hint kind => candidates (w.sanitize hint kind) kind

/-- The target whose locators an action tries; a conditional step has those of its consequence. -/
def Action.subject? : Action → Option (Target × ActionKind)
  | click target => some (target, .click)
  | fill _ target => some (target, .fill)
  | verify target => some (target, .verify)
  | waitFor target _ => some (target, .waitFor)
  | store source _ => some (source, .store)
  | conditional _ _ consequence => consequence.subject?
  | navigate _ | waitForLoad | waitDuration _ | unknown _ => none

/-- The locators that an action would try on its element. -/
def Action.candidates (resolve : Resolver) (action : Action) : List String :=
  match action.subject? with
  | none => []
  | some (.explicit locator, _) => [locator]
  | some (.implied hint, kind) => resolve hint kind

end PlainSteps
