/-!
# Names in components

A component calls its imports and exports by names with a form. A label is a word: parts joined by
hyphens, each in lower or in upper case. Other names stand for the constructor and the functions of a
resource, for an interface of a package, or for where a component is to be found.
`ExternName.ofString?` tells these forms apart, and `ExternName.key` is what two names must not share.
-/

namespace WasmFormula.Component

/-! ## Words -/

/-- A part of a word: a letter, and letters of its case or digits after it. -/
def isWordPart : List Char → Bool
  | [] => false
  | c :: rest =>
    if c.isLower then rest.all fun d => d.isLower || d.isDigit
    else c.isUpper && rest.all fun d => d.isUpper || d.isDigit

/-- Parts joined by hyphens. -/
def isWord (text : String) : Bool := (text.splitOn "-").all fun part => isWordPart part.toList

/-- A character that a word may have. -/
def isWordChar (c : Char) : Bool := c.isLower || c.isUpper || c.isDigit || c == '-'

/-- Words that differ in case only count as the same. -/
def wordKey (word : String) : String := word.toLower

/-! ## Versions -/

/-- The characters before and after the first one that is `stop`, if there is one. -/
def splitFirst (stop : Char) (cs : List Char) : List Char × Option (List Char) :=
  match cs.dropWhile (· != stop) with
  | [] => (cs, none)
  | _ :: after => (cs.takeWhile (· != stop), some after)

/-- Digits without a zero in front of others. -/
def isNumeral : List Char → Bool
  | [] => false
  | ['0'] => true
  | '0' :: _ => false
  | cs => cs.all Char.isDigit

/-- The value of digits. -/
def numeralValue (cs : List Char) : Nat := cs.foldl (fun n c => 10 * n + (c.toNat - 48)) 0

/-- A number of a version, which has 64 bits. -/
def isVersionNumber (cs : List Char) : Bool :=
  isNumeral cs && decide (numeralValue cs < 1 <<< 64)

/-- An identifier in the tail of a version. -/
def isVersionIdentifier (text : String) : Bool := !text.isEmpty && text.toList.all isWordChar

/-- Identifiers joined by dots, where numbers have no zero in front of them. -/
def isPreRelease (cs : List Char) : Bool :=
  ((String.ofList cs).splitOn ".").all fun text =>
    isVersionIdentifier text && (!text.toList.all Char.isDigit || isNumeral text.toList)

/-- Identifiers joined by dots. -/
def isBuild (cs : List Char) : Bool :=
  ((String.ofList cs).splitOn ".").all isVersionIdentifier

/-- Three numbers joined by dots, then perhaps a hyphen and a pre-release, then perhaps a plus sign and
a build. -/
def isVersion (cs : List Char) : Bool :=
  let (front, build) := splitFirst '+' cs
  let (numbers, preRelease) := splitFirst '-' front
  let numbers := (String.ofList numbers).splitOn "."
  numbers.length == 3 && numbers.all (fun n => isVersionNumber n.toList) &&
    preRelease.all isPreRelease && build.all isBuild

/-- The characters after a text they start with. -/
def after? (text : String) (cs : List Char) : Option (List Char) :=
  if text.toList.isPrefixOf cs then some (cs.drop text.length) else none

/-- A lower bound, an upper bound, or both with a blank between them; or a star. -/
def isVersionRange (cs : List Char) : Bool :=
  match after? ">=" cs, after? "<" cs with
  | some lower, _ =>
    match splitFirst ' ' lower with
    | (lower, none) => isVersion lower
    | (lower, some upper) => isVersion lower && (after? "<" upper).any isVersion
  | none, some upper => isVersion upper
  | none, none => cs == ['*']

/-! ## Digests -/

/-- A character that separates digests. -/
def isBlank (c : Char) : Bool :=
  let n := c.toNat
  decide (9 ≤ n ∧ n ≤ 13) || decide (0x2000 ≤ n ∧ n ≤ 0x200a) ||
    [0x20, 0x85, 0xa0, 0x1680, 0x2028, 0x2029, 0x202f, 0x205f, 0x3000].contains n

/-- Letters, digits, plus signs and slashes, and at most two equals signs at the end. -/
def isBase64 (cs : List Char) : Bool :=
  let body := cs.takeWhile (· != '=')
  let padding := cs.dropWhile (· != '=')
  !body.isEmpty && body.all (fun c => c.isAlphanum || c == '+' || c == '/') &&
    padding.all (· == '=') && decide (padding.length ≤ 2)

/-- The name of a hash function, a hyphen and the digest, and perhaps options after a question
mark. -/
def isDigest (cs : List Char) : Bool :=
  ["sha256-", "sha384-", "sha512-"].any fun algorithm =>
    match after? algorithm cs with
    | some rest => isBase64 (splitFirst '?' rest).1
    | none => false

/-- The texts between blanks. -/
def splitBlanks : List Char → List (List Char)
  | [] => []
  | c :: rest =>
    match isBlank c, splitBlanks rest with
    | true, parts => [] :: parts
    | false, [] => [[c]]
    | false, part :: parts => (c :: part) :: parts

/-- Digests separated by blanks, at least one. -/
def areDigests (cs : List Char) : Bool :=
  let parts := (splitBlanks cs).filter fun part => !part.isEmpty
  !parts.isEmpty && parts.all isDigest

/-! ## Names of imports and exports -/

/-- The name of an import or export. -/
inductive ExternName where
  | label (word : String)
  | constructorOf (resource : String)
  | methodOf (resource function : String)
  | staticOf (resource function : String)
  /-- An interface of a package. -/
  | interface (text : String)
  /-- A package to be found. -/
  | dependency (text : String)
  /-- A component behind an address. -/
  | address (text : String)
  /-- A component with a digest. -/
  | digest (text : String)
  deriving DecidableEq

/-- A reader of part of a name. -/
abbrev NameReader := StateT (List Char) Option

namespace NameReader

/-- The next characters make up the text, and are taken. -/
def eat (text : String) : NameReader Bool := fun cs =>
  match after? text cs with
  | some rest => some (true, rest)
  | none => some (false, cs)

/-- Take the text, which has to come next. -/
def expect (text : String) : NameReader Unit := do
  guard (← eat text)

/-- Take the characters before one that has to come. -/
def upTo (stop : Char) : NameReader (List Char) := fun cs =>
  match cs.dropWhile (· != stop) with
  | [] => none
  | rest => some (cs.takeWhile (· != stop), rest)

/-- Take a word. -/
def word : NameReader String := fun cs =>
  let text := String.ofList (cs.takeWhile isWordChar)
  if isWord text then some (text, cs.dropWhile isWordChar) else none

/-- Take a word in lower case. -/
def lowerWord : NameReader String := do
  let text ← word
  guard (!text.toList.any Char.isUpper)
  return text

/-- Take the name of a package: a namespace, the package, and perhaps an interface of it. -/
def package (needsInterface : Bool) : NameReader Unit := do
  let _ ← lowerWord
  expect ":"
  let _ ← lowerWord
  if ← eat "/" then
    let _ ← word
  else
    guard !needsInterface

/-- Take the name of a package, and perhaps a version, which goes on to a bracket or to the end. -/
def versionedPackage (needsInterface : Bool) : NameReader Unit := do
  package needsInterface
  if ← eat "@" then
    let rest ← get
    guard (isVersion (rest.takeWhile (· != '>')))
    set (rest.dropWhile (· != '>'))

/-- Take the name of a package, and perhaps versions of it. -/
def rangedPackage : NameReader Unit := do
  package false
  if ← eat "@" then
    if !(← eat "*") then
      expect "\x7b"
      let range ← upTo '\x7d'
      expect "\x7d"
      guard (isVersionRange range)

/-- Take digests in brackets. -/
def digests : NameReader Unit := do
  expect "<"
  let text ← upTo '>'
  expect ">"
  guard (areDigests text)

/-- Take a comma and digests, if there is a comma. -/
def optionalDigests : NameReader Unit := do
  if ← eat "," then
    expect "integrity="
    digests

/-- Take the name of a resource, a point, and the name of a function of it. -/
def resourceFunction : NameReader (String × String) := do
  let resource ← upTo '.'
  guard (isWord (String.ofList resource))
  expect "."
  let function ← word
  return (String.ofList resource, function)

/-- Take a name, which is all of the given text. -/
def externName (text : String) : NameReader ExternName := do
  if ← eat "[constructor]" then
    return .constructorOf (← word)
  else if ← eat "[method]" then
    let (resource, function) ← resourceFunction
    return .methodOf resource function
  else if ← eat "[static]" then
    let (resource, function) ← resourceFunction
    return .staticOf resource function
  else if ← eat "unlocked-dep=" then
    expect "<"
    rangedPackage
    expect ">"
    return .dependency text
  else if ← eat "locked-dep=" then
    expect "<"
    versionedPackage false
    expect ">"
    optionalDigests
    return .dependency text
  else if ← eat "url=" then
    expect "<"
    let address ← upTo '>'
    guard !(address.contains '<')
    expect ">"
    optionalDigests
    return .address text
  else if ← eat "integrity=" then
    digests
    return .digest text
  else if (← get).contains ':' then
    versionedPackage true
    return .interface text
  else
    return .label (← word)

end NameReader

namespace ExternName

/-- The name that a text is. -/
def ofString? (text : String) : Option ExternName :=
  match NameReader.externName text text.toList with
  | some (name, []) => some name
  | _ => none

/-- What two names must not share: case is not enough to tell labels apart, and a resource has one
function of a name. -/
def key : ExternName → ExternName
  | .label word => .label (wordKey word)
  | .constructorOf resource => .constructorOf (wordKey resource)
  | .staticOf resource function => .methodOf resource function
  | name => name

/-- A name that an export may have. -/
def isExportable : ExternName → Bool
  | .dependency _ | .address _ | .digest _ => false
  | _ => true

end ExternName

end WasmFormula.Component
