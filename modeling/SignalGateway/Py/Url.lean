import SignalGateway.Py.Str

/-!
# `SignalGateway.Py.Url`: `urllib.parse.urlsplit`

`urlsplit` cuts a URL into its scheme, its authority and its path. It raises `ValueError`
for an authority with unbalanced brackets. The checks of a bracketed host and of the
compatibility form of an authority outside ASCII raise the same error. They are the
parameter `netlocOk`.

`splitScheme` accepts a scheme only if all characters in front of the colon may stand in one, and
lowers it. `splitNetloc` takes the authority behind `//`. The query and the fragment are cut off,
because the path ends there.
-/

set_option autoImplicit false

namespace SignalGateway

open PyChar

/-- The parts of a URL that the gateway reads. -/
structure SplitUrl where
  scheme : PyStr
  netloc : PyStr
  path : PyStr
deriving DecidableEq, Repr

/-- An ASCII letter. -/
def isAsciiAlpha (c : CodePoint) : Bool :=
  (0x41 ≤ c.val && c.val ≤ 0x5a) || (0x61 ≤ c.val && c.val ≤ 0x7a)

/-- An ASCII digit. -/
def isAsciiDigit (c : CodePoint) : Bool := 0x30 ≤ c.val && c.val ≤ 0x39

/-- `scheme_chars` -/
def isSchemeChr (c : CodePoint) : Bool :=
  isAsciiAlpha c || isAsciiDigit c || isChr '+' c || isChr '-' c || isChr '.' c

/-- The scheme in front of the first colon, and the rest. -/
def splitScheme (url : PyStr) : PyStr × PyStr :=
  let front := url.takeWhile fun c => !isChr ':' c
  if front.length < url.length ∧ front.head?.any isAsciiAlpha ∧ front.all isSchemeChr then
    (lower front, url.drop (front.length + 1))
  else ([], url)

/-- The authority behind two slashes, and the rest. -/
def splitNetloc (url : PyStr) : PyStr × PyStr :=
  if (lit "//").isPrefixOf url then
    (url.drop 2).span fun c => !(isChr '/' c || isChr '?' c || isChr '#' c)
  else ([], url)

/-- One bracket without the other. -/
def unbalancedBrackets (netloc : PyStr) : Bool :=
  netloc.any (isChr '[') != netloc.any (isChr ']')

/-- `urlsplit(url)`. -/
def urlsplit (netlocOk : PyStr → Bool) (url : PyStr) : Except PyError SplitUrl :=
  let url := (url.dropWhile fun c => c.val ≤ 0x20).filter fun c =>
    !(isChr '\t' c || isChr '\r' c || isChr '\n' c)
  let (scheme, url) := splitScheme url
  let (netloc, url) := splitNetloc url
  if unbalancedBrackets netloc then .error .valueError
  else if !netlocOk netloc then .error .valueError
  else
    .ok ⟨scheme, netloc,
      (url.takeWhile fun c => !isChr '#' c).takeWhile fun c => !isChr '?' c⟩

end SignalGateway
