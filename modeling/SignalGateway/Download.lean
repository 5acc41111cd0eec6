import SignalGateway.Lib.Calls
import SignalGateway.Dispatch
import SignalGateway.Chunking
import SignalGateway.Config
import SignalGateway.Py.Base64
import SignalGateway.Py.Int
import SignalGateway.Py.Url

/-!
# `SignalGateway.Download`: outbound media

The model of the outbound half of `media.py`: `download_to_temp` and
`decode_base64_to_temp`. The operations of a delivery are calls, and any answer to them is
possible. The answer to a download is the whole response, cut off where an error ends it.

A path is the list of its components inside the workspace of the delivery.

* `safeFilename` and `targetName` are the name of the file: the declared one, else the last part
  of the URL, else a default.
* `readBody` is the loop over the chunks of a response. It stops at the chunk that crosses the cap.
* `exchange` and `receive` are the response with the errors around it. Only `httpx.HTTPError` is
  caught.
* `downloadToTemp` makes one request at most, and one write at most.
-/

set_option autoImplicit false

namespace SignalGateway.Delivery

open PyChar

/-- A path inside the workspace. -/
abbrev Path := List PyStr

/-- A response to a download. `failure` is the error behind the last chunk, and `closing`
the error when the response is closed. -/
structure Response where
  status : ℤ
  contentLength : Option PyStr := none
  chunks : List Bytes := []
  failure : Option PyError := none
  closing : Option PyError := none

/-- The calls of a delivery. -/
inductive Op where
  | openWorkspace
  | closeWorkspace
  | closeClient
  | mkdir (path : Path)
  | stream (url token : PyStr)
  | writeBytes (path : Path) (data : Bytes)
  | send (chatId message : PyStr)
  | sendVoiceNote (chatId : PyStr) (path : Path)
  | sendAttachments (chatId : PyStr) (paths : List Path)
  | sendReaction (chatId emoji targetAuthor : PyStr) (targetTimestamp : ℤ)
deriving DecidableEq, Repr

/-- The answers to the calls. The workspace is removed with errors ignored. -/
def Op.Answer : Op → Type
  | .openWorkspace | .closeClient | .mkdir _ | .writeBytes _ _ => Except PyError Unit
  | .closeWorkspace => Unit
  | .stream _ _ => Except PyError Response
  | .send _ _ | .sendVoiceNote _ _ | .sendAttachments _ _ | .sendReaction _ _ _ _ =>
      Except PyError Bool

/-- What a delivery calls. -/
abbrev calls : Interface := ⟨Op, Op.Answer⟩

/-- A delivery, or a part of one. -/
abbrev Action (α : Type) := Prog calls PyError α

/-- `SIGNAL_MAX_ATTACHMENT_SIZE` -/
def signalMaxAttachmentSize : Nat := 100 * 1024 * 1024

/-- `[A-Za-z0-9._-]` -/
def isSafeChr (c : CodePoint) : Bool :=
  isAsciiAlpha c || isAsciiDigit c || isChr '.' c || isChr '_' c || isChr '-' c

/-- `os.path.basename` -/
def basename (s : PyStr) : PyStr := s.rtakeWhile fun c => !isChr '/' c

/-- `strip("._")` -/
def stripDots (s : PyStr) : PyStr :=
  let isDot := fun c => isChr '.' c || isChr '_' c
  (s.dropWhile isDot).rdropWhile isDot

/-- `_safe_filename` -/
def safeFilename (name : PyStr) : PyStr :=
  let cleaned :=
    stripDots ((basename name).map fun c => if isSafeChr c then c else ofChar '_')
  -- A name of dots alone would be the directory or its parent.
  if cleaned.isEmpty then lit "attachment" else cleaned

/-- `_target_name` for a URL that `urlsplit` accepts. -/
def targetName (path : PyStr) (filename : Option PyStr) (fallbackSuffix : PyStr) : PyStr :=
  if !(filename.getD []).isEmpty then safeFilename (filename.getD [])
  else
    let urlName := safeFilename (basename path)
    -- The name in the URL counts only if it has a dot.
    if !urlName.isEmpty && urlName.any (isChr '.') then urlName
    else lit "media" ++ fallbackSuffix

/-- Whether the declared length is an integer above the cap. -/
def declaredOversize (contentLength : Option PyStr) (maxBytes : Nat) : Bool :=
  match contentLength with
  | none => false
  | some declared =>
      match intStr declared with
      | .ok n => (maxBytes : ℤ) < n
      -- A length that is no integer is ignored.
      | .error _ => false

/-- The loop over the chunks. `none` is a body above the cap. -/
def readBody (maxBytes : Nat) (failure : Option PyError) :
    Bytes → List Bytes → Except PyError (Option Bytes)
  | buf, [] =>
      match failure with
      | none => .ok (some buf)
      | some e => .error e
  | buf, chunk :: chunks =>
      -- The cap is checked behind each chunk, so the buffer exceeds it by one chunk at most.
      if maxBytes < (buf ++ chunk).length then .ok none
      else readBody maxBytes failure (buf ++ chunk) chunks

/-- The block under `async with client.stream(...)`. -/
def readResponse (maxBytes : Nat) (response : Response) : Except PyError (Option Bytes) :=
  if response.status ≠ 200 then .ok none
  else if declaredOversize response.contentLength maxBytes then .ok none
  else readBody maxBytes response.failure [] response.chunks

/-- The body of the `try` of `download_to_temp`. -/
def exchange (maxBytes : Nat) (answer : Except PyError Response) :
    Except PyError (Option Bytes) := do
  let response ← answer
  match response.closing with
  | some e => throw e
  | none => readResponse maxBytes response

/-- The `try` of `download_to_temp`. `none` is a rejected or failed download. -/
def receive (maxBytes : Nat) (answer : Except PyError Response) :
    Except PyError (Option Bytes) :=
  match exchange maxBytes answer with
  | .error .httpError => .ok none
  | result => result

/-- `dest.write_bytes(data)` -/
def writeBytes (path : Path) (data : Bytes) : Action Unit :=
  .call (.writeBytes path data) .ofExcept

/-- `sub.mkdir(parents=True, exist_ok=True)` -/
def mkdir (path : Path) : Action Unit := .call (.mkdir path) .ofExcept

section
variable (netlocOk : PyStr → Bool) (settings : Settings)

/-- `download_to_temp` -/
def downloadToTemp (url : PyStr) (destDir : Path) (filename : Option PyStr)
    (fallbackSuffix : PyStr) (maxBytes : Nat) : Action (Option Path) := do
  let parts ← Prog.ofExcept (urlsplit netlocOk url)
  if lower parts.scheme ≠ lit "https" then return none
  let dest := destDir ++ [targetName parts.path filename fallbackSuffix]
  -- The file is written only once the whole body is read.
  let data ← .call (.stream url settings.engineApiKey) fun answer =>
    .ofExcept (receive maxBytes answer)
  match data with
  | none => return none
  | some data =>
      writeBytes dest data
      return some dest

end

/-- The bytes of a payload that is valid, not empty and within the cap. -/
def decodedBytes (b64 : PyStr) (maxBytes : Nat) : Option Bytes :=
  match b64decode true b64 with
  | .error _ => none
  | .ok data =>
      if data.isEmpty then none
      else if maxBytes < data.length then none
      else some data

/-- `decode_base64_to_temp` -/
def decodeBase64ToTemp (b64 : PyStr) (destDir : Path) (name : PyStr) (maxBytes : Nat) :
    Action (Option Path) :=
  match decodedBytes b64 maxBytes with
  | none => .pure none
  | some data => do
      let dest := destDir ++ [safeFilename name]
      writeBytes dest data
      return some dest

end SignalGateway.Delivery
