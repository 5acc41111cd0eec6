import SignalGateway.Delivery

/-!
# `SignalGateway.Proofs.Downloads`: what one media item does

`downloadToTemp_cases` and `decodeBase64ToTemp_cases` list the runs of the two functions
that obtain a media file. `raised` is the error a call sends up through the delivery, and
`Raises` says where the errors of a program come from.

The runs are listed with one constructor for each branch of the source (`DownloadRun`): an address
that is refused, one that is no https address, an exchange that gives no bytes, and a write with
its answer. Later modules use the list by cases and do not unfold the program again.

`Raises F p` says of the runs of a program that every error satisfies `F` or was raised by a call,
and that nothing was raised by a call if the program returned. Its rules follow the structure of
the program (`raises_bind`, `raises_tryFinally`, `raises_call`). `F` holds of the errors that the
program makes itself, for example those of `urlsplit`.
-/

set_option autoImplicit false

namespace SignalGateway.Proofs.Delivery

open SignalGateway.Delivery SignalGateway.Dispatch Prog

/-! ### The runs of a download -/

/-- A write, and what it makes of the path. -/
def writeRun (dest : Path) (data : Bytes) (x : Except PyError Unit) :
    List calls.Event × Except PyError (Option Path) :=
  ([⟨.writeBytes dest data, x⟩], x.map fun _ => some dest)

section
variable (netlocOk : PyStr → Bool) (settings : Settings)

/-- The runs of `download_to_temp`. -/
inductive DownloadRun (url : PyStr) (dir : Path) (filename : Option PyStr) (suffix : PyStr)
    (maxBytes : Nat) : List calls.Event → Except PyError (Option Path) → Prop where
  /-- `urlsplit` raises. -/
  | badUrl {e : PyError} (hurl : urlsplit netlocOk url = .error e) :
      DownloadRun url dir filename suffix maxBytes [] (.error e)
  /-- The scheme is refused. -/
  | refused {parts : SplitUrl} (hurl : urlsplit netlocOk url = .ok parts)
      (hscheme : lower parts.scheme ≠ lit "https") :
      DownloadRun url dir filename suffix maxBytes [] (.ok none)
  /-- The exchange raises something that is not caught. -/
  | raised {parts : SplitUrl} {answer : Except PyError Response} {e : PyError}
      (hurl : urlsplit netlocOk url = .ok parts) (hscheme : lower parts.scheme = lit "https")
      (hanswer : receive maxBytes answer = .error e) :
      DownloadRun url dir filename suffix maxBytes
        [⟨.stream url settings.engineApiKey, answer⟩] (.error e)
  /-- The download is rejected or fails. -/
  | failed {parts : SplitUrl} {answer : Except PyError Response}
      (hurl : urlsplit netlocOk url = .ok parts) (hscheme : lower parts.scheme = lit "https")
      (hanswer : receive maxBytes answer = .ok none) :
      DownloadRun url dir filename suffix maxBytes
        [⟨.stream url settings.engineApiKey, answer⟩] (.ok none)
  /-- The body is written to its file. -/
  | received {parts : SplitUrl} {answer : Except PyError Response} {data : Bytes}
      (x : Except PyError Unit)
      (hurl : urlsplit netlocOk url = .ok parts) (hscheme : lower parts.scheme = lit "https")
      (hanswer : receive maxBytes answer = .ok (some data)) :
      DownloadRun url dir filename suffix maxBytes
        (⟨.stream url settings.engineApiKey, answer⟩
          :: (writeRun (dir ++ [targetName parts.path filename suffix]) data x).1)
        (writeRun (dir ++ [targetName parts.path filename suffix]) data x).2

end

/-- The write of a file and its answer. -/
theorem runs_write {dest : Path} {data : Bytes} {t : List calls.Event}
    {r : Except PyError (Option Path)}
    (h : Runs (writeBytes dest data >>= fun _ => return some dest) t r) :
    ∃ x, (t, r) = writeRun dest data x := by
  obtain ⟨x, t', rfl, hrest⟩ := runs_call.mp h
  refine ⟨x, ?_⟩
  cases x with
  | ok u =>
    obtain ⟨rfl, rfl⟩ := runs_pure.mp hrest
    rfl
  | error e =>
    obtain ⟨rfl, rfl⟩ := runs_raise.mp hrest
    rfl

variable {netlocOk : PyStr → Bool} {settings : Settings}

/-- What `download_to_temp` makes of an answer: it is read, and a body is written. -/
def keepAnswer (dest : Path) (maxBytes : Nat) (answer : Except PyError Response) :
    Action (Option Path) := do
  let data ← .ofExcept (receive maxBytes answer)
  match data with
  | none => return none
  | some data =>
      writeBytes dest data
      return some dest

/-- What is done with an answer. -/
theorem downloadRun_of_answer {url : PyStr} {dir : Path} {filename : Option PyStr}
    {suffix : PyStr} {maxBytes : Nat} {parts : SplitUrl}
    {answer : Except PyError Response} {t : List calls.Event}
    {r : Except PyError (Option Path)} (hurl : urlsplit netlocOk url = .ok parts)
    (hscheme : lower parts.scheme = lit "https")
    (h : Runs (keepAnswer (dir ++ [targetName parts.path filename suffix]) maxBytes answer) t r) :
    DownloadRun netlocOk settings url dir filename suffix maxBytes
      (⟨.stream url settings.engineApiKey, answer⟩ :: t) r := by
  rw [keepAnswer] at h
  cases hanswer : receive maxBytes answer with
  | error e =>
    rw [hanswer] at h
    obtain ⟨rfl, rfl⟩ := runs_raise.mp h
    exact .raised hurl hscheme hanswer
  | ok data? =>
    rw [hanswer] at h
    cases data? with
    | none =>
      obtain ⟨rfl, rfl⟩ := runs_pure.mp h
      exact .failed hurl hscheme hanswer
    | some data =>
      obtain ⟨x, hx⟩ := runs_write h
      cases hx
      exact .received x hurl hscheme hanswer

/-- What a download can do. -/
theorem downloadToTemp_cases {url : PyStr} {dir : Path} {filename : Option PyStr}
    {suffix : PyStr} {maxBytes : Nat} {t : List calls.Event}
    {r : Except PyError (Option Path)}
    (h : Runs (downloadToTemp netlocOk settings url dir filename suffix maxBytes) t r) :
    DownloadRun netlocOk settings url dir filename suffix maxBytes t r := by
  rw [downloadToTemp] at h
  cases hurl : urlsplit netlocOk url with
  | error e =>
    rw [hurl] at h
    obtain ⟨rfl, rfl⟩ := runs_raise.mp h
    exact .badUrl hurl
  | ok parts =>
    rw [hurl] at h
    change Runs (if lower parts.scheme ≠ lit "https" then _ else _) t r at h
    split at h
    · next hscheme =>
      obtain ⟨rfl, rfl⟩ := runs_pure.mp h
      exact .refused hurl hscheme
    · next hscheme =>
      obtain ⟨answer, t', rfl, hread⟩ := runs_call.mp h
      exact downloadRun_of_answer hurl (not_not.mp hscheme) hread

/-- The runs of `decode_base64_to_temp`: nothing happens, or the bytes are written. -/
theorem decodeBase64ToTemp_cases {b64 : PyStr} {dir : Path} {name : PyStr} {maxBytes : Nat}
    {t : List calls.Event} {r : Except PyError (Option Path)}
    (h : Runs (decodeBase64ToTemp b64 dir name maxBytes) t r) :
    (decodedBytes b64 maxBytes = none ∧ t = [] ∧ r = .ok none) ∨
      ∃ data x, decodedBytes b64 maxBytes = some data ∧
        (t, r) = writeRun (dir ++ [safeFilename name]) data x := by
  rw [decodeBase64ToTemp] at h
  cases hdata : decodedBytes b64 maxBytes with
  | none =>
    rw [hdata] at h
    obtain ⟨rfl, rfl⟩ := runs_pure.mp h
    exact .inl ⟨rfl, rfl, rfl⟩
  | some data =>
    rw [hdata] at h
    obtain ⟨x, hx⟩ := runs_write h
    exact .inr ⟨data, x, rfl, hx⟩

/-! ### Where errors come from -/

/-- The error of an outcome. -/
def errorOf {ε α : Type} : Except ε α → Option ε
  | .ok _ => none
  | .error e => some e

/-- The error a call sends up through the delivery. The removal of the workspace and the
reactions send none. -/
def raisedBy : (op : Op) → op.Answer → Option PyError
  | .openWorkspace, x | .closeClient, x | .mkdir _, x | .writeBytes _ _, x => errorOf x
  | .stream _ _, x => errorOf (receive signalMaxAttachmentSize x)
  | .send _ _, x | .sendVoiceNote _ _, x | .sendAttachments _ _, x => errorOf x
  | .closeWorkspace, _ | .sendReaction _ _ _ _, _ => none

/-- The error an event sends up through the delivery. -/
def raised (ev : calls.Event) : Option PyError := raisedBy ev.1 ev.2

/-- The errors of a program satisfy `F` or were raised by one of its calls. If it returns,
no call raised. -/
def Raises {α : Type} (F : PyError → Prop) (p : Action α) : Prop :=
  ∀ t r, Runs p t r →
    (∀ a, r = .ok a → ∀ ev ∈ t, raised ev = none) ∧
      ∀ e, r = .error e → F e ∨ ∃ ev ∈ t, raised ev = some e

variable {α β : Type} {F : PyError → Prop}

/-- A returned value raises nothing. -/
theorem raises_pure (a : α) : Raises F (.pure a : Action α) := by
  intro t r h
  cases h
  exact ⟨fun _ _ ev hev => absurd hev List.not_mem_nil, fun e he => by cases he⟩

/-- A computed result raises its own error. -/
theorem raises_ofExcept {x : Except PyError α} (h : ∀ e, x = .error e → F e) :
    Raises F (Prog.ofExcept x) := by
  intro t r hr
  obtain ⟨rfl, rfl⟩ := runs_ofExcept.mp hr
  exact ⟨fun _ _ ev hev => absurd hev List.not_mem_nil, fun e he => .inl (h e he)⟩

/-- A call that hands its error on. -/
theorem raises_call {op : Op} {next : op.Answer → Except PyError α}
    (h : ∀ x, errorOf (next x) = raisedBy op x) :
    Raises F (.call op fun x => .ofExcept (next x) : Action α) := by
  intro t r hr
  obtain ⟨x, rfl, rfl⟩ := runs_call_ofExcept.mp hr
  have hx := h x
  constructor
  · intro a ha ev hev
    rw [List.mem_singleton.mp hev]
    rw [ha] at hx
    exact hx.symm
  · intro e he
    refine .inr ⟨_, List.mem_singleton_self _, ?_⟩
    rw [he] at hx
    exact hx.symm

/-- The errors of a sequence are those of its parts. -/
theorem raises_bind {p : Action α} {f : α → Action β} (hp : Raises F p)
    (hf : ∀ a, Raises F (f a)) : Raises F (p >>= f) := by
  intro t r hr
  rcases runs_bind.mp hr with ⟨a, t₁, t₂, rfl, h₁, h₂⟩ | ⟨e, rfl, h⟩
  · constructor
    · intro b hb ev hev
      rcases List.mem_append.mp hev with hev | hev
      · exact (hp _ _ h₁).1 a rfl ev hev
      · exact (hf a _ _ h₂).1 b hb ev hev
    · intro e he
      rcases (hf a _ _ h₂).2 e he with hF | ⟨ev, hev, hraised⟩
      · exact .inl hF
      · exact .inr ⟨ev, List.mem_append_right _ hev, hraised⟩
  · exact ⟨fun b hb => (by cases hb), fun e' he => (hp _ _ h).2 e' (by cases he; rfl)⟩

/-- The errors of a `try` are those of its body and its `finally`. -/
theorem raises_tryFinally {p : Action α} {final : Action Unit} (hp : Raises F p)
    (hfinal : Raises F final) : Raises F (p.tryFinally final) := by
  intro t r hr
  obtain ⟨t₁, t₂, r₁, r₂, rfl, h₁, h₂, rfl⟩ := runs_tryFinally.mp hr
  -- an error of the final action replaces that of the body
  cases r₂ with
  | ok u =>
    constructor
    · intro a ha ev hev
      rcases List.mem_append.mp hev with hev | hev
      · exact (hp _ _ h₁).1 a ha ev hev
      · exact (hfinal _ _ h₂).1 u rfl ev hev
    · intro e he
      rcases (hp _ _ h₁).2 e he with hF | ⟨ev, hev, hraised⟩
      · exact .inl hF
      · exact .inr ⟨ev, List.mem_append_left _ hev, hraised⟩
  | error e' =>
    constructor
    · intro a ha
      cases ha
    · intro e he
      rcases (hfinal _ _ h₂).2 e (by cases he; rfl) with hF | ⟨ev, hev, hraised⟩
      · exact .inl hF
      · exact .inr ⟨ev, List.mem_append_right _ hev, hraised⟩

end SignalGateway.Proofs.Delivery
