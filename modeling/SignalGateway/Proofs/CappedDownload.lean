import SignalGateway.Proofs.Downloads

/-!
# `SignalGateway.Proofs.CappedDownload`: a download under its cap

The body of a response is kept if it is within the cap, and no prefix of a longer one is.
`readBody_of_le` and `readBody_of_gt` say so for the loop over the chunks, and
`downloadToTemp_exact` for whole runs of `download_to_temp`. `readBodyTrace` is the loop with
the buffers it goes through.

`ExactRun` lists the two ways a download can go, the file with the whole body or nothing. With
`ExactRun.runs` and `exactRun_of_runs` it is the same as a run of the program, so
`downloadToTemp_exact` says that there is exactly one run for every answer of the server.

A response is complete when its status is 200, its declared length is no obstacle, no error cuts
its body off, and its chunks sum up to no more than the cap (`Complete`). Errors are those of
`httpx`; the ones that `download_to_temp` does not catch are the subject of `MediaFaults`.

The bound on the buffer is read off `readBodyTrace`: a chunk that would exceed the cap is
not kept.
-/

set_option autoImplicit false

namespace SignalGateway.Proofs.Delivery

open SignalGateway.Delivery SignalGateway.Dispatch Prog

/-! ### The loop over the chunks -/

variable {maxBytes : Nat}

/-- A body within the cap is read to its end. -/
theorem readBody_of_le {failure : Option PyError} {chunks : List Bytes} :
    ∀ {buf : Bytes}, (buf ++ chunks.flatten).length ≤ maxBytes →
      readBody maxBytes failure buf chunks
        = failure.elim (.ok (some (buf ++ chunks.flatten))) .error := by
  induction chunks with
  | nil =>
    intro buf _
    rw [List.flatten_nil, List.append_nil]
    cases failure <;> rfl
  | cons chunk chunks ih =>
    intro buf h
    rw [List.flatten_cons, ← List.append_assoc] at h ⊢
    have hchunk : (buf ++ chunk).length ≤ maxBytes := by
      rw [List.length_append] at h
      omega
    rw [readBody, if_neg (not_lt.mpr hchunk)]
    exact ih h

/-- A body above the cap is dropped, at the chunk that crosses it. -/
theorem readBody_of_gt {failure : Option PyError} {chunks : List Bytes} :
    ∀ {buf : Bytes}, buf.length ≤ maxBytes → maxBytes < (buf ++ chunks.flatten).length →
      readBody maxBytes failure buf chunks = .ok none := by
  induction chunks with
  | nil =>
    intro buf hle hgt
    rw [List.flatten_nil, List.append_nil] at hgt
    exact absurd hgt (not_lt.mpr hle)
  | cons chunk chunks ih =>
    intro buf _ hgt
    rw [readBody]
    split
    · rfl
    · next hchunk =>
      rw [List.flatten_cons, ← List.append_assoc] at hgt
      exact ih (not_lt.mp hchunk) hgt

/-- The loop over the chunks with the contents of the buffer behind each `buf += chunk`. -/
def readBodyTrace (maxBytes : Nat) (failure : Option PyError) :
    Bytes → List Bytes → List Bytes × Except PyError (Option Bytes)
  | buf, [] =>
      match failure with
      | none => ([], .ok (some buf))
      | some e => ([], .error e)
  | buf, chunk :: chunks =>
      if maxBytes < (buf ++ chunk).length then ([buf ++ chunk], .ok none)
      else
        let rest := readBodyTrace maxBytes failure (buf ++ chunk) chunks
        ((buf ++ chunk) :: rest.1, rest.2)

/-- The trace does not change the outcome. -/
theorem readBodyTrace_snd {failure : Option PyError} {chunks : List Bytes} :
    ∀ {buf : Bytes}, (readBodyTrace maxBytes failure buf chunks).2
      = readBody maxBytes failure buf chunks := by
  induction chunks with
  | nil =>
    intro buf
    cases failure <;> rfl
  | cons chunk chunks ih =>
    intro buf
    rw [readBodyTrace, readBody]
    split
    · rfl
    · exact ih

/-- The buffer was within the cap before the last chunk. -/
theorem length_le_of_mem_trace {failure : Option PyError} {chunks : List Bytes} :
    ∀ {buf : Bytes}, buf.length ≤ maxBytes →
      ∀ b ∈ (readBodyTrace maxBytes failure buf chunks).1,
        ∃ chunk ∈ chunks, b.length ≤ maxBytes + chunk.length := by
  induction chunks with
  | nil =>
    intro buf _ b hb
    cases failure <;> cases hb
  | cons chunk chunks ih =>
    intro buf hbuf b hb
    have hnext : (buf ++ chunk).length ≤ maxBytes + chunk.length := by
      rw [List.length_append]
      omega
    rw [readBodyTrace] at hb
    split at hb
    · rw [List.mem_singleton.mp hb]
      exact ⟨chunk, List.mem_cons_self, hnext⟩
    · next hchunk =>
      -- the loop goes on, so the buffer is within the cap again
      rcases List.mem_cons.mp hb with rfl | hb
      · exact ⟨chunk, List.mem_cons_self, hnext⟩
      · obtain ⟨c, hc, hle⟩ := ih (not_lt.mp hchunk) b hb
        exact ⟨c, List.mem_cons_of_mem _ hc, hle⟩

/-! ### The exchange -/

/-- An exchange in which nothing but an `httpx.HTTPError` is raised. -/
def HttpErrorsOnly : Except PyError Response → Prop
  | .error e => e = .httpError
  | .ok response =>
      (∀ e, response.failure = some e → e = .httpError) ∧
        ∀ e, response.closing = some e → e = .httpError

/-- A response whose body is complete and within the cap. The iteration over a body closes
the response before it ends, so an error there is one before the end. -/
structure Complete (maxBytes : Nat) (response : Response) : Prop where
  failure : response.failure = none
  closing : response.closing = none
  status : response.status = 200
  declared : ∀ declared n, response.contentLength = some declared → intStr declared = .ok n →
    n ≤ maxBytes
  length : response.chunks.flatten.length ≤ maxBytes

/-- The header does not stop the download if it is absent, not an integer or within the
cap. -/
theorem declaredOversize_eq_false_iff {contentLength : Option PyStr} :
    declaredOversize contentLength maxBytes = false ↔
      ∀ declared n, contentLength = some declared → intStr declared = .ok n → n ≤ maxBytes := by
  cases contentLength with
  | none => simp [declaredOversize]
  | some declared =>
    rw [declaredOversize]
    cases hint : intStr declared with
    | error e =>
      refine iff_of_true rfl ?_
      rintro _ n ⟨⟩ hn
      rw [hint] at hn
      cases hn
    | ok n =>
      rw [decide_eq_false_iff_not, not_lt]
      constructor
      · rintro hle _ m ⟨⟩ hm
        rw [hint] at hm
        cases hm
        exact hle
      · exact fun h => h declared n rfl hint

/-- A stream that closes well is read. -/
theorem exchange_of_open {response : Response} (h : response.closing = none) :
    exchange maxBytes (.ok response) = readResponse maxBytes response := by
  cases response
  cases h
  rfl

/-- An error on closing is the error of the exchange. -/
theorem exchange_of_closing {response : Response} {e : PyError}
    (h : response.closing = some e) : exchange maxBytes (.ok response) = .error e := by
  cases response
  cases h
  rfl

/-- A complete body is received. -/
theorem receive_of_complete {response : Response} (h : Complete maxBytes response) :
    receive maxBytes (.ok response) = .ok (some response.chunks.flatten) := by
  have hdeclared := declaredOversize_eq_false_iff.mpr h.declared
  have hbody : readBody maxBytes response.failure [] response.chunks
      = .ok (some response.chunks.flatten) := by
    rw [readBody_of_le (by rw [List.nil_append]; exact h.length), h.failure]
    rfl
  have hread : readResponse maxBytes response = .ok (some response.chunks.flatten) := by
    rw [readResponse, if_neg (not_not.mpr h.status), hdeclared, hbody]
    rfl
  rw [receive, exchange_of_open h.closing, hread]

/-- The body of a response that is not complete is not kept. -/
theorem readResponse_of_not_complete {response : Response}
    (hclosing : response.closing = none) (h : ¬ Complete maxBytes response) :
    readResponse maxBytes response = .ok none ∨
      ∃ e, response.failure = some e ∧ readResponse maxBytes response = .error e := by
  rw [readResponse]
  split
  · exact .inl rfl
  · next hstatus =>
    split
    · exact .inl rfl
    · next hdeclared =>
      have hdeclared := declaredOversize_eq_false_iff.mp (Bool.eq_false_iff.mpr hdeclared)
      rcases le_or_gt response.chunks.flatten.length maxBytes with hle | hgt
      · cases hfailure : response.failure with
        | none => exact absurd ⟨hfailure, hclosing, not_not.mp hstatus, hdeclared, hle⟩ h
        | some e =>
          refine .inr ⟨e, rfl, ?_⟩
          rw [readBody_of_le (by rw [List.nil_append]; exact hle)]
          rfl
      · exact .inl (readBody_of_gt (Nat.zero_le _) (by rw [List.nil_append]; exact hgt))

/-- What is not complete is not received. -/
theorem receive_of_not_complete {answer : Except PyError Response}
    (hanswer : HttpErrorsOnly answer)
    (h : ¬ ∃ response, answer = .ok response ∧ Complete maxBytes response) :
    receive maxBytes answer = .ok none := by
  cases answer with
  | error e =>
    obtain rfl : e = .httpError := hanswer
    rfl
  | ok response =>
    cases hclosing : response.closing with
    | some e =>
      obtain rfl : e = .httpError := hanswer.2 e hclosing
      rw [receive, exchange_of_closing hclosing]
    | none =>
      rw [receive, exchange_of_open hclosing]
      have hno : ¬ Complete maxBytes response := fun hc => h ⟨response, rfl, hc⟩
      rcases readResponse_of_not_complete hclosing hno with hread | ⟨e, hfailure, hread⟩
      · simp only [hread]
      · obtain rfl : e = .httpError := hanswer.1 e hfailure
        simp only [hread]

/-! ### The runs -/

/-- The request is answered by `answer`, and the write succeeds. -/
def AnsweredBy (answer : Except PyError Response) : (op : Op) → op.Answer → Prop
  | .stream _ _, x => x = answer
  | .writeBytes _ _, x => x = .ok ()
  | .openWorkspace, _ | .closeWorkspace, _ | .closeClient, _ | .mkdir _, _ | .send _ _, _
  | .sendVoiceNote _ _, _ | .sendAttachments _ _, _ | .sendReaction _ _ _ _, _ => True

/-- The runs of a download: the whole body is written behind the request and the path
returned, or nothing is written. -/
inductive ExactRun (url token : PyStr) (dest : Path) (maxBytes : Nat) :
    Except PyError Response → List calls.Event → Except PyError (Option Path) → Prop where
  | complete {response : Response} (h : Complete maxBytes response) :
      ExactRun url token dest maxBytes (.ok response)
        [⟨.stream url token, .ok response⟩,
          ⟨.writeBytes dest response.chunks.flatten, .ok ()⟩] (.ok (some dest))
  | rejected {answer : Except PyError Response}
      (h : ¬ ∃ response, answer = .ok response ∧ Complete maxBytes response) :
      ExactRun url token dest maxBytes answer [⟨.stream url token, answer⟩] (.ok none)

section
variable {netlocOk : PyStr → Bool} {settings : Settings} {url : PyStr} {parts : SplitUrl}
  {dir : Path} {filename : Option PyStr} {suffix : PyStr}

/-- A download of an https URL is its request and what is made of the answer. -/
theorem runs_downloadToTemp_of_https (hurl : urlsplit netlocOk url = .ok parts)
    (hscheme : lower parts.scheme = lit "https") {answer : Except PyError Response}
    {t : List calls.Event} {r : Except PyError (Option Path)}
    (h : Runs (keepAnswer (dir ++ [targetName parts.path filename suffix]) maxBytes answer) t r) :
    Runs (downloadToTemp netlocOk settings url dir filename suffix maxBytes)
      (⟨.stream url settings.engineApiKey, answer⟩ :: t) r := by
  rw [downloadToTemp, hurl]
  show Runs (if lower parts.scheme ≠ lit "https" then _ else _) _ _
  rw [if_neg (not_not.mpr hscheme)]
  exact runs_call.mpr ⟨answer, t, rfl, h⟩

/-- Every exact run is one of the program. -/
theorem ExactRun.runs (hurl : urlsplit netlocOk url = .ok parts)
    (hscheme : lower parts.scheme = lit "https") {answer : Except PyError Response}
    (hanswer : HttpErrorsOnly answer) {t : List calls.Event}
    {r : Except PyError (Option Path)}
    (h : ExactRun url settings.engineApiKey (dir ++ [targetName parts.path filename suffix])
      maxBytes answer t r) :
    Runs (downloadToTemp netlocOk settings url dir filename suffix maxBytes) t r ∧
      ∀ ev ∈ t, AnsweredBy answer ev.1 ev.2 := by
  cases h with
  | complete hc =>
    constructor
    · apply runs_downloadToTemp_of_https hurl hscheme
      rw [keepAnswer, receive_of_complete hc]
      exact runs_call.mpr ⟨.ok (), [], rfl, .pure _⟩
    · intro ev hev
      rcases List.mem_cons.mp hev with rfl | hev
      · rfl
      · rw [List.mem_singleton.mp hev]
        rfl
  | rejected hno =>
    constructor
    · apply runs_downloadToTemp_of_https hurl hscheme
      rw [keepAnswer, receive_of_not_complete hanswer hno]
      exact .pure _
    · intro ev hev
      rw [List.mem_singleton.mp hev]
      rfl

/-- The runs of the program are exact. -/
theorem exactRun_of_runs (hurl : urlsplit netlocOk url = .ok parts)
    (hscheme : lower parts.scheme = lit "https") {answer : Except PyError Response}
    (hanswer : HttpErrorsOnly answer) {t : List calls.Event}
    {r : Except PyError (Option Path)}
    (h : Runs (downloadToTemp netlocOk settings url dir filename suffix maxBytes) t r)
    (ht : ∀ ev ∈ t, AnsweredBy answer ev.1 ev.2) :
    ExactRun url settings.engineApiKey (dir ++ [targetName parts.path filename suffix])
      maxBytes answer t r := by
  have hreceive := @receive_of_not_complete maxBytes answer hanswer
  cases downloadToTemp_cases h with
  | badUrl hbad =>
    rw [hurl] at hbad
    cases hbad
  | refused hurl' hno =>
    obtain rfl := Except.ok.inj (hurl.symm.trans hurl')
    exact absurd hscheme hno
  | @raised _ answer' _ _ _ herror =>
    -- an `httpx.HTTPError` is caught, so nothing is raised
    obtain rfl : answer = answer' := (ht _ List.mem_cons_self).symm
    by_cases hc : ∃ response, answer = .ok response ∧ Complete maxBytes response
    · obtain ⟨response, rfl, hc⟩ := hc
      rw [receive_of_complete hc] at herror
      cases herror
    · rw [hreceive hc] at herror
      cases herror
  | @failed _ answer' _ _ hnone =>
    obtain rfl : answer = answer' := (ht _ List.mem_cons_self).symm
    apply ExactRun.rejected
    rintro ⟨response, rfl, hc⟩
    rw [receive_of_complete hc] at hnone
    cases hnone
  | @received _ answer' _ x hurl' _ hsome =>
    obtain rfl := Except.ok.inj (hurl.symm.trans hurl')
    obtain rfl : answer = answer' := (ht _ List.mem_cons_self).symm
    obtain rfl : x = .ok () := ht _ (List.mem_cons_of_mem _ (List.mem_singleton_self _))
    by_cases hc : ∃ response, answer = .ok response ∧ Complete maxBytes response
    · obtain ⟨response, rfl, hc⟩ := hc
      rw [receive_of_complete hc] at hsome
      cases hsome
      exact .complete hc
    · rw [hreceive hc] at hsome
      cases hsome

/-- A download of an https URL in which only `httpx.HTTPError` is raised and the write
succeeds has exactly one run: a complete body within the cap is written and its path
returned, and nothing is written otherwise. The buffer is never above the cap by more than
one chunk. -/
theorem downloadToTemp_exact (hurl : urlsplit netlocOk url = .ok parts)
    (hscheme : lower parts.scheme = lit "https") {answer : Except PyError Response}
    (hanswer : HttpErrorsOnly answer) (t : List calls.Event)
    (r : Except PyError (Option Path)) :
    ((Runs (downloadToTemp netlocOk settings url dir filename suffix maxBytes) t r ∧
          ∀ ev ∈ t, AnsweredBy answer ev.1 ev.2) ↔
        ExactRun url settings.engineApiKey (dir ++ [targetName parts.path filename suffix])
          maxBytes answer t r) ∧
      ∀ response, answer = .ok response →
        (readBodyTrace maxBytes response.failure [] response.chunks).2
            = readBody maxBytes response.failure [] response.chunks ∧
          ∀ buf ∈ (readBodyTrace maxBytes response.failure [] response.chunks).1,
            ∃ chunk ∈ response.chunks, buf.length ≤ maxBytes + chunk.length := by
  -- There is a run for each exchange, and no other.
  refine ⟨⟨fun h => exactRun_of_runs hurl hscheme hanswer h.1 h.2,
    fun h => h.runs hurl hscheme hanswer⟩, fun response _ => ⟨readBodyTrace_snd, ?_⟩⟩
  exact length_le_of_mem_trace (Nat.zero_le _)

end

/-- Three bytes in two chunks. -/
def threeBytes : Response where
  status := 200
  contentLength := some (lit "3")
  chunks := [[1, 2], [3]]

/-- Three bytes are within a limit of three. -/
theorem threeBytes_complete : Complete 3 threeBytes where
  failure := rfl
  closing := rfl
  status := rfl
  declared := by
    rintro _ n ⟨⟩ hn
    cases hn
    decide
  length := by decide

/-- Settings with an API key. -/
def keySettings : Settings where
  signalAccount := []
  engineApiKey := lit "key"
  gatewayPublicUrl := []

/-- Three bytes fit a cap of three. -/
theorem downloadToTemp_exact_threeBytes :
    ∃ t path, Runs (downloadToTemp (fun _ => true) keySettings (lit "https://engine.example/v.bin")
      [] none [] 3) t (.ok (some path)) ∧ ∀ ev ∈ t, AnsweredBy (.ok threeBytes) ev.1 ev.2 := by
  have hanswer : HttpErrorsOnly (.ok threeBytes) := ⟨by rintro _ ⟨⟩, by rintro _ ⟨⟩⟩
  exact ⟨_, _, (downloadToTemp_exact rfl (by decide) hanswer _ _).1.mpr
    (.complete threeBytes_complete)⟩

end SignalGateway.Proofs.Delivery
