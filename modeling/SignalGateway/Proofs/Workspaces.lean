import SignalGateway.Lib.Ghosts
import SignalGateway.Proofs.MediaFiles
import SignalGateway.Proofs.Outbound

/-!
# `SignalGateway.Proofs.Workspaces`: the workspace of a delivery, call by call

`Workspace` follows the calls of a delivery: whether its workspace is open, which files are in it,
and what has been downloaded. `Allowed` is what a delivery needs of its workspace for a call: it
writes only while the workspace is open, and hands on only files that are there.

`uses_dispatchCallback` says that each call of a delivery is allowed when it is made, and that
the workspace is closed at the end, however the delivery ends. `uses_deliver` says the same down to
the RPCs: the files that they attach are in the workspace of the delivery.

The rules are those of `SignalGateway.Lib.Ghosts`, with `Workspace` for the ghost state. `Uses` is
the judgment for a program of the delivery: its calls are allowed, and `Q` holds of the workspace
behind them. For most programs it says that only the directories of some items have changed
(`Grown`).

`Kept` is what is known of a file: it is in the directory of its item under a safe name, and its
bytes came from the `Source` of the item, a download or the base64 field.
-/

set_option autoImplicit false

namespace SignalGateway.Proofs.Delivery

open SignalGateway.Delivery SignalGateway.Dispatch
open Prog hiding pure bind

/-- The workspace of a delivery, as its calls leave it. -/
structure Workspace where
  isOpen : Bool := false
  files : Path → Option Bytes := fun _ => none
  downloads : List (PyStr × Except PyError Response) := []

/-- A download. -/
def Workspace.download (w : Workspace) (url : PyStr) (answer : Except PyError Response) :
    Workspace := { w with downloads := w.downloads ++ [(url, answer)] }

/-- A write. One that fails can leave anything at its path. -/
def Workspace.write (w : Workspace) (path : Path) (data : Bytes) (answer : Except PyError Unit) :
    Workspace :=
  { w with files := Function.update w.files path (if answer.toBool then some data else none) }

/-- What a call does to the workspace. -/
def Workspace.step (w : Workspace) : calls.Event → Workspace
  | ⟨.openWorkspace, answer⟩ =>
      if Except.toBool answer then { w with isOpen := true, files := fun _ => none } else w
  | ⟨.closeWorkspace, _⟩ => { w with isOpen := false, files := fun _ => none }
  | ⟨.stream url _, answer⟩ => w.download url answer
  | ⟨.writeBytes path data, answer⟩ => w.write path data answer
  | ⟨.closeClient, _⟩ | ⟨.mkdir _, _⟩ | ⟨.send _ _, _⟩ | ⟨.sendVoiceNote _ _, _⟩
  | ⟨.sendAttachments _ _, _⟩ | ⟨.sendReaction _ _ _ _, _⟩ => w

/-- The bytes of an item: what was downloaded from its URL, or the base64 field of the voice
note. -/
inductive Source (payload : CallbackPayload) (w : Workspace) : Item → Bytes → Prop where
  | downloaded {item : Item} {url : PyStr} {answer : Except PyError Response} {data : Bytes}
      (hurl : item.url payload = some url) (hanswer : (url, answer) ∈ w.downloads)
      (hdata : receive signalMaxAttachmentSize answer = .ok (some data)) :
      Source payload w item data
  | decoded {data : Bytes} (hdata : fallbackBytes payload = some data) :
      Source payload w .voice data

/-- A direct child of the directory of an item, under a safe name. -/
def Child (item : Item) (path : Path) : Prop := ∃ name, SafeName name ∧ path = item.dir ++ [name]

/-- The file of an item is in the workspace. -/
structure Kept (payload : CallbackPayload) (w : Workspace) (item : Item) (path : Path)
    (data : Bytes) : Prop where
  child : Child item path
  file : w.files path = some data
  source : Source payload w item data

/-- The path is that of a file of one of the items. -/
def Handed (payload : CallbackPayload) (w : Workspace) (path : Path) : Prop :=
  ∃ item ∈ mediaItems payload, ∃ data, Kept payload w item path data

/-- The calls that a delivery makes with this workspace. -/
def Allowed (payload : CallbackPayload) (w : Workspace) : Op → Prop
  | .openWorkspace => w.isOpen = false
  | .closeWorkspace | .mkdir _ | .stream _ _ => w.isOpen = true
  | .writeBytes path _ => w.isOpen = true ∧ ∃ item ∈ mediaItems payload, Child item path
  | .sendVoiceNote _ path => Handed payload w path
  | .sendAttachments _ paths => ∀ path ∈ paths, Handed payload w path
  | .closeClient => w.isOpen = false
  | .send _ _ | .sendReaction _ _ _ _ => True

/-- The workspace has changed in the directories of these items at most. -/
structure Grown (payload : CallbackPayload) (items : Item → Prop) (w w' : Workspace) : Prop where
  isOpen : w'.isOpen = w.isOpen
  kept : ∀ item, ¬ items item → ∀ path data, Kept payload w item path data →
    Kept payload w' item path data

variable {netlocOk : PyStr → Bool} {settings : Settings} {payload : CallbackPayload}
  {ownsClient : Bool} {chatId : PyStr} {w w' : Workspace} {items items' : Item → Prop}

/-- What a part of a delivery does with the workspace `w`, as far as `Q` says. -/
abbrev Uses (payload : CallbackPayload) {α : Type} (p : Action α) (w : Workspace)
    (Q : Except PyError α → Workspace → Prop) : Prop :=
  p.Upholds Workspace.step (Allowed payload) w Q

/-! ### Changes -/

/-- Nothing has been written. -/
theorem Grown.refl : Grown payload items w w := ⟨rfl, fun _ _ _ _ h => h⟩

/-- One after the other. -/
theorem Grown.trans {w'' : Workspace} (h : Grown payload items w w')
    (h' : Grown payload items w' w'') : Grown payload items w w'' :=
  ⟨h'.isOpen.trans h.isOpen, fun item hitem path data hkept =>
    h'.kept item hitem path data (h.kept item hitem path data hkept)⟩

/-- More items can have grown. -/
theorem Grown.mono (h : Grown payload items w w') (hle : ∀ item, items item → items' item) :
    Grown payload items' w w' :=
  ⟨h.isOpen, fun item hitem => h.kept item fun hin => hitem (hle item hin)⟩

/-- A source stays one. -/
theorem Source.mono {item : Item} {data : Bytes} (h : Source payload w item data)
    (hsub : ∀ x ∈ w.downloads, x ∈ w'.downloads) : Source payload w' item data := by
  cases h with
  | downloaded hurl hanswer hdata => exact .downloaded hurl (hsub _ hanswer) hdata
  | decoded hdata => exact .decoded hdata

/-- A download writes no file. -/
theorem grown_download (url : PyStr) (answer : Except PyError Response) :
    Grown payload items w (w.download url answer) :=
  ⟨rfl, fun _ _ _ _ h => ⟨h.child, h.file, h.source.mono fun _ hx => List.mem_append_left _ hx⟩⟩

/-- A write into the directory of an item. -/
theorem grown_write {item : Item} {path : Path} (hchild : Child item path) (data : Bytes)
    (answer : Except PyError Unit) : Grown payload (· = item) w (w.write path data answer) := by
  refine ⟨rfl, fun item' hitem path' data' h => ⟨h.child, ?_, h.source.mono fun _ hx => hx⟩⟩
  have hne : path' ≠ path := by
    rintro rfl
    obtain ⟨name, -, rfl⟩ := h.child
    obtain ⟨name', -, heq⟩ := hchild
    exact hitem (Item.dir_injective (List.append_inj_left' heq rfl))
  exact (Function.update_of_ne hne _ _).trans h.file

/-! ### One item -/

/-- The path that a part returns is that of the file of the item. -/
def Files (payload : CallbackPayload) (item : Item) (w : Workspace)
    (r : Except PyError (Option Path)) (w' : Workspace) : Prop :=
  Grown payload (· = item) w w' ∧ ∀ path, r = .ok (some path) →
    ∃ data, Kept payload w' item path data

/-- An item without a file. -/
theorem files_none {item : Item} (h : Grown payload (· = item) w w') :
    Files payload item w (.ok none) w' := ⟨h, fun _ hpath => by cases hpath⟩

/-- An item whose file could not be written. -/
theorem files_error {item : Item} {e : PyError} (h : Grown payload (· = item) w w') :
    Files payload item w (.error e) w' := ⟨h, fun _ hpath => by cases hpath⟩

/-- The bytes of an item are written under a safe name. -/
theorem uses_writeBytes {w₀ : Workspace} {item : Item} {name : PyStr} {data : Bytes}
    (hitem : item ∈ mediaItems payload) (hname : SafeName name) (hopen : w.isOpen = true)
    (hgrown : Grown payload (· = item) w₀ w) (hsource : Source payload w item data) :
    Uses payload (writeBytes (item.dir ++ [name]) data >>= fun _ =>
      (.pure (some (item.dir ++ [name])) : Action (Option Path))) w (Files payload item w₀) := by
  have hchild : Child item (item.dir ++ [name]) := ⟨name, hname, rfl⟩
  refine ⟨⟨hopen, item, hitem, hchild⟩, fun (answer : Except PyError Unit) => ?_⟩
  have hgrown' := hgrown.trans (grown_write hchild data answer)
  cases answer with
  | error e => exact files_error hgrown'
  | ok u =>
    refine ⟨hgrown', fun path hpath => ?_⟩
    cases hpath
    exact ⟨data, hchild, Function.update_self _ _ _, hsource.mono fun _ hx => hx⟩

/-- A download of an item. -/
theorem uses_downloadToTemp {item : Item} {url : PyStr} {filename : Option PyStr}
    {suffix : PyStr} (hitem : item ∈ mediaItems payload) (hurl : item.url payload = some url)
    (hsuffix : ∀ c ∈ suffix, isSafeChr c = true) (hopen : w.isOpen = true) :
    Uses payload (downloadToTemp netlocOk settings url item.dir filename suffix
      signalMaxAttachmentSize) w (Files payload item w) := by
  refine upholds_bind (R := fun _ w' => w = w') (upholds_ofExcept rfl) ?_ ?_
  · rintro parts _ rfl
    split
    · exact files_none .refl
    · refine ⟨hopen, fun (answer : Except PyError Response) => ?_⟩
      have hgrown : Grown payload (· = item) w (w.download url answer) := grown_download url answer
      refine upholds_bind (R := fun r w' => r = receive signalMaxAttachmentSize answer ∧
        w.download url answer = w') (upholds_ofExcept ⟨rfl, rfl⟩) ?_ ?_
      · rintro data _ ⟨hdata, rfl⟩
        cases data with
        | none => exact files_none hgrown
        | some data =>
          exact uses_writeBytes hitem (safeName_targetName hsuffix) hopen hgrown
            (.downloaded hurl (List.mem_append_right _ (List.mem_singleton.mpr rfl)) hdata.symm)
      · rintro e _ ⟨-, rfl⟩
        exact files_error hgrown
  · rintro e _ rfl
    exact files_error .refl

/-- A part that does nothing to the workspace, and for which nothing is needed. -/
def Idle : Op → Prop
  | .send _ _ | .sendReaction _ _ _ _ => True
  | .openWorkspace | .closeWorkspace | .closeClient | .mkdir _ | .stream _ _ | .writeBytes _ _
  | .sendVoiceNote _ _ | .sendAttachments _ _ => False

/-- Idle calls leave the workspace. -/
theorem uses_of_idle {α : Type} {p : Action α} (h : p.Only Idle) :
    Uses payload p w fun _ w' => w = w' := by
  have hallowed : ∀ (w' : Workspace) op, w = w' → Idle op → Allowed payload w' op := by
    intro w' op _ hop
    cases op with
    | send chatId message => exact trivial
    | sendReaction chatId emoji targetAuthor targetTimestamp => exact trivial
    | _ => exact hop.elim
  refine upholds_of_only h hallowed (fun w' op x hw hop => ?_) rfl
  cases op with
  | send chatId message => exact hw
  | sendReaction chatId emoji targetAuthor targetTimestamp => exact hw
  | _ => exact hop.elim

/-- A reaction is idle. -/
theorem idle_react {emoji : PyStr} : (react payload emoji).Only Idle := by
  unfold react
  split
  · exact trivial
  · exact only_tryCatch (only_bind ⟨trivial, fun _ => only_ofExcept _⟩ fun _ => trivial)
      fun _ => trivial

/-- The text part is idle. -/
theorem idle_of_textOp {op : Op} (h : TextOp chatId op) : Idle op := by
  cases op with
  | send chatId' message => exact trivial
  | _ => exact h.elim

/-! ### The voice note -/

/-- A directory is made for an item. -/
theorem uses_mkdir {path : Path} (hopen : w.isOpen = true) :
    Uses payload (mkdir path) w fun _ w' => w = w' :=
  ⟨hopen, fun _ => upholds_ofExcept rfl⟩

/-- The voice note is an item. -/
theorem voice_mem : Item.voice ∈ mediaItems payload := List.mem_cons_self

/-- The fallback writes the voice note, if there is none yet. -/
theorem uses_decodeVoice {w₀ : Workspace} {path : Option Path} (hopen : w.isOpen = true)
    (h : Files payload .voice w₀ (.ok path) w) :
    Uses payload (decodeVoice payload voiceDir path) w (Files payload .voice w₀) := by
  unfold decodeVoice
  split
  · exact h
  · split
    · next b64 hfield =>
      unfold decodeBase64ToTemp
      split
      · exact files_none h.1
      · next data hdata =>
        have hfallback : fallbackBytes payload = some data := by
          rw [fallbackBytes, hfield]
          exact hdata
        exact uses_writeBytes voice_mem (safeName_safeFilename _) hopen h.1 (.decoded hfallback)
    · exact files_none h.1

/-- The audio of the voice note. -/
theorem uses_voiceAudio (hopen : w.isOpen = true) :
    Uses payload (voiceAudio netlocOk settings payload) w (Files payload .voice w) := by
  refine upholds_bind (uses_mkdir hopen) ?_ ?_
  · rintro u _ rfl
    refine upholds_bind (R := Files payload .voice w) ?_ ?_ ?_
    · unfold downloadVoice
      split
      · next url hfield =>
        exact uses_downloadToTemp voice_mem hfield (List.all_eq_true.mp (by decide)) hopen
      · exact files_none .refl
    · exact fun path w' h => uses_decodeVoice (h.1.isOpen.trans hopen) h
    · exact fun e w' h => files_error h.1
  · rintro e _ rfl
    exact files_error .refl

/-- The workspace is as open as before. -/
def Same {α : Type} (w : Workspace) (_ : Except PyError α) (w' : Workspace) : Prop :=
  w'.isOpen = w.isOpen

/-- The voice part writes the voice note. -/
theorem uses_voicePart (hopen : w.isOpen = true) :
    Uses payload (voicePart netlocOk settings payload chatId) w (Same w) := by
  unfold voicePart
  split
  · refine upholds_bind (uses_voiceAudio hopen) ?_ fun e w' h => h.1.isOpen
    intro path w' h
    cases path with
    | none => exact h.1.isOpen
    | some path =>
      obtain ⟨data, hkept⟩ := h.2 path rfl
      exact ⟨⟨.voice, voice_mem, data, hkept⟩, fun x => upholds_ofExcept h.1.isOpen⟩
  · exact rfl

/-! ### The attachments -/

/-- The attachments from `index` on. -/
def From (index : Nat) : Item → Prop
  | .voice => False
  | .attachment i => index ≤ i

/-- The loop leaves the files of other items, and the files of the paths that it returns. -/
def Loaded (payload : CallbackPayload) (index : Nat) (w : Workspace)
    (r : Except PyError (List Path × Bool)) (w' : Workspace) : Prop :=
  Grown payload (From index) w w' ∧ ∀ paths ok, r = .ok (paths, ok) → ∀ path ∈ paths,
    Handed payload w' path

/-- The first attachment from an index on. -/
theorem from_of_eq {index : Nat} (item : Item) (h : item = .attachment index) : From index item := by
  rw [h]
  exact le_rfl

/-- The attachments behind it. -/
theorem from_of_succ {index : Nat} (item : Item) (h : From (index + 1) item) : From index item := by
  cases item with
  | voice => exact h
  | attachment i => exact Nat.le_of_succ_le h

/-- A download that raises has loaded nothing. -/
theorem loaded_error {index : Nat} {e : PyError} (h : Grown payload (From index) w w') :
    Loaded payload index w (.error e) w' := ⟨h, fun _ _ hpaths => by cases hpaths⟩

/-- The next attachment of the loop is an item of the reply. -/
theorem attachment_of_drop {index : Nat} {att : OutboundAttachment}
    {atts : List OutboundAttachment} (hdrop : payload.attachments.drop index = att :: atts) :
    Item.attachment index ∈ mediaItems payload ∧
      (Item.attachment index).url payload = some att.url ∧
      payload.attachments.drop (index + 1) = atts := by
  have hatt : payload.attachments[index]? = some att := by
    rw [← List.head?_drop, hdrop]
    rfl
  refine ⟨List.mem_cons_of_mem _ (List.mem_map_of_mem (List.mem_range.mpr ?_)), ?_, ?_⟩
  · exact (List.getElem?_eq_some_iff.mp hatt).1
  · rw [Item.url, hatt]
    rfl
  · rw [← List.tail_drop, hdrop]
    rfl

/-- The downloads write the attachments, from the given index on. -/
theorem uses_downloadAttachments {atts : List OutboundAttachment} :
    ∀ {index : Nat} {w : Workspace}, payload.attachments.drop index = atts → w.isOpen = true →
      Uses payload (downloadAttachments netlocOk settings index atts) w
        (Loaded payload index w) := by
  induction atts with
  | nil =>
    intro index w hdrop hopen
    exact ⟨.refl, fun paths ok h path hpath => by cases h; cases hpath⟩
  | cons att atts ih =>
    intro index w hdrop hopen
    obtain ⟨hmem, hurl, hrest⟩ := attachment_of_drop hdrop
    refine upholds_bind (uses_mkdir hopen) ?_ ?_
    · rintro u _ rfl
      have hload : Uses payload (downloadToTemp netlocOk settings att.url (attachmentDir index)
          att.filename [] signalMaxAttachmentSize) w (Files payload (.attachment index) w) :=
        uses_downloadToTemp hmem hurl (fun c hc => absurd hc List.not_mem_nil) hopen
      refine upholds_bind hload ?_ fun e w' h => loaded_error (h.1.mono from_of_eq)
      intro path w₁ hfile
      have hgrown := hfile.1.mono from_of_eq
      refine upholds_bind (ih hrest (hfile.1.isOpen.trans hopen)) ?_
        fun e w' h => loaded_error (hgrown.trans (h.1.mono from_of_succ))
      rintro ⟨paths, ok⟩ w₂ ⟨hlater, hpaths⟩
      have hall := hgrown.trans (hlater.mono from_of_succ)
      cases path with
      | none =>
        refine ⟨hall, fun paths' ok' h => ?_⟩
        cases h
        exact hpaths paths ok rfl
      | some path =>
        refine ⟨hall, fun paths' ok' h => ?_⟩
        cases h
        -- the later downloads leave the file of this one alone
        obtain ⟨data, hkept⟩ := hfile.2 path rfl
        have hstays := hlater.kept (.attachment index) (Nat.not_succ_le_self index) path data hkept
        exact List.forall_mem_cons.mpr
          ⟨⟨.attachment index, hmem, data, hstays⟩, hpaths paths ok rfl⟩
    · rintro e _ rfl
      exact loaded_error .refl

/-- The attachment part writes the attachments. -/
theorem uses_attachmentPart (hopen : w.isOpen = true) :
    Uses payload (attachmentPart netlocOk settings payload chatId) w (Same w) := by
  unfold attachmentPart
  split
  · exact rfl
  · refine upholds_bind (uses_downloadAttachments List.drop_zero hopen) ?_ fun e w' h => h.1.isOpen
    rintro ⟨paths, ok⟩ w' ⟨hgrown, hpaths⟩
    have hsend : Uses payload (sendPaths chatId paths) w' (Same w) := by
      unfold sendPaths
      split
      · exact hgrown.isOpen
      · exact ⟨hpaths paths ok rfl, fun x => upholds_ofExcept hgrown.isOpen⟩
    exact upholds_bind hsend (fun _ _ h => h) fun _ _ h => h

/-! ### The delivery -/

/-- The text part leaves the workspace. -/
theorem uses_textPart {voiceOk : Bool} :
    Uses payload (textPart settings payload chatId voiceOk) w fun _ w' => w = w' :=
  uses_of_idle (textPart_only.mono fun _ h => idle_of_textOp h)

/-- The delivery works in its workspace. -/
theorem uses_deliverMedia (hopen : w.isOpen = true) :
    Uses payload (deliverMedia netlocOk settings payload chatId) w (Same w) := by
  refine upholds_bind (uses_voicePart hopen) ?_ fun e w' h => h
  intro voiceOk w₁ hvoice
  refine upholds_bind uses_textPart ?_ (by rintro e _ rfl; exact hvoice)
  rintro ⟨sent, expected⟩ _ rfl
  refine upholds_bind (uses_attachmentPart (hvoice.trans hopen)) ?_ fun e w' h => h.trans hvoice
  exact fun attachmentsOk w₂ h => h.trans hvoice

/-- The workspace is closed. -/
def Closed {α : Type} (_ : Except PyError α) (w : Workspace) : Prop := w.isOpen = false

/-- A workspace that is opened is closed. -/
theorem uses_withWorkspace {α : Type} {body : Action α} (hclosed : w.isOpen = false)
    (h : ∀ w : Workspace, w.isOpen = true → Uses payload body w (Same w)) :
    Uses payload (withWorkspace body) w Closed := by
  refine upholds_bind (R := fun r w' => r = .ok () ∧ w'.isOpen = true ∨
    (∃ e, r = .error e) ∧ w'.isOpen = false)
    ⟨hclosed, fun (answer : Except PyError Unit) => ?_⟩ ?_ ?_
  · cases answer with
    | ok u => exact .inl ⟨rfl, rfl⟩
    | error e => exact .inr ⟨⟨e, rfl⟩, hclosed⟩
  · rintro u w' (⟨-, hopen⟩ | ⟨⟨e, he⟩, -⟩)
    · refine upholds_tryFinally (h w' hopen) fun r w'' hsame => ?_
      exact ⟨hsame.trans hopen, fun _ => ⟨fun _ => rfl, fun e he => by cases he⟩⟩
    · cases he
  · rintro e w' (⟨he, -⟩ | ⟨-, hclosed'⟩)
    · cases he
    · exact hclosed'

/-- A complete reply closes its workspace. -/
theorem uses_dispatchComplete (hclosed : w.isOpen = false) :
    Uses payload (dispatchComplete netlocOk settings ownsClient payload) w Closed := by
  have hreact : ∀ {w : Workspace}, Uses payload (react payload completeReaction) w
      fun _ w' => w = w' := uses_of_idle idle_react
  unfold dispatchComplete
  split
  · refine upholds_bind (R := Closed) ?_ ?_ fun e w' h => h
    · refine upholds_tryFinally (uses_withWorkspace hclosed fun w => uses_deliverMedia) ?_
      intro r w' h
      unfold closeClient
      split
      · exact ⟨h, fun x => upholds_ofExcept ⟨fun _ => h, fun _ _ => h⟩⟩
      · exact ⟨fun _ => h, fun _ _ => h⟩
    · intro reply w' h
      exact upholds_bind hreact (by rintro u _ rfl; exact h) (by rintro e _ rfl; exact h)
  · refine upholds_bind (uses_of_idle ((sendTextChunks_only _).mono fun _ h => idle_of_textOp h)) ?_
      (by rintro e _ rfl; exact hclosed)
    rintro ⟨sent, expected⟩ _ rfl
    refine upholds_bind hreact ?_ (by rintro e _ rfl; exact hclosed)
    rintro u _ rfl
    split <;> exact hclosed

/-- Each call of a delivery is allowed when it is made, and the workspace is closed at the end,
however the delivery ends. -/
theorem uses_dispatchCallback (hclosed : w.isOpen = false) :
    Uses payload (dispatchCallback netlocOk settings ownsClient payload) w Closed := by
  have hidle : ∀ {α : Type} {p : Action α}, p.Only Idle → Uses payload p w Closed := fun h =>
    (uses_of_idle h).mono (by rintro r _ rfl; exact hclosed)
  unfold dispatchCallback
  split
  · exact hidle (only_bind ⟨trivial, fun _ => only_ofExcept _⟩ fun _ =>
      only_bind idle_react fun _ => trivial)
  · exact hidle (only_bind ((sendTextChunks_only _).mono fun _ h => idle_of_textOp h)
      fun _ => trivial)
  · exact hclosed
  · exact uses_dispatchComplete hclosed

end SignalGateway.Proofs.Delivery

namespace SignalGateway.Proofs.Outbound

open SignalGateway.Envelope SignalGateway.EngineClient SignalGateway.SignalClient
open SignalGateway.Delivery SignalGateway.Dispatch SignalGateway.Proofs.Delivery
open SignalGateway.Client (batchParams batchesOf)
open SignalGateway.Outbound (pathText method own deliver)
open Prog hiding pure bind

/-! ### The attachments of an RPC -/

/-- The items of a parameter. -/
def itemsOf : Json → List Json
  | .arr xs => xs
  | x => [x]

/-- The attachments of an RPC. -/
def attachmentsOf (params : List (PyStr × Json)) : List Json :=
  params.flatMap fun param => if param.1 = lit "attachments" then itemsOf param.2 else []

/-- The attachments of both lists of parameters. -/
theorem attachmentsOf_append (params params' : List (PyStr × Json)) :
    attachmentsOf (params ++ params') = attachmentsOf params ++ attachmentsOf params' :=
  List.flatMap_append

/-- The attachments of a `dict` are found by the text of the key. -/
theorem attachmentsOf_dict (items : List (String × Json)) :
    attachmentsOf (dict items)
      = items.flatMap fun item => if item.1 = "attachments" then itemsOf item.2 else [] := by
  simp only [attachmentsOf, dict, List.flatMap_map, Routing.lit_injective.eq_iff]

/-- A parameter of another key. -/
theorem attachmentsOf_addParam {params : List (PyStr × Json)} {key : String} {value : Json}
    (hkey : (lit key : PyStr) ≠ lit "attachments") :
    attachmentsOf (addParam params key value) = attachmentsOf params := by
  rw [addParam, attachmentsOf_append]
  simp [attachmentsOf, hkey]

/-- The attachments of the RPC are some of these files. -/
def Attaches (files : List PyStr) : Client.Op → Prop
  | .rpc (.post _ params _) => ∀ x ∈ attachmentsOf params, ∃ path ∈ files, x = .str path
  | .rpc _ | .resolveRecipient _ | .estimateWait _ => True

section
variable {repr : Json → Except PyError PyStr}
  {listGt : List Json → List Json → Except PyError Bool} {isWord : Nat → Bool}
  {settings : Settings} {chatId : PyStr} {files : List PyStr}

/-- A method attaches some of these files, whatever the answers are. -/
abbrev AttachesOnly (files : List PyStr) {α : Type} (p : Client.Action α) (Q : α → Prop) : Prop :=
  p.Contract (fun _ => True) (Attaches files) Q

/-- The destination attaches nothing. -/
theorem attaches_applyDestination (base : List (PyStr × Json)) :
    AttachesOnly files (Client.applyDestination base chatId) fun params =>
      attachmentsOf params = attachmentsOf base := by
  unfold Client.applyDestination SignalClient.applyDestination
  split
  · exact .pure (attachmentsOf_addParam (by decide))
  · refine .call trivial fun (answer : Except PyError Json) _ => ?_
    cases answer with
    | error e => exact .raise _
    | ok recipient => exact .pure (attachmentsOf_addParam (by decide))

/-- An RPC without attachments attaches nothing. -/
theorem attaches_rpc {method : String} {params : List (PyStr × Json)}
    (h : attachmentsOf params = []) :
    AttachesOnly files (Client.rpc repr listGt method params) fun _ => True :=
  .call (fun x hx => by rw [h] at hx; exact absurd hx List.not_mem_nil)
    fun _ _ => .pure trivial

/-- A batch attaches its files. -/
theorem attaches_sendAttachmentBatch {params : List (PyStr × Json)} {n : ℤ}
    (h : ∀ x ∈ attachmentsOf params, ∃ path ∈ files, x = .str path) :
    AttachesOnly files (Client.sendAttachmentBatch repr listGt params n) fun _ => True := by
  refine contract_lift (A := fun _ => True) (G := Batches.BatchOp params n)
    (fun _ _ _ => trivial) ?_ (contract_of_only (Batches.sendAttempts_only params n _ _) fun _ h => h)
  intro op hop
  cases op with
  | post method params' timeout =>
    obtain rfl : params' = params := hop
    exact h
  | _ => exact trivial

/-- Text styles attach nothing. -/
theorem attachmentsOf_textStyleParams : ∀ styles : List PyStr,
    attachmentsOf (Client.textStyleParams styles) = []
  | [] => rfl
  | [_] => by simp [Client.textStyleParams, attachmentsOf, show (lit "textStyle" : PyStr)
      ≠ lit "attachments" by decide]
  | _ :: _ :: _ => by simp [Client.textStyleParams, attachmentsOf, show (lit "textStyles" : PyStr)
      ≠ lit "attachments" by decide]

/-- `send` without attachments attaches nothing. -/
theorem attaches_send (message : PyStr) :
    AttachesOnly files (Client.send repr listGt isWord settings chatId message [] none)
      fun _ => True := by
  refine contract_bind (Q := fun _ => True) (contract_ofExcept fun _ _ => trivial) ?_
  rintro ⟨plain, styles⟩ -
  refine contract_bind (attaches_applyDestination _) fun params hparams => ?_
  refine contract_bind (attaches_rpc ?_) fun _ _ => .pure trivial
  rw [hparams, attachmentsOf_append, attachmentsOf_textStyleParams, attachmentsOf_dict]
  rfl

/-- `send_voice_note` attaches its file. -/
theorem attaches_sendVoiceNote (path : PyStr) :
    AttachesOnly [path] (Client.sendVoiceNote repr listGt settings chatId path)
      fun _ => True := by
  refine contract_bind (attaches_applyDestination _) fun params hparams => ?_
  refine attaches_sendAttachmentBatch fun x hx => ?_
  rw [hparams, attachmentsOf_dict] at hx
  exact ⟨path, List.mem_singleton.mpr rfl, List.mem_singleton.mp hx⟩

/-- `send_reaction` attaches nothing. -/
theorem attaches_sendReaction (emoji : PyStr) (targetAuthor : Json) (targetTimestamp : ℤ) :
    AttachesOnly files
      (Client.sendReaction repr listGt settings chatId emoji targetAuthor targetTimestamp)
      fun _ => True := by
  refine contract_bind (attaches_applyDestination _) fun params hparams => ?_
  refine contract_bind (attaches_rpc ?_) fun _ _ => .pure trivial
  rw [hparams, attachmentsOf_dict]
  rfl

/-- The loop over the batches attaches their files. -/
theorem attaches_sendBatches {base : List (PyStr × Json)} (hbase : attachmentsOf base = [])
    {message : PyStr} {total : Nat} (batches : List (List PyStr))
    (hbatches : ∀ batch ∈ batches, ∀ path ∈ batch, path ∈ files) :
    ∀ (idx : Nat) (allOk : Bool), AttachesOnly files
      (Client.sendBatches repr listGt isWord settings chatId base message total idx allOk
        batches) fun _ => True := by
  induction batches with
  | nil => exact fun _ _ => .pure trivial
  | cons batch batches ih =>
    obtain ⟨hbatch, hrest⟩ := List.forall_mem_cons.mp hbatches
    intro idx allOk
    have hparams : ∀ x ∈ attachmentsOf (batchParams base message idx batch),
        ∃ path ∈ files, x = .str path := by
      intro x hx
      rw [batchParams, addParam, attachmentsOf_append, attachmentsOf_addParam (by decide), hbase,
        List.nil_append] at hx
      have hx : x ∈ batch.map Json.str := by simpa [attachmentsOf, itemsOf] using hx
      obtain ⟨path, hpath, rfl⟩ := List.mem_map.mp hx
      exact ⟨path, hbatch path hpath, rfl⟩
    have hsend : AttachesOnly files
        (do
          let ok ← Client.sendAttachmentBatch repr listGt (batchParams base message idx batch)
            batch.length
          Client.sendBatches repr listGt isWord settings chatId base message total (idx + 1)
            (if ok then allOk else false) batches) fun _ => True :=
      contract_bind (attaches_sendAttachmentBatch hparams) fun _ _ => ih hrest _ _
    refine .call trivial fun (wait : Except PyError ℚ) _ =>
      contract_bind (Q := fun _ => True) (contract_ofExcept fun _ _ => trivial) fun wait _ => ?_
    split
    · refine contract_bind (Q := fun _ => True) (contract_tryCatch ?_ fun _ => .pure trivial)
        fun _ _ => hsend
      exact contract_bind (Q := fun _ => True) (contract_ofExcept fun _ _ => trivial) fun text _ =>
        contract_bind (attaches_send text) fun _ _ => .pure trivial
    · exact hsend

/-- `send_attachments` attaches its files. -/
theorem attaches_sendAttachments (filePaths : List PyStr) (message : PyStr) :
    AttachesOnly filePaths
      (Client.sendAttachments repr listGt isWord settings chatId filePaths message)
      fun _ => True := by
  unfold Client.sendAttachments
  split
  · exact .pure trivial
  · refine contract_bind (attaches_applyDestination _) fun params hparams => ?_
    rw [attachmentsOf_dict] at hparams
    refine attaches_sendBatches hparams _ (fun batch hbatch path hpath => ?_) _ _
    obtain ⟨i, -, rfl⟩ := List.mem_map.mp hbatch
    exact List.mem_of_mem_take (List.mem_of_mem_drop hpath)

/-! ### A delivery, down to its RPCs -/

variable {netlocOk : PyStr → Bool} {workspace : PyStr} {payload : CallbackPayload} {w : Workspace}

/-- What a call does to the workspace of its delivery. The client changes no files. -/
def stepCall (w : Workspace) : SignalGateway.Outbound.calls.Event → Workspace
  | ⟨.client _, _⟩ => w
  | ⟨.own op, answer⟩ => w.step ⟨op, answer⟩

/-- The text is that of the path of a file of one of the items. -/
def HandedText (workspace : PyStr) (payload : CallbackPayload) (w : Workspace) (text : PyStr) :
    Prop := ∃ path, Handed payload w path ∧ text = pathText workspace path

/-- The calls that a delivery makes with this workspace, down to its RPCs. -/
def AllowedCall (workspace : PyStr) (payload : CallbackPayload) (w : Workspace) :
    SignalGateway.Outbound.Op → Prop
  | .client (.rpc (.post _ params _)) =>
      ∀ x ∈ attachmentsOf params, ∃ text, HandedText workspace payload w text ∧ x = .str text
  | .client _ => True
  | .own op => Allowed payload w op

/-- A call of the client that is allowed. -/
def ClientCall (workspace : PyStr) (payload : CallbackPayload) (w : Workspace)
    (op : SignalGateway.Outbound.Op) : Prop :=
  AllowedCall workspace payload w op ∧ ∃ op', op = .client op'

/-- A method that attaches only files that are there. -/
theorem attaches_method {p : Client.Action Bool} (h : AttachesOnly files p fun _ => True)
    (hfiles : ∀ text ∈ files, HandedText workspace payload w text) :
    (method p).Contract (fun _ => True) (ClientCall workspace payload w) fun _ => True := by
  have hcall : ∀ op : Client.calls.Op, Attaches files op →
      ClientCall workspace payload w (.client op) := by
    refine fun (op : Client.Op) hop => ⟨?_, op, rfl⟩
    cases op with
    | rpc op =>
      cases op with
      | post method params timeout =>
        intro x hx
        obtain ⟨text, htext, rfl⟩ := hop x hx
        exact ⟨text, hfiles text htext, rfl⟩
      | _ => exact trivial
    | _ => exact trivial
  have hlift : (p.lift SignalGateway.Outbound.Op.client (fun _ x => x)
      SignalGateway.Outbound.raised).Contract
      (fun _ : SignalGateway.Outbound.calls.Event => True) (ClientCall workspace payload w)
      fun _ => True := contract_lift (fun _ _ _ => trivial) hcall h
  exact (contract_attempt hlift).mono fun _ _ => trivial

/-- A program that only calls the client leaves the workspace as it is. -/
theorem uses_of_clientCalls {α : Type} {p : Prog SignalGateway.Outbound.calls Empty α}
    (h : p.Contract (fun _ => True) (ClientCall workspace payload w) fun _ => True) :
    p.Upholds stepCall (AllowedCall workspace payload) w fun _ w' => w' = w := by
  refine upholds_of_only h.only ?_ ?_ rfl
  · rintro _ op rfl ⟨hop, -⟩
    exact hop
  · rintro _ _ x rfl ⟨-, op, rfl⟩
    rfl

/-- A call that is not one of the client does what it does to the workspace. -/
theorem uses_own {op : Op} (hop : Allowed payload w op) :
    (own op).Upholds stepCall (AllowedCall workspace payload) w fun r w' =>
      ∀ x, r = .ok x → w' = w.step ⟨op, x⟩ :=
  ⟨hop, fun x y hy => by cases hy; rfl⟩

/-- A call of a method is a program of the client, and changes no files. The other calls are those
of the delivery itself. -/
theorem perform_cases {op : Op} (hop : Allowed payload w op) :
    ((SignalGateway.Outbound.perform repr listGt isWord settings workspace op).Contract
      (fun _ => True) (ClientCall workspace payload w) (fun _ => True) ∧
        ∀ x, w.step ⟨op, x⟩ = w) ∨
      SignalGateway.Outbound.perform repr listGt isWord settings workspace op = own op := by
  have hnone : ∀ text ∈ ([] : List PyStr), HandedText workspace payload w text :=
    fun text htext => absurd htext List.not_mem_nil
  cases op with
  | send chatId message =>
    exact .inl ⟨attaches_method (attaches_send message) hnone, fun _ => rfl⟩
  | sendReaction chatId emoji targetAuthor targetTimestamp =>
    exact .inl ⟨attaches_method (attaches_sendReaction emoji _ _) hnone, fun _ => rfl⟩
  | sendVoiceNote chatId path =>
    refine .inl ⟨attaches_method (attaches_sendVoiceNote _) fun text htext => ?_, fun _ => rfl⟩
    exact ⟨path, hop, List.mem_singleton.mp htext⟩
  | sendAttachments chatId paths =>
    refine .inl ⟨attaches_method (attaches_sendAttachments _ _) fun text htext => ?_,
      fun _ => rfl⟩
    obtain ⟨path, hpath, rfl⟩ := List.mem_map.mp htext
    exact ⟨path, hop path hpath, rfl⟩
  | openWorkspace => exact .inr rfl
  | closeWorkspace => exact .inr rfl
  | closeClient => exact .inr rfl
  | mkdir path => exact .inr rfl
  | stream url token => exact .inr rfl
  | writeBytes path data => exact .inr rfl

/-- The program of a call makes calls that are allowed where the call is, and leaves the workspace
as the call does. -/
theorem uses_perform {op : Op} (hop : Allowed payload w op) :
    (SignalGateway.Outbound.perform repr listGt isWord settings workspace op).Upholds stepCall
      (AllowedCall workspace payload) w fun r w' => ∀ x, r = .ok x → w' = w.step ⟨op, x⟩ := by
  rcases perform_cases hop with ⟨hcalls, hsame⟩ | hown
  · exact (uses_of_clientCalls hcalls).mono fun _ _ hw x _ => hw.trans (hsame x).symm
  · rw [hown]
    exact uses_own hop

/-- Each call of a delivery is allowed when it is made, down to its RPCs. -/
theorem uses_deliver (hclosed : w.isOpen = false) :
    (deliver repr listGt isWord netlocOk settings workspace payload).Upholds stepCall
      (AllowedCall workspace payload) w Closed :=
  upholds_handle (uses_dispatchCallback hclosed) fun _ _ hop => uses_perform hop

end

end SignalGateway.Proofs.Outbound
