import SignalGateway.Proofs.MediaFaults
import SignalGateway.Proofs.SafeName

/-!
# `SignalGateway.Proofs.MediaFiles`: where the media of a reply are written

Every file of a delivery is a direct child of the directory of its own media item, and no two
items share a directory (`Item.dir_injective`). `Filed` is the invariant: the writes of a run
are those of some of the items, in the order of the items. It composes along a run
(`Filed.append`), so it is enough to know it of one item.

The statements are about every run, also one that raises. `Stages` takes such a run apart.

Two things are read off a run. `attempts` are the paths of all writes, and `writes` those of the
writes that did not raise. `FileOf` is proved of the attempts: a write that raises has a path, too,
and it lies in its directory all the same.

`dispatchCallback_contained` collects the results for a whole callback. The paths that are handed
to the client are the files of the downloaded attachments, in the order of the payload
(`attachmentFiles`).
-/

set_option autoImplicit false

namespace SignalGateway.Proofs.Delivery

open SignalGateway.Delivery SignalGateway.Dispatch Prog

/-! ### Items and their files -/

/-- A media item of a reply. -/
inductive Item where
  | voice
  | attachment (index : Nat)
deriving DecidableEq, Repr

/-- The directory of an item. -/
def Item.dir : Item → Path
  | .voice => voiceDir
  | .attachment index => attachmentDir index

/-- The URL of an item. -/
def Item.url (payload : CallbackPayload) : Item → Option PyStr
  | .voice => nonEmpty payload.voiceAudioUrl
  | .attachment index => payload.attachments[index]?.map (·.url)

/-- Every item has its own directory. -/
theorem Item.dir_injective : Function.Injective Item.dir := by
  intro a b h
  cases a with
  | voice =>
    cases b with
    | voice => rfl
    | attachment j => exact absurd h.symm (attachmentDir_ne_voiceDir j)
  | attachment i =>
    cases b with
    | voice => exact absurd h (attachmentDir_ne_voiceDir i)
    | attachment j => exact congrArg Item.attachment (attachmentDir_injective h)

/-- The items of a reply, in the order of their delivery. -/
def mediaItems (payload : CallbackPayload) : List Item :=
  .voice :: (List.range payload.attachments.length).map .attachment

/-- No item is listed twice. -/
theorem nodup_mediaItems (payload : CallbackPayload) : (mediaItems payload).Nodup := by
  refine List.nodup_cons.mpr ⟨by simp, ?_⟩
  exact List.nodup_range.map fun i j h => Item.attachment.inj h

/-- The path of a write, whether it succeeds or not. -/
def attemptOf : Op → Option Path
  | .writeBytes path _ => some path
  | .openWorkspace | .closeWorkspace | .closeClient | .mkdir _ | .stream _ _ | .send _ _
  | .sendVoiceNote _ _ | .sendAttachments _ _ | .sendReaction _ _ _ _ => none

/-- The files a run has tried to write, in order. -/
def attempts (t : List calls.Event) : List Path := t.filterMap fun ev => attemptOf ev.1

/-- The writes attempted in two stretches. -/
@[simp] theorem attempts_append (t₁ t₂ : List calls.Event) :
    attempts (t₁ ++ t₂) = attempts t₁ ++ attempts t₂ := List.filterMap_append

/-- What was written was attempted. -/
theorem writes_sublist_attempts (t : List calls.Event) : (writes t).Sublist (attempts t) := by
  induction t with
  | nil => exact .slnil
  | cons ev t ih =>
    obtain ⟨op, x⟩ := ev
    cases op with
    | writeBytes path data =>
      cases x with
      | ok u => exact ih.cons_cons path
      | error e => exact ih.cons path
    | _ => exact ih

section
variable (settings : Settings) (payload : CallbackPayload) (t : List calls.Event)

/-- The bytes of a file are those of its item: what its URL gave just before, or the base64
field of the voice note. -/
inductive Obtained : Item → Path → Bytes → Prop where
  | downloaded {item : Item} {url : PyStr} {answer : Except PyError Response} {path : Path}
      {data : Bytes} {x : Except PyError Unit} (hurl : item.url payload = some url)
      (hanswer : receive signalMaxAttachmentSize answer = .ok (some data))
      (hrun : [⟨.stream url settings.engineApiKey, answer⟩, ⟨.writeBytes path data, x⟩] <:+: t) :
      Obtained item path data
  | decoded {path : Path} {data : Bytes} (hdata : fallbackBytes payload = some data) :
      Obtained .voice path data

/-- A file of an item is a direct child of its directory, under a safe name. -/
structure FileOf (item : Item) (path : Path) (data : Bytes) : Prop where
  child : ∃ name, SafeName name ∧ path = item.dir ++ [name] ∧ joinPath item.dir name = some path
  content : Obtained settings payload t item path data

/-- The writes of a run belong to some of the items, in this order. -/
structure Filed (items : List Item) : Prop where
  files : ∀ path data x, (⟨.writeBytes path data, x⟩ : calls.Event) ∈ t →
    ∃ item ∈ items, FileOf settings payload t item path data
  dirs : ((attempts t).map List.dropLast).Sublist (items.map Item.dir)

end

variable {netlocOk : PyStr → Bool} {settings : Settings} {payload : CallbackPayload}
  {ownsClient : Bool} {chatId : PyStr} {t t₁ t₂ : List calls.Event} {items : List Item}

/-- A file with a safe name in the directory of its item. -/
theorem FileOf.of_name {item : Item} {name : PyStr} {data : Bytes} (hname : SafeName name)
    (hdata : Obtained settings payload t item (item.dir ++ [name]) data) :
    FileOf settings payload t item (item.dir ++ [name]) data :=
  ⟨⟨name, hname, rfl, hname.joinPath_eq _⟩, hdata⟩

/-- A file stays one in a longer trace. -/
theorem FileOf.mono {item : Item} {path : Path} {data : Bytes}
    (h : FileOf settings payload t₁ item path data) (hsub : t₁ <:+: t₂) :
    FileOf settings payload t₂ item path data := by
  refine ⟨h.child, ?_⟩
  cases h.content with
  | downloaded hurl hanswer hrun => exact .downloaded hurl hanswer (hrun.trans hsub)
  | decoded hdata => exact .decoded hdata

/-- A run without writes. -/
theorem Filed.of_nil (h : attempts t = []) : Filed settings payload t items where
  files path data x hev := by
    have hmem : path ∈ attempts t := List.mem_filterMap.mpr ⟨_, hev, rfl⟩
    rw [h] at hmem
    exact absurd hmem List.not_mem_nil
  dirs := by
    rw [h]
    exact List.nil_sublist _

/-- The files of two parts. -/
theorem Filed.append {items₁ items₂ : List Item} (h₁ : Filed settings payload t₁ items₁)
    (h₂ : Filed settings payload t₂ items₂) :
    Filed settings payload (t₁ ++ t₂) (items₁ ++ items₂) where
  files path data x hev := by
    rcases List.mem_append.mp hev with hev | hev
    · obtain ⟨item, hitem, hfile⟩ := h₁.files path data x hev
      exact ⟨item, List.mem_append_left _ hitem, hfile.mono (List.prefix_append t₁ t₂).isInfix⟩
    · obtain ⟨item, hitem, hfile⟩ := h₂.files path data x hev
      exact ⟨item, List.mem_append_right _ hitem, hfile.mono (List.suffix_append t₁ t₂).isInfix⟩
  dirs := by
    rw [attempts_append, List.map_append, List.map_append]
    exact h₁.dirs.append h₂.dirs

/-- Behind calls that write nothing. -/
theorem Filed.behind (h₁ : attempts t₁ = []) (h₂ : Filed settings payload t₂ items) :
    Filed settings payload (t₁ ++ t₂) items :=
  append (.of_nil h₁ : Filed settings payload t₁ []) h₂

/-- In front of calls that write nothing. -/
theorem Filed.before (h₁ : Filed settings payload t₁ items) (h₂ : attempts t₂ = []) :
    Filed settings payload (t₁ ++ t₂) items := by
  have happend := h₁.append (.of_nil h₂ : Filed settings payload t₂ [])
  rw [List.append_nil] at happend
  exact happend

/-- The files of a run are in different directories. -/
theorem Filed.nodup (h : Filed settings payload t items) (hitems : items.Nodup) :
    (attempts t).Nodup :=
  (h.dirs.nodup (hitems.map Item.dir_injective)).of_map _

/-- A run that ends with the one write of an item. -/
theorem Filed.of_write {item : Item} {name : PyStr} {data : Bytes} {x : Except PyError Unit}
    (hfront : attempts t = []) (hname : SafeName name)
    (hdata : Obtained settings payload
      (t ++ [⟨.writeBytes (item.dir ++ [name]) data, x⟩]) item (item.dir ++ [name]) data) :
    Filed settings payload (t ++ [⟨.writeBytes (item.dir ++ [name]) data, x⟩]) [item] where
  files path data' x' hev := by
    rcases List.mem_append.mp hev with hev | hev
    · have hmem : path ∈ attempts t := List.mem_filterMap.mpr ⟨_, hev, rfl⟩
      rw [hfront] at hmem
      exact absurd hmem List.not_mem_nil
    · have heq := List.mem_singleton.mp hev
      cases heq
      exact ⟨item, List.mem_singleton_self item, .of_name hname hdata⟩
  dirs := by
    rw [attempts_append, hfront, List.nil_append]
    show [List.dropLast (item.dir ++ [name])].Sublist [item.dir]
    rw [List.dropLast_concat]

/-! ### The runs of one item -/

/-- A directory is no file. -/
theorem attempts_mkdir {path : Path} {r : Except PyError Unit} (h : Runs (mkdir path) t r) :
    attempts t = [] := by
  obtain ⟨x, rfl, -⟩ := runs_call_ofExcept.mp h
  rfl

/-- A download writes at most the file of its item, and none if it returns none. -/
theorem filed_downloadToTemp (item : Item) {url : PyStr} {filename : Option PyStr}
    {suffix : PyStr} {r : Except PyError (Option Path)} (hitem : item.url payload = some url)
    (hsuffix : ∀ c ∈ suffix, isSafeChr c = true)
    (h : Runs (downloadToTemp netlocOk settings url item.dir filename suffix
      signalMaxAttachmentSize) t r) :
    Filed settings payload t [item] ∧ (r = .ok none → attempts t = []) := by
  cases downloadToTemp_cases h with
  | badUrl hurl => exact ⟨.of_nil rfl, fun _ => rfl⟩
  | refused hurl hscheme => exact ⟨.of_nil rfl, fun _ => rfl⟩
  | raised hurl hscheme hanswer => exact ⟨.of_nil rfl, fun _ => rfl⟩
  | failed hurl hscheme hanswer => exact ⟨.of_nil rfl, fun _ => rfl⟩
  | received x hurl hscheme hanswer =>
    constructor
    · exact Filed.of_write (t := [_]) rfl (safeName_targetName hsuffix)
        (.downloaded hitem hanswer (x := x) List.infix_rfl)
    · intro hr
      cases x <;> cases hr

/-- The base64 field is written to a file of the voice note. -/
theorem filed_decodeVoice {path : Option Path} {r : Except PyError (Option Path)}
    (h : Runs (decodeVoice payload voiceDir path) t r) :
    Filed settings payload t [.voice] ∧ (path ≠ none → attempts t = []) := by
  unfold decodeVoice at h
  split at h
  · cases h
    exact ⟨.of_nil rfl, fun _ => rfl⟩
  · refine ⟨?_, fun hpath => absurd rfl hpath⟩
    split at h
    · next b64 hfield =>
      rcases decodeBase64ToTemp_cases h with ⟨-, rfl, -⟩ | ⟨data, x, hdata, hrun⟩
      · exact .of_nil rfl
      · cases hrun
        have hfallback : fallbackBytes payload = some data := by
          rw [fallbackBytes, hfield]
          exact hdata
        exact Filed.of_write (t := []) rfl (safeName_safeFilename _) (.decoded hfallback)
    · cases h
      exact .of_nil rfl

/-- The voice note is written once: the base64 field is used only if nothing was downloaded. -/
theorem filed_voiceAudio {r : Except PyError (Option Path)}
    (h : Runs (voiceAudio netlocOk settings payload) t r) :
    Filed settings payload t [.voice] := by
  obtain ⟨t₁, t₂, r₁, rfl, hmkdir, hrest⟩ := h.start
  refine .behind (attempts_mkdir hmkdir) ?_
  rcases hrest with rfl | ⟨u, -, hrest⟩
  · exact .of_nil rfl
  · obtain ⟨t₃, t₄, r₂, rfl, hurl, hdecode⟩ := hrest.start
    have hdownload : Filed settings payload t₃ [.voice] ∧ (r₂ = .ok none → attempts t₃ = []) := by
      unfold downloadVoice at hurl
      split at hurl
      · next url hfield =>
        exact filed_downloadToTemp .voice hfield (List.all_eq_true.mp (by decide)) hurl
      · cases hurl
        exact ⟨.of_nil rfl, fun _ => rfl⟩
    rcases hdecode with rfl | ⟨path, rfl, hdecode⟩
    · rw [List.append_nil]
      exact hdownload.1
    · have hdecoded : Filed settings payload t₄ [.voice] ∧ (path ≠ none → attempts t₄ = []) :=
        filed_decodeVoice hdecode
      -- The base64 field is looked at only if the download gave no path.
      cases path with
      | none => exact .behind (hdownload.2 rfl) hdecoded.1
      | some path => exact hdownload.1.before (hdecoded.2 (Option.some_ne_none path))

/-- The file of the voice part. -/
theorem filed_voicePart {r : Except PyError Bool}
    (h : Runs (voicePart netlocOk settings payload chatId) t r) :
    Filed settings payload t [.voice] := by
  unfold voicePart at h
  split at h
  · obtain ⟨t₁, t₂, r₁, rfl, haudio, hsend⟩ := h.start
    refine (filed_voiceAudio haudio).before ?_
    rcases hsend with rfl | ⟨audio, -, hsend⟩
    · rfl
    · cases audio with
      | none =>
        cases hsend
        rfl
      | some path =>
        obtain ⟨x, rfl, -⟩ := runs_call_ofExcept.mp hsend
        rfl
  · cases h
    exact .of_nil rfl

/-- The loop over the attachments, from the attachment `index` on. -/
theorem filed_downloadAttachments {atts : List OutboundAttachment} :
    ∀ {index : Nat} {t : List calls.Event} {r : Except PyError (List Path × Bool)},
      payload.attachments.drop index = atts →
        Runs (downloadAttachments netlocOk settings index atts) t r →
          Filed settings payload t ((List.range' index atts.length).map .attachment) := by
  induction atts with
  | nil =>
    intro index t r hdrop h
    cases h
    exact .of_nil rfl
  | cons att atts ih =>
    intro index t r hdrop h
    have hatt : payload.attachments[index]? = some att := by
      rw [← List.head?_drop, hdrop]
      rfl
    have hrest : payload.attachments.drop (index + 1) = atts := by
      rw [← List.tail_drop, hdrop]
      rfl
    -- Every call of the round may be the last one of the run, if it raises.
    obtain ⟨t₁, t₂, r₁, rfl, hmkdir, hbody⟩ := h.start
    refine .behind (attempts_mkdir hmkdir) ?_
    rcases hbody with rfl | ⟨u, -, hbody⟩
    · exact .of_nil rfl
    · obtain ⟨t₃, t₄, r₂, rfl, hdownload, hlater⟩ := hbody.start
      have hitem : (Item.attachment index).url payload = some att.url := by
        rw [Item.url, hatt]
        rfl
      have hfile : Filed settings payload t₃ [.attachment index] :=
        (filed_downloadToTemp (.attachment index) hitem
          (fun c hc => absurd hc List.not_mem_nil) hdownload).1
      refine hfile.append ?_
      rcases hlater with rfl | ⟨path, -, hlater⟩
      · exact .of_nil rfl
      · obtain ⟨t₅, t₆, r₃, rfl, hloop, hret⟩ := hlater.start
        have hend : attempts t₆ = [] := by
          rcases hret with rfl | ⟨rest, -, hret⟩
          · rfl
          · cases path <;> cases hret <;> rfl
        exact (ih hrest hloop).before hend

/-- The files of the attachment part. -/
theorem filed_attachmentPart {r : Except PyError Bool}
    (h : Runs (attachmentPart netlocOk settings payload chatId) t r) :
    Filed settings payload t ((List.range payload.attachments.length).map .attachment) := by
  rw [List.range_eq_range']
  cases attachmentPart_cases h with
  | raised hloop => exact filed_downloadAttachments List.drop_zero hloop
  | empty hloop => exact filed_downloadAttachments List.drop_zero hloop
  | sent hne hloop x => exact (filed_downloadAttachments List.drop_zero hloop).before rfl

/-- What the attachment part hands on is what it has written. -/
theorem handed_attachmentPart {r : Except PyError Bool}
    (h : Runs (attachmentPart netlocOk settings payload chatId) t r) {chatId' : PyStr}
    {paths : List Path} {x : Except PyError Bool}
    (hev : (⟨.sendAttachments chatId' paths, x⟩ : calls.Event) ∈ t) : paths = writes t := by
  cases attachmentPart_cases h with
  | raised hloop => exact ((downloadAttachments_only _ 0).runs hloop _ hev).elim
  | empty hloop => exact ((downloadAttachments_only _ 0).runs hloop _ hev).elim
  | sent hne hloop x =>
    obtain rfl := writes_of_downloadAttachments hloop
    rcases List.mem_append.mp hev with hev | hev
    · exact ((downloadAttachments_only _ 0).runs hloop _ hev).elim
    · cases List.mem_singleton.mp hev
      rw [writes_append]
      exact (List.append_nil _).symm

/-! ### The files of the attachments -/

/-- The file of an attachment, if it was downloaded. -/
def attachmentFile (t : List calls.Event) (index : Nat) : Option Path :=
  (writes t).find? fun path => path.dropLast == attachmentDir index

/-- The files of the downloaded attachments, in the order of the payload. -/
def attachmentFiles (payload : CallbackPayload) (t : List calls.Event) : List Path :=
  (List.range payload.attachments.length).filterMap (attachmentFile t)

/-- The file of an attachment is in the first part, or in the second. -/
theorem attachmentFile_append {i : Nat} :
    attachmentFile (t₁ ++ t₂) i = (attachmentFile t₁ i).or (attachmentFile t₂ i) := by
  rw [attachmentFile, writes_append, List.find?_append]
  rfl

/-- The file of an attachment is written only where the attachment is one of the items. -/
theorem Filed.attachmentFile_eq_none (h : Filed settings payload t items) {i : Nat}
    (hi : .attachment i ∉ items) : attachmentFile t i = none := by
  refine List.find?_eq_none.mpr fun path hpath hdir => hi ?_
  have hmem := h.dirs.subset (List.mem_map_of_mem ((writes_sublist_attempts t).subset hpath))
  obtain ⟨item, hitem, heq⟩ := List.mem_map.mp hmem
  obtain rfl : item = .attachment i := Item.dir_injective (heq.trans (beq_iff_eq.mp hdir))
  exact hitem

/-- A list whose keys are some of `ks`, in the same order, is found again key by key. -/
theorem filterMap_find?_of_sublist {κ β : Type} [BEq κ] [LawfulBEq κ] {key : β → κ}
    {ks : List κ} :
    ∀ {l : List β}, (l.map key).Sublist ks → ks.Nodup →
      (ks.filterMap fun k => l.find? fun b => key b == k) = l := by
  induction ks with
  | nil =>
    intro l h _
    rw [List.map_eq_nil_iff.mp (List.sublist_nil.mp h)]
    rfl
  | cons k ks ih =>
    intro l h hnodup
    obtain ⟨hk, hks⟩ := List.nodup_cons.mp hnodup
    -- Either the first key is not used, or it is the key of the first element.
    rcases List.sublist_cons_iff.mp h with hlater | ⟨keys, hkeys, hlater⟩
    · have hnone : (l.find? fun b => key b == k) = none := by
        refine List.find?_eq_none.mpr fun b hb heq => hk (hlater.subset ?_)
        exact beq_iff_eq.mp heq ▸ List.mem_map_of_mem hb
      rw [List.filterMap_cons_none (f := fun k => l.find? fun b => key b == k) hnone]
      exact ih hlater hks
    · obtain ⟨b, l, rfl, rfl, rfl⟩ := List.map_eq_cons_iff.mp hkeys
      have hlast : (ks.filterMap fun k => (b :: l).find? fun b => key b == k)
          = ks.filterMap fun k => l.find? fun b => key b == k := by
        refine List.filterMap_congr fun k hmem => List.find?_cons_of_neg ?_
        rintro heq
        exact hk (beq_iff_eq.mp heq ▸ hmem)
      rw [List.filterMap_cons_some (f := fun k => (b :: l).find? fun b => key b == k)
        (List.find?_cons_of_pos (beq_self_eq_true (key b))), hlast, ih hlater hks]

/-- The attachment part writes the files of its attachments and no others. -/
theorem Filed.attachmentFiles_eq
    (h : Filed settings payload t ((List.range payload.attachments.length).map .attachment)) :
    attachmentFiles payload t = writes t := by
  have hkeys : ((writes t).map List.dropLast).Sublist
      ((List.range payload.attachments.length).map attachmentDir) := by
    have hdirs := ((writes_sublist_attempts t).map List.dropLast).trans h.dirs
    rw [List.map_map] at hdirs
    exact hdirs
  have hfound := filterMap_find?_of_sublist hkeys (List.nodup_range.map attachmentDir_injective)
  rw [List.filterMap_map] at hfound
  exact hfound

/-! ### The run of a delivery -/

/-- The calls that write a file or hand files on. -/
def Filing : Op → Prop
  | .writeBytes _ _ | .sendAttachments _ _ => True
  | .openWorkspace | .closeWorkspace | .closeClient | .mkdir _ | .stream _ _ | .send _ _
  | .sendVoiceNote _ _ | .sendReaction _ _ _ _ => False

/-- The calls of a delivery that may have ended early. Only the two media parts write files or
hand them on. -/
structure Stages (netlocOk : PyStr → Bool) (settings : Settings) (payload : CallbackPayload)
    (t : List calls.Event) where
  front : List calls.Event
  voice : List calls.Event
  text : List calls.Event
  attachments : List calls.Event
  back : List calls.Event
  eq : t = front ++ (voice ++ (text ++ (attachments ++ back)))
  quiet : ∀ ev ∈ front ++ (text ++ back), ¬ Filing ev.1
  runs_voice : voice = [] ∨
    ∃ r, Runs (voicePart netlocOk settings payload (recipient payload)) voice r
  runs_attachments : attachments = [] ∨
    ∃ r, Runs (attachmentPart netlocOk settings payload (recipient payload)) attachments r

/-- A program that files nothing has a quiet trace. -/
theorem quiet_of_only {α : Type} {p : Action α} {r : Except PyError α}
    (hr : Runs p t r) (h : p.Only fun op => ¬ Filing op) : ∀ ev ∈ t, ¬ Filing ev.1 :=
  Only.runs (P := fun op => ¬ Filing op) h hr

/-- A quiet trace writes nothing. -/
theorem attempts_of_quiet (h : ∀ ev ∈ t, ¬ Filing ev.1) : attempts t = [] := by
  refine List.filterMap_eq_nil_iff.mpr ?_
  rintro ⟨op, x⟩ hev
  cases op with
  | writeBytes path data => exact absurd trivial (h _ hev)
  | _ => rfl

/-- A reaction files nothing. -/
theorem react_only {emoji : PyStr} : (react payload emoji).Only fun op => ¬ Filing op := by
  unfold react
  split
  · exact trivial
  · exact only_tryCatch (only_bind ⟨id, fun _ => only_ofExcept _⟩ fun _ => trivial) fun _ => trivial

/-- The text part files nothing. -/
theorem not_filing_of_textOp {op : Op} (h : TextOp chatId op) : ¬ Filing op := by
  cases op with
  | send chatId' message => exact id
  | _ => exact h.elim

namespace Stages

/-- A delivery that has not reached the media. -/
theorem of_quiet (h : ∀ ev ∈ t, ¬ Filing ev.1) :
    Nonempty (Stages netlocOk settings payload t) := by
  refine ⟨⟨t, [], [], [], [], (List.append_nil t).symm, ?_, .inl rfl, .inl rfl⟩⟩
  rw [List.append_nil, List.append_nil]
  exact h

/-- Other calls around the stages of a delivery. -/
theorem frame (h : Nonempty (Stages netlocOk settings payload t))
    (h₁ : ∀ ev ∈ t₁, ¬ Filing ev.1) (h₂ : ∀ ev ∈ t₂, ¬ Filing ev.1) :
    Nonempty (Stages netlocOk settings payload (t₁ ++ (t ++ t₂))) := by
  obtain ⟨s⟩ := h
  refine ⟨⟨t₁ ++ s.front, s.voice, s.text, s.attachments, s.back ++ t₂, ?_, ?_, s.runs_voice,
    s.runs_attachments⟩⟩
  · conv_lhs => rw [s.eq]
    simp only [List.append_assoc]
  · intro ev hev
    have hquiet := s.quiet ev
    simp only [List.mem_append] at hev hquiet
    rcases hev with (hev | hev) | hev | hev | hev
    · exact h₁ ev hev
    · exact hquiet (.inl hev)
    · exact hquiet (.inr (.inl hev))
    · exact hquiet (.inr (.inr hev))
    · exact h₂ ev hev

/-- The stages of a delivery. -/
theorem of_deliverMedia {r : Except PyError Reply}
    (h : Runs (deliverMedia netlocOk settings payload (recipient payload)) t r) :
    Nonempty (Stages netlocOk settings payload t) := by
  obtain ⟨voice, t₁, r₁, rfl, hvoice, hrest⟩ := h.start
  have hnil : ∀ ev ∈ ([] : List calls.Event), ¬ Filing ev.1 := fun ev hev =>
    absurd hev List.not_mem_nil
  -- A stage is reached only if those in front of it return.
  rcases hrest with rfl | ⟨voiceOk, -, hrest⟩
  · exact ⟨⟨[], voice, [], [], [], rfl, hnil, .inr ⟨_, hvoice⟩, .inl rfl⟩⟩
  · obtain ⟨text, t₂, r₂, rfl, htext, hatts⟩ := hrest.start
    have hquiet : ∀ ev ∈ [] ++ (text ++ []), ¬ Filing ev.1 := by
      intro ev hev
      rw [List.nil_append, List.append_nil] at hev
      exact not_filing_of_textOp (textPart_only.runs htext ev hev)
    rcases hatts with rfl | ⟨⟨sent, expected⟩, -, hatts⟩
    · exact ⟨⟨[], voice, text, [], [], rfl, hquiet, .inr ⟨_, hvoice⟩, .inl rfl⟩⟩
    · obtain ⟨attachments, t₃, r₃, rfl, hpart, hret⟩ := hatts.start
      have hend : t₃ = [] := by
        rcases hret with rfl | ⟨_, -, hret⟩
        · rfl
        · exact (runs_pure.mp hret).1
      subst hend
      exact ⟨⟨[], voice, text, attachments, [], rfl, hquiet, .inr ⟨_, hvoice⟩, .inr ⟨_, hpart⟩⟩⟩

/-- Every run of a delivery, also one that raises, has these stages. -/
theorem of_dispatchComplete {r : Except PyError Bool}
    (h : Runs (dispatchComplete netlocOk settings ownsClient payload) t r) :
    Nonempty (Stages netlocOk settings payload t) := by
  unfold dispatchComplete at h
  split at h
  · obtain ⟨t₁, t₂, r₁, rfl, hmedia, hreact⟩ := h.start
    have hend : ∀ ev ∈ t₂, ¬ Filing ev.1 := by
      rcases hreact with rfl | ⟨reply, -, hreact⟩
      · exact fun ev hev => absurd hev List.not_mem_nil
      · exact quiet_of_only hreact (only_bind react_only fun _ => trivial)
    obtain ⟨t₃, t₄, r₂, r₃, rfl, hworkspace, hclose, -⟩ := runs_tryFinally.mp hmedia
    have hclosed : ∀ ev ∈ t₄, ¬ Filing ev.1 := by
      refine quiet_of_only hclose ?_
      unfold closeClient
      split
      · exact ⟨id, fun _ => only_ofExcept _⟩
      · exact trivial
    obtain ⟨t₅, t₆, r₄, rfl, hopen, hbody⟩ := hworkspace.start
    have hopened : ∀ ev ∈ t₅, ¬ Filing ev.1 :=
      quiet_of_only hopen ⟨id, fun _ => only_ofExcept _⟩
    have hbehind : ∀ ev ∈ t₄ ++ t₂, ¬ Filing ev.1 := fun ev hev =>
      (List.mem_append.mp hev).elim (hclosed ev) (hend ev)
    -- If the workspace cannot be made, the media are not reached.
    rcases hbody with rfl | ⟨u, -, hbody⟩
    · rw [List.append_nil, List.append_assoc]
      exact of_quiet fun ev hev => (List.mem_append.mp hev).elim (hopened ev) (hbehind ev)
    · obtain ⟨t₇, t₈, r₅, r₆, rfl, hinner, hremove, -⟩ := runs_tryFinally.mp hbody
      have hremoved : ∀ ev ∈ t₈, ¬ Filing ev.1 :=
        quiet_of_only hremove ⟨id, fun _ => trivial⟩
      simp only [List.append_assoc]
      exact frame (of_deliverMedia hinner) hopened fun ev hev =>
        (List.mem_append.mp hev).elim (hremoved ev) (hbehind ev)
  · -- A reply without media is its text and the reaction.
    refine of_quiet (quiet_of_only h (only_bind ?_ fun sent => ?_))
    · exact (sendTextChunks_only _).mono fun _ => not_filing_of_textOp
    · refine only_bind react_only fun _ => ?_
      dsimp only
      split <;> exact trivial

/-- The other stages file nothing. -/
theorem filed_quiet (s : Stages netlocOk settings payload t) (part : List calls.Event)
    (hpart : part ⊆ s.front ++ (s.text ++ s.back)) : Filed settings payload part [] :=
  .of_nil (attempts_of_quiet fun ev hev => s.quiet ev (hpart hev))

/-- The stage of the voice note files the voice note. -/
theorem filed_voice (s : Stages netlocOk settings payload t) :
    Filed settings payload s.voice [.voice] := by
  rcases s.runs_voice with hnil | ⟨r, hrun⟩
  · rw [hnil]
    exact .of_nil rfl
  · exact filed_voicePart hrun

/-- The stage of the attachments files the attachments. -/
theorem filed_attachments (s : Stages netlocOk settings payload t) :
    Filed settings payload s.attachments
      ((List.range payload.attachments.length).map .attachment) := by
  rcases s.runs_attachments with hnil | ⟨r, hrun⟩
  · rw [hnil]
    exact .of_nil rfl
  · exact filed_attachmentPart hrun

/-- The writes of a delivery belong to its items. -/
theorem filed (s : Stages netlocOk settings payload t) :
    Filed settings payload t (mediaItems payload) := by
  have hfront := s.filed_quiet s.front (by simp)
  have htext := s.filed_quiet s.text (by simp)
  have hback := s.filed_quiet s.back (by simp)
  have hall : Filed settings payload
      (s.front ++ (s.voice ++ (s.text ++ (s.attachments ++ s.back)))) _ :=
    hfront.append (s.filed_voice.append (htext.append (s.filed_attachments.append hback)))
  rw [← s.eq, List.append_nil] at hall
  exact hall

/-- The files of the attachments were written by the attachment part. -/
theorem attachmentFile_eq (s : Stages netlocOk settings payload t) (i : Nat) :
    attachmentFile t i = attachmentFile s.attachments i := by
  have hfront := (s.filed_quiet s.front (by simp)).attachmentFile_eq_none (i := i)
    List.not_mem_nil
  have htext := (s.filed_quiet s.text (by simp)).attachmentFile_eq_none (i := i)
    List.not_mem_nil
  have hback := (s.filed_quiet s.back (by simp)).attachmentFile_eq_none (i := i)
    List.not_mem_nil
  have hvoice := s.filed_voice.attachmentFile_eq_none (i := i) (by simp)
  conv_lhs => rw [s.eq]
  simp only [attachmentFile_append, hfront, hvoice, htext, hback, Option.none_or, Option.or_none]

/-- What is handed on are the files of the downloaded attachments. -/
theorem handed (s : Stages netlocOk settings payload t) {paths : List Path}
    {x : Except PyError Bool}
    (hev : (⟨.sendAttachments chatId paths, x⟩ : calls.Event) ∈ t) :
    paths = attachmentFiles payload t := by
  have hquiet := s.quiet ⟨.sendAttachments chatId paths, x⟩
  -- The quiet stages hand nothing on.
  have hwhere : (⟨.sendAttachments chatId paths, x⟩ : calls.Event) ∈ s.voice ∨
      (⟨.sendAttachments chatId paths, x⟩ : calls.Event) ∈ s.attachments := by
    rw [s.eq] at hev
    simp only [List.mem_append] at hev hquiet
    rcases hev with hev | hev | hev | hev | hev
    · exact absurd trivial (hquiet (.inl hev))
    · exact .inl hev
    · exact absurd trivial (hquiet (.inr (.inl hev)))
    · exact .inr hev
    · exact absurd trivial (hquiet (.inr (.inr hev)))
  rcases hwhere with hev | hev
  · exfalso
    rcases s.runs_voice with hnil | ⟨r, hrun⟩
    · rw [hnil] at hev
      exact List.not_mem_nil hev
    · have hop := voicePart_only.runs hrun _ hev
      simp [VoiceOp, AudioOp] at hop
  · rcases s.runs_attachments with hnil | ⟨r, hrun⟩
    · rw [hnil] at hev
      exact absurd hev List.not_mem_nil
    · rw [handed_attachmentPart hrun hev, ← s.filed_attachments.attachmentFiles_eq]
      exact List.filterMap_congr fun i _ => (s.attachmentFile_eq i).symm

end Stages

/-- Where the media of a reply are, and what is handed on. -/
structure Contained (settings : Settings) (payload : CallbackPayload) (t : List calls.Event)
    (r : Except PyError Bool) : Prop where
  /-- Each file is a child of the directory of its own item. -/
  inside : ∀ path data x, (⟨.writeBytes path data, x⟩ : calls.Event) ∈ t →
    ∃ item ∈ mediaItems payload, FileOf settings payload t item path data
  /-- No two writes have the same path. -/
  distinct : (attempts t).Nodup
  /-- What is handed on are the files of the downloaded attachments, in payload order. -/
  handed : ∀ chatId paths x, (⟨.sendAttachments chatId paths, x⟩ : calls.Event) ∈ t →
    paths = attachmentFiles payload t
  /-- A delivery that returns has handed them on, if there are any. -/
  complete : (∃ b, r = .ok b) → attachmentFiles payload t ≠ [] → ∃ x,
    (⟨.sendAttachments (recipient payload) (attachmentFiles payload t), x⟩ : calls.Event) ∈ t

/-- The media of a `complete` reply stay in the directories of their items, whatever the URLs
and the file names are. -/
theorem dispatchCallback_contained (htype : payload.type = .complete)
    {r : Except PyError Bool}
    (h : Runs (dispatchCallback netlocOk settings ownsClient payload) t r) :
    Contained settings payload t r := by
  rw [dispatchCallback, htype] at h
  obtain ⟨s⟩ := Stages.of_dispatchComplete h
  refine ⟨s.filed.files, s.filed.nodup (nodup_mediaItems payload), fun _ _ _ => s.handed, ?_⟩
  rintro ⟨b, rfl⟩ hfiles
  obtain ⟨reply, ⟨p⟩, -⟩ := runs_dispatchComplete h
  obtain ⟨path, hpath⟩ := List.exists_mem_of_ne_nil _ hfiles
  obtain ⟨i, -, hfile⟩ := List.mem_filterMap.mp hpath
  have hwritten : path ∈ writes t := List.mem_of_find?_eq_some hfile
  have hdir : path.dropLast = attachmentDir i := beq_iff_eq.mp
    (List.find?_some (p := fun path : Path => path.dropLast == attachmentDir i) hfile)
  obtain ⟨data, hwrite⟩ := mem_writes.mp hwritten
  obtain ⟨item, -, ⟨name, -, rfl, -⟩, -⟩ := s.filed.files _ _ _ hwrite
  rw [List.dropLast_concat] at hdir
  rw [hdir] at hwritten
  -- The part that has written the file has handed it on, and it handed on nothing else.
  obtain ⟨paths, sent, hev, -⟩ :=
    (runs_attachmentPart p.runs_attachments).2.2 _ (p.attachment_mem_writes.mp hwritten)
  have hevent := p.attachments_subset hev
  exact ⟨.ok sent, s.handed hevent ▸ hevent⟩

/-- Two files of one name, from URLs and file names that point elsewhere, and a voice note. -/
def clashingReply : CallbackPayload := { fileReply with
  voiceAudioUrl := some (lit "https://engine.example/../..")
  attachments := [⟨lit "https://engine.example/a", some (lit "../../notes.pdf"), none, none⟩,
    ⟨lit "https://engine.example/b", some (lit "/etc/notes.pdf"), none, none⟩] }

/-- The delivery of the clashing files. -/
def clashingRun : List calls.Event × Except PyError Bool :=
  (dispatchCallback (fun _ => true) defaultSettings true clashingReply).run
    (fun _ => calmAnswer) []

/-- Names that would clash, or leave the workspace, do neither. -/
theorem dispatchCallback_contained_clashing :
    Contained defaultSettings clashingReply clashingRun.1 clashingRun.2 ∧
      attempts clashingRun.1 = [[lit "voice", lit "media.m4a"], [lit "att-0", lit "notes.pdf"],
        [lit "att-1", lit "notes.pdf"]] :=
  ⟨dispatchCallback_contained rfl (Prog.runs_run _ _ []), rfl⟩

end SignalGateway.Proofs.Delivery
