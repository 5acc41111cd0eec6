import SignalGateway.Proofs.BackgroundTasks
import SignalGateway.Proofs.Workspaces

/-!
# `SignalGateway.Proofs.Volume`: the files of deliveries that run side by side

The workspaces are directories of one volume, and the daemon reads the files of an RPC from there.
`Leaves` says what a call can do to the volume, and `Reaches` what all calls of a run can have left.
Nothing else writes into the workspaces, and of `mkdtemp` it is assumed that directories that are
there at the same time are apart (`Apart`).

`Placed` is the invariant: the files of each workspace are on the volume (`placed_run`). From it,
the files that an RPC attaches are there when the RPC is made, with the bytes that were obtained
for them (`attachments_in_place`). `workspaces_closed` says that no delivery leaves its directory
open.

The paths of different files differ for two reasons. Inside of a workspace, each item has its own
directory and a name without a slash (`path_inj`). Between workspaces, no directory is under
another one (`Apart`, `under_of_under`).
-/

set_option autoImplicit false

namespace SignalGateway.Proofs.BackgroundTasks

open SignalGateway.Dispatch SignalGateway.CallbackServer SignalGateway.BackgroundTasks
open SignalGateway.Delivery (Path)
open SignalGateway.Outbound (pathText)
open SignalGateway.Proofs.Delivery (Item Workspace Child Source Allowed SafeName mediaItems
  not_slash_of_safe)
open SignalGateway.Proofs.Outbound (stepCall AllowedCall attachmentsOf uses_deliver)

/-! ### The volume -/

/-- The files, by the texts of their paths. -/
abbrev Volume := PyStr → Option Bytes

/-- The path leads into the directory. -/
def Under (dir text : PyStr) : Prop := dir ++ lit "/" <+: text

/-- A write. One that fails can leave anything at its path. -/
def Written (text : PyStr) (data : Bytes) (answer : Except PyError Unit)
    (volume volume' : Volume) : Prop :=
  (answer.toBool = true → volume' text = some data) ∧
    ∀ other, other ≠ text → volume' other = volume other

/-- What a call of a delivery with this workspace can do to the volume. The directory is removed
as far as that is possible. -/
def Leaves (dir : PyStr) (volume volume' : Volume) : Outbound.calls.Event → Prop
  | ⟨.own (.writeBytes path data), answer⟩ =>
      Written (pathText dir path) data answer volume volume'
  | ⟨.own .closeWorkspace, _⟩ => ∀ text, ¬ Under dir text → volume' text = volume text
  | _ => volume' = volume

/-- What the calls of all tasks can have left on the volume. -/
inductive Reaches (workspace : Nat → PyStr) : List (Nat × Outbound.calls.Event) → Volume → Prop
  | start (volume : Volume) : Reaches workspace [] volume
  | call {made : List (Nat × Outbound.calls.Event)} {volume volume' : Volume} {id : Nat}
      {ev : Outbound.calls.Event} (h : Reaches workspace made volume)
      (hev : Leaves (workspace id) volume volume' ev) :
      Reaches workspace (made ++ [(id, ev)]) volume'

/-- The workspace of a task, behind its calls. -/
def workspaceOf (id : Nat) (made : List (Nat × Outbound.calls.Event)) : Workspace :=
  (Pool.ownCalls id made).foldl stepCall {}

/-- Of two directories that are open at the same time, neither is in the other. -/
def Apart (workspace : Nat → PyStr) (made : List (Nat × Outbound.calls.Event)) : Prop :=
  ∀ earlier, earlier <+: made → ∀ id id', id ≠ id' → (workspaceOf id earlier).isOpen = true →
    (workspaceOf id' earlier).isOpen = true → ¬ Under (workspace id) (workspace id' ++ lit "/")

/-- Each call is one that its delivery can make with its workspace. -/
def Orderly (workspace : Nat → PyStr) (made : List (Nat × Outbound.calls.Event)) : Prop :=
  ∀ earlier id ev later, made = earlier ++ (id, ev) :: later →
    ∃ payload, AllowedCall (workspace id) payload (workspaceOf id earlier) ev.1

variable {workspace : Nat → PyStr} {made : List (Nat × Outbound.calls.Event)}
  {volume volume' : Volume} {dir text : PyStr} {id : Nat} {ev : Outbound.calls.Event}
  {payload : CallbackPayload} {w : Workspace}

/-- A call of a task changes its own workspace. -/
theorem workspaceOf_concat_self :
    workspaceOf id (made ++ [(id, ev)]) = stepCall (workspaceOf id made) ev := by
  rw [workspaceOf, Pool.ownCalls_append, Pool.ownCalls_singleton, if_pos rfl, List.foldl_append]
  rfl

/-- It changes no other workspace. -/
theorem workspaceOf_concat_of_ne {id' : Nat} (hne : id ≠ id') :
    workspaceOf id' (made ++ [(id, ev)]) = workspaceOf id' made := by
  rw [workspaceOf, Pool.ownCalls_append, Pool.ownCalls_singleton, if_neg hne, List.append_nil]
  rfl

/-- The calls up to a moment are orderly, too. -/
theorem Orderly.front {more : List (Nat × Outbound.calls.Event)}
    (h : Orderly workspace (made ++ more)) : Orderly workspace made := by
  rintro earlier id ev later rfl
  exact h earlier id ev (later ++ more) (by simp)

/-- The workspaces up to a moment are apart, too. -/
theorem Apart.front {more : List (Nat × Outbound.calls.Event)}
    (h : Apart workspace (made ++ more)) : Apart workspace made :=
  fun earlier hearlier => h earlier (hearlier.trans (List.prefix_append made more))

/-! ### Paths -/

/-- A path in the workspace lies under its directory. -/
theorem under_pathText (dir : PyStr) (path : Path) (name : PyStr) :
    Under dir (pathText dir (path ++ [name])) := by
  cases path with
  | nil => exact ⟨name, by simp [pathText]⟩
  | cons part path => exact ⟨part ++ (path ++ [name]).flatMap fun part => lit "/" ++ part,
      by simp [pathText]⟩

/-- So does the file of an item. -/
theorem under_of_child {item : Item} {path : Path} (h : Child item path) :
    Under dir (pathText dir path) := by
  obtain ⟨name, -, rfl⟩ := h
  exact under_pathText dir item.dir name

/-- Two directories that share a path are not apart. -/
theorem under_of_under {dir' : PyStr} (h : Under dir text) (h' : Under dir' text) :
    Under dir (dir' ++ lit "/") ∨ Under dir' (dir ++ lit "/") :=
  List.prefix_or_prefix_of_prefix h h'

/-- No part of a safe name ends in a slash. -/
theorem eq_nil_of_slash {name front back : PyStr} (hname : SafeName name)
    (h : lit "/" ++ name = front ++ (lit "/" ++ back)) : front = [] := by
  rw [show (lit "/" : PyStr) = [PyChar.ofChar '/'] from rfl] at h
  cases front with
  | nil => rfl
  | cons c front =>
    have hsplit : name = front ++ PyChar.ofChar '/' :: back := (List.cons.inj h).2
    have hmem : PyChar.ofChar '/' ∈ name := by
      rw [hsplit]
      exact List.mem_append_right _ List.mem_cons_self
    exact absurd (not_slash_of_safe (hname.safe _ hmem)) (by decide)

/-- What is behind the last slash is found again. -/
theorem append_slash_inj {part part' name name' : PyStr} (hname : SafeName name)
    (hname' : SafeName name') (h : part ++ (lit "/" ++ name) = part' ++ (lit "/" ++ name')) :
    part = part' ∧ name = name' := by
  rcases List.append_eq_append_iff.mp h with ⟨more, rfl, hmore⟩ | ⟨more, rfl, hmore⟩
  · obtain rfl := eq_nil_of_slash hname hmore
    exact ⟨(List.append_nil _).symm, List.append_cancel_left hmore⟩
  · obtain rfl := eq_nil_of_slash hname' hmore
    exact ⟨List.append_nil _, (List.append_cancel_left hmore).symm⟩

/-- The directory of an item is a child of the workspace. -/
theorem itemDir_eq (item : Item) : ∃ part, item.dir = [part] := by
  cases item <;> exact ⟨_, rfl⟩

/-- The file of an item is found under its path only. -/
theorem path_inj {item item' : Item} {path path' : Path} (h : Child item path)
    (h' : Child item' path') (heq : pathText dir path = pathText dir path') : path = path' := by
  obtain ⟨name, hname, rfl⟩ := h
  obtain ⟨name', hname', rfl⟩ := h'
  obtain ⟨part, hpart⟩ := itemDir_eq item
  obtain ⟨part', hpart'⟩ := itemDir_eq item'
  rw [hpart, hpart'] at heq ⊢
  have htexts : part ++ (lit "/" ++ name) = part' ++ (lit "/" ++ name') := by
    simpa [pathText] using heq
  obtain ⟨rfl, rfl⟩ := append_slash_inj hname hname' htexts
  rfl

/-! ### One call -/

/-- The files of a workspace are on the volume, in the directories of its items. -/
def Placed (dir : PyStr) (volume : Volume) (w : Workspace) : Prop :=
  ∀ path data, w.files path = some data →
    w.isOpen = true ∧ (∃ item, Child item path) ∧ volume (pathText dir path) = some data

/-- A call changes the volume only in the directory of its delivery, while this is open. -/
theorem Leaves.elsewhere (h : Leaves dir volume volume' ev)
    (hallowed : AllowedCall dir payload w ev.1) :
    volume' = volume ∨
      w.isOpen = true ∧ ∀ text, ¬ Under dir text → volume' text = volume text := by
  obtain ⟨op, answer⟩ := ev
  cases op with
  | client op => exact .inl h
  | own op =>
    cases op with
    | writeBytes path data =>
      obtain ⟨hopen, item, -, hchild⟩ := hallowed
      refine .inr ⟨hopen, fun text hnot => h.2 text ?_⟩
      rintro rfl
      exact hnot (under_of_child hchild)
    | closeWorkspace => exact .inr ⟨hallowed, h⟩
    | _ => exact .inl h

/-- What happens elsewhere does not matter. -/
theorem Placed.frame (h : Placed dir volume w)
    (hsame : w.isOpen = true → ∀ text, Under dir text → volume' text = volume text) :
    Placed dir volume' w := by
  intro path data hfile
  obtain ⟨hopen, ⟨item, hchild⟩, hvolume⟩ := h path data hfile
  exact ⟨hopen, ⟨item, hchild⟩, (hsame hopen _ (under_of_child hchild)).trans hvolume⟩

/-- A call of the delivery itself. -/
theorem Placed.step (h : Placed dir volume w) (hallowed : AllowedCall dir payload w ev.1)
    (hleaves : Leaves dir volume volume' ev) : Placed dir volume' (stepCall w ev) := by
  obtain ⟨op, answer⟩ := ev
  cases op with
  | client op =>
    obtain rfl : volume' = volume := hleaves
    exact h
  | own op =>
    cases op with
    | openWorkspace =>
      obtain rfl : volume' = volume := hleaves
      cases answer with
      | ok u => exact fun path data hfile => by cases hfile
      | error e => exact h
    | closeWorkspace => exact fun path data hfile => by cases hfile
    | writeBytes path data =>
      obtain ⟨hopen, item, -, hchild⟩ := hallowed
      intro path' data' hfile
      change Function.update w.files path
        (if Except.toBool answer = true then some data else none) path' = some data' at hfile
      by_cases heq : path' = path
      · subst heq
        rw [Function.update_self] at hfile
        refine ⟨hopen, ⟨item, hchild⟩, ?_⟩
        split at hfile
        · next hok => exact (hleaves.1 hok).trans hfile
        · cases hfile
      · -- the other files of the workspace have other texts
        rw [Function.update_of_ne heq] at hfile
        obtain ⟨-, ⟨item', hchild'⟩, hvolume⟩ := h path' data' hfile
        refine ⟨hopen, ⟨item', hchild'⟩, (hleaves.2 _ fun htext => heq ?_).trans hvolume⟩
        exact path_inj hchild' hchild htext
    | _ =>
      obtain rfl : volume' = volume := hleaves
      exact h

/-! ### Whole runs -/

/-- The files of every workspace are on the volume, however the deliveries interleave. -/
theorem placed_run (h : Reaches workspace made volume) (horderly : Orderly workspace made)
    (hapart : Apart workspace made) : ∀ id, Placed (workspace id) volume (workspaceOf id made) := by
  induction h with
  | start volume => exact fun id path data hfile => by cases hfile
  | @call made volume volume' id ev h hleaves ih =>
    intro id'
    obtain ⟨payload, hallowed⟩ := horderly made id ev [] rfl
    have hplaced := ih horderly.front hapart.front
    by_cases hne : id = id'
    · subst hne
      rw [workspaceOf_concat_self]
      exact (hplaced id).step hallowed hleaves
    · rw [workspaceOf_concat_of_ne hne]
      refine (hplaced id').frame fun hopen' text hunder' => ?_
      rcases hleaves.elsewhere hallowed with rfl | ⟨hopen, helsewhere⟩
      · rfl
      · refine helsewhere text fun hunder => ?_
        have hfront := List.prefix_append made [(id, ev)]
        rcases under_of_under hunder hunder' with h' | h'
        · exact hapart made hfront id id' hne hopen hopen' h'
        · exact hapart made hfront id' id (Ne.symm hne) hopen' hopen h'

section
variable {repr : Json → Except PyError PyStr}
  {listGt : List Json → List Json → Except PyError Bool} {isWord : Nat → Bool}
  {netlocOk : PyStr → Bool} {settings : Settings} {cfg : Config} {ttl sweepInterval t₀ : ℚ}
  {events : List BackgroundTasks.Event} {s : System}

/-- Each call of a task is allowed when it is made. -/
theorem Inv.allowed
    (h : Inv (delivery repr listGt isWord netlocOk settings workspace) cfg ttl sweepInterval t₀ s)
    {earlier later : List (Nat × Outbound.calls.Event)}
    (hmade : s.pool.made = earlier ++ (id, ev) :: later) :
    ∃ job, Scheduled s.records id job ∧
      AllowedCall (workspace id) job.payload (workspaceOf id earlier) ev.1 := by
  have hmem : (id, ev) ∈ s.pool.made := by
    rw [hmade]
    exact List.mem_append_right _ List.mem_cons_self
  obtain ⟨job, hknown⟩ := h.valid.known _ hmem
  obtain ⟨rest, hafter⟩ := h.after hknown
  have hcalls : Pool.ownCalls id s.pool.made
      = Pool.ownCalls id earlier ++ ev :: Pool.ownCalls id later := by
    rw [hmade, List.append_cons, List.append_assoc, Pool.ownCalls_append, Pool.ownCalls_append,
      Pool.ownCalls_singleton, if_pos rfl]
    rfl
  rw [hcalls] at hafter
  exact ⟨job, (h.known_iff _ _).mp hknown, (uses_deliver rfl).allowed_of_split hafter⟩

/-- However the deliveries end, no workspace stays open. Each download, directory and file of a
delivery is made while its own workspace is open, each file under a safe name in the directory of
one of its items. -/
theorem workspaces_closed
    (hrun : System.run repr listGt isWord netlocOk settings workspace cfg
      (.create ttl sweepInterval t₀) events = some s) :
    (∀ id job r, (id, job, r) ∈ s.pool.ended → (workspaceOf id s.pool.made).isOpen = false) ∧
      ∀ earlier id op answer later, s.pool.made = earlier ++ (id, ⟨.own op, answer⟩) :: later →
        ∃ job, Scheduled s.records id job ∧ Allowed job.payload (workspaceOf id earlier) op := by
  have hinv := inv_run hrun
  refine ⟨fun id job r hr => ?_, fun earlier id op answer later hmade => hinv.allowed hmade⟩
  -- A task that has ended is a whole run of the delivery.
  exact (uses_deliver rfl).runs (hinv.valid.complete id job r hr).1

/-- The attachments of the RPC that a task is about to make. -/
def nextAttachments : Prog Outbound.calls PyError Bool → List Json
  | .call (.client (.rpc (.post _ params _))) _ => attachmentsOf params
  | _ => []

/-- The attachments of the next call. -/
theorem call_of_nextAttachments {p : Prog Outbound.calls PyError Bool} {x : Json}
    (hx : x ∈ nextAttachments p) : ∃ method params timeout next,
      p = .call (.client (.rpc (.post method params timeout))) next ∧
      x ∈ attachmentsOf params := by
  unfold nextAttachments at hx
  split at hx
  · exact ⟨_, _, _, _, rfl, hx⟩
  · exact absurd hx List.not_mem_nil

/-- However the deliveries interleave, each file that an RPC attaches is the file of an item of its
own callback, under a safe name in the directory of this item. When the RPC is made, the file is on
the volume, with the bytes that the delivery has downloaded or decoded for the item. -/
theorem attachments_in_place
    (hrun : System.run repr listGt isWord netlocOk settings workspace cfg
      (.create ttl sweepInterval t₀) events = some s)
    (hapart : Apart workspace s.pool.made) (hvolume : Reaches workspace s.pool.made volume)
    {task : Pool.Task Outbound.calls PyError Bool Job} (htask : s.pool.tasks id = some task)
    {x : Json} (hx : x ∈ nextAttachments task.rest) :
    ∃ item ∈ mediaItems task.subject.payload, ∃ path data,
      x = .str (pathText (workspace id) path) ∧ Child item path ∧
      Source task.subject.payload (workspaceOf id s.pool.made) item data ∧
      volume (pathText (workspace id) path) = some data := by
  have hinv := inv_run hrun
  have horderly : Orderly workspace s.pool.made := fun earlier id ev later hmade =>
    (hinv.allowed hmade).imp' Job.payload fun _ h => h.2
  obtain ⟨subject, rest⟩ := task
  have hafter : (Outbound.deliver repr listGt isWord netlocOk settings (workspace id)
    subject.payload).After (Pool.ownCalls id s.pool.made) rest :=
      hinv.valid.running id subject rest htask
  -- The next call of the task is a POST with this attachment.
  obtain ⟨method, params, timeout, next, rfl, hmem⟩ := call_of_nextAttachments hx
  have hallowed : AllowedCall (workspace id) subject.payload (workspaceOf id s.pool.made)
    (.client (.rpc (.post method params timeout))) := (uses_deliver rfl).allowed hafter
  obtain ⟨text, ⟨path, ⟨item, hitem, data, hkept⟩, rfl⟩, rfl⟩ := hallowed x hmem
  -- No other task writes into this workspace, so the file is still there.
  have hplaced := placed_run hvolume horderly hapart id path data hkept.file
  exact ⟨item, hitem, path, data, rfl, hkept.child, hkept.source, hplaced.2.2⟩

end

/-! ### An example -/

/-- Nothing in the volume has to change where nothing is written. -/
theorem exists_leaves (dir : PyStr) (volume : Volume) (ev : Outbound.calls.Event) :
    ∃ volume', Leaves dir volume volume' ev := by
  obtain ⟨op, answer⟩ := ev
  cases op with
  | client op => exact ⟨volume, rfl⟩
  | own op =>
    cases op with
    | writeBytes path data =>
      exact ⟨Function.update volume (pathText dir path) (some data),
        fun _ => Function.update_self _ _ _, fun _ hne => Function.update_of_ne hne _ _⟩
    | closeWorkspace => exact ⟨volume, fun _ _ => rfl⟩
    | _ => exact ⟨volume, rfl⟩

/-- Every trace of calls leaves a volume. -/
theorem exists_reaches (workspace : Nat → PyStr) (made : List (Nat × Outbound.calls.Event)) :
    ∃ volume, Reaches workspace made volume := by
  induction made using List.reverseRecOn with
  | nil => exact ⟨fun _ => none, .start _⟩
  | append_singleton made call ih =>
    obtain ⟨volume, h⟩ := ih
    obtain ⟨volume', hleaves⟩ := exists_leaves (workspace call.1) volume call.2
    exact ⟨volume', h.call hleaves⟩

/-- A task without calls has no workspace yet. -/
theorem workspaceOf_of_not_mem (h : ∀ call ∈ made, call.1 ≠ id) : workspaceOf id made = {} := by
  have hnone : Pool.ownCalls id made = [] := by
    rw [Pool.ownCalls, List.filter_eq_nil_iff.mpr fun call hcall => by simpa using h call hcall]
    rfl
  rw [workspaceOf, hnone]
  rfl

/-- The directories of the example. -/
def exampleWorkspace (id : Nat) : PyStr :=
  if id = 0 then lit "/tmp/bt-signal-media-a" else lit "/tmp/bt-signal-media-b"

/-- The directories of the first two tasks are apart. -/
theorem apart_example (h : ∀ call ∈ made, call.1 < 2) : Apart exampleWorkspace made := by
  intro earlier hearlier id id' hne hopen hopen'
  have hlt : ∀ {id}, (workspaceOf id earlier).isOpen = true → id < 2 := by
    intro id hopen
    by_contra hge
    have hnone : ∀ call ∈ earlier, call.1 ≠ id := by
      rintro call hcall rfl
      exact hge (h call (hearlier.subset hcall))
    rw [workspaceOf_of_not_mem hnone] at hopen
    cases hopen
  unfold Under
  obtain ⟨rfl, rfl⟩ | ⟨rfl, rfl⟩ : id = 0 ∧ id' = 1 ∨ id = 1 ∧ id' = 0 := by
    have := hlt hopen
    have := hlt hopen'
    omega
  · decide
  · decide

/-- A run of the example. -/
abbrev voiceRun (events : List BackgroundTasks.Event) : Option System :=
  System.run (fun _ => .ok []) (fun _ _ => .ok false) Markdown.asciiWord (fun _ => true)
    exampleSettings exampleWorkspace CallbackServer.exampleConfig
    (.create dedupTtlMs 60000 0) events

/-- A reply with a voice note of three bytes. -/
def voiceRequest (userId messageKey : String) : Request where
  token := some (lit "secret")
  body := some (.obj [(lit "type", .str (lit "complete")), (lit "user_id", .str (lit userId)),
    (lit "message_key", .str (lit messageKey)),
    (lit "voice_audio_base64", .str (lit "AAEC"))])

/-- Two voice replies arrive, and their deliveries take turns until the first is about to post its
note. -/
def twoVoices : List BackgroundTasks.Event :=
  [.request 0 (voiceRequest "alice" "17") 1, .request 1 (voiceRequest "bob" "18") 2] ++
    (List.replicate 6 [.answered 0 friendlyAnswers, .answered 1 friendlyAnswers]).flatten

/-- The voice note that is about to be posted is in its place. -/
theorem attachments_in_place_twoVoices : ∃ s volume task x, voiceRun twoVoices = some s ∧
    Apart exampleWorkspace s.pool.made ∧ Reaches exampleWorkspace s.pool.made volume ∧
    s.pool.tasks 0 = some task ∧ x ∈ nextAttachments task.rest ∧
    ∃ item ∈ mediaItems task.subject.payload, ∃ path data,
      x = .str (pathText (exampleWorkspace 0) path) ∧ Child item path ∧
      Source task.subject.payload (workspaceOf 0 s.pool.made) item data ∧
      volume (pathText (exampleWorkspace 0) path) = some data := by
  have hcomputed : (voiceRun twoVoices).any (fun s =>
      s.pool.made.all (fun call => decide (call.1 < 2)) &&
        (s.pool.tasks 0).any fun task => !(nextAttachments task.rest).isEmpty) = true := by
    decide +kernel
  obtain ⟨s, hrun, hs⟩ := (Option.any_eq_true _ _).mp hcomputed
  obtain ⟨hids, htasks⟩ := Bool.and_eq_true_iff.mp hs
  obtain ⟨task, htask, hnext⟩ := (Option.any_eq_true _ _).mp htasks
  have hne : nextAttachments task.rest ≠ [] := by simpa using hnext
  obtain ⟨x, hx⟩ := List.exists_mem_of_ne_nil _ hne
  have hapart : Apart exampleWorkspace s.pool.made :=
    apart_example fun call hcall => of_decide_eq_true (List.all_eq_true.mp hids call hcall)
  obtain ⟨volume, hvolume⟩ := exists_reaches exampleWorkspace s.pool.made
  exact ⟨s, volume, task, x, hrun, hapart, hvolume, htask, hx,
    attachments_in_place hrun hapart hvolume htask hx⟩

/-- A delivery makes all its calls, and ends. -/
def endedVoice : List BackgroundTasks.Event :=
  .request 0 (voiceRequest "alice" "17") 1 ::
    (List.replicate 13 (.answered 0 friendlyAnswers) ++ [.finish 0 2])

/-- A delivery that has ended has closed its workspace. -/
theorem workspaces_closed_endedVoice : ∃ s, voiceRun endedVoice = some s ∧
    (∀ id job r, (id, job, r) ∈ s.pool.ended → (workspaceOf id s.pool.made).isOpen = false) ∧
      ∀ earlier id op answer later, s.pool.made = earlier ++ (id, ⟨.own op, answer⟩) :: later →
        ∃ job, Scheduled s.records id job ∧ Allowed job.payload (workspaceOf id earlier) op := by
  obtain ⟨s, hrun⟩ := Option.isSome_iff_exists.mp
    (show (voiceRun endedVoice).isSome = true by decide +kernel)
  exact ⟨s, hrun, workspaces_closed hrun⟩

end SignalGateway.Proofs.BackgroundTasks
