import CodeCub.Python.OrderedDict
import CodeCub.Python.Str
import Mathlib.Data.List.Sort
import Mathlib.Data.String.Basic

/-!
# Checkpoints and their runtime identity

`Pico` and the `LegacyContextAdapter` it builds both write checkpoints and both evaluate
them on resume; each has an identity dictionary of its own, and `SessionManager` compares
the two.  `full_valid_iff` says for which writer and reader, and in which sessions, an
unchanged runtime is found valid again.
-/

namespace CodeCub
namespace Agent
namespace Checkpoints

open Python

/-! ## Runtime identities -/

inductive Field where
  | sessionId
  | cwd
  | model
  | modelClient
  | approvalPolicy
  | readOnly
  | maxSteps
  | runtimeMode
  | executionMode
  | emergencyCap
  | maxNewTokens
  | featureFlags
  | shellEnvAllowlist
  | workspaceFingerprint
  | toolSignature
  deriving DecidableEq

def Field.name : Field → String
  | .sessionId => "session_id"
  | .cwd => "cwd"
  | .model => "model"
  | .modelClient => "model_client"
  | .approvalPolicy => "approval_policy"
  | .readOnly => "read_only"
  | .maxSteps => "max_steps"
  | .runtimeMode => "runtime_mode"
  | .executionMode => "execution_mode"
  | .emergencyCap => "emergency_cap"
  | .maxNewTokens => "max_new_tokens"
  | .featureFlags => "feature_flags"
  | .shellEnvAllowlist => "shell_env_allowlist"
  | .workspaceFingerprint => "workspace_fingerprint"
  | .toolSignature => "tool_signature"

inductive Value where
  | none
  | text (value : String)
  | bool (value : Bool)
  | int (value : Int)
  | texts (value : List String)
  | flags (value : List (String × Bool))
  deriving DecidableEq

/-- `None` or an integer. -/
def Value.ofInt? : Option Int → Value
  | some n => .int n
  | Option.none => .none

abbrev RuntimeIdentity := List (Field × Value)

/-! ## The two components -/

structure ModelClient where
  className : String
  model : String := ""

structure Tool where
  name : String
  schema : String
  risky : Bool
  description : String

/-- The part of a `PromptPrefix` that the identity and a refresh read. -/
structure PromptPrefix where
  hash : String
  workspaceFingerprint : String
  deriving DecidableEq

structure Pico where
  sessionId : String
  root : String
  modelClient : ModelClient
  approvalPolicy : String
  readOnly : Bool
  maxSteps : Option Int
  runtimeMode : String
  executionMode : String
  emergencyCap : Int
  maxNewTokens : Int
  featureFlags : List (String × Bool)
  shellEnvAllowlist : List String
  tools : List Tool
  prefixState : PromptPrefix

structure LegacyContextAdapter where
  sessionId : String
  root : String
  modelClient : ModelClient
  approvalPolicy : String
  readOnly : Bool
  maxSteps : Option Int
  runtimeMode : String
  executionMode : String
  emergencyCap : Int
  maxNewTokens : Int
  featureFlags : List (String × Bool)
  tools : List Tool
  prefixState : PromptPrefix

/-- The hash of the sorted tools' JSON, which both components compute. -/
abbrev ToolHash := List Tool → String

def toolSignature (hash : ToolHash) (tools : List Tool) : String :=
  hash (tools.insertionSort fun a b => a.name ≤ b.name)

namespace Pico

def currentRuntimeIdentity (hash : ToolHash) (p : Pico) : RuntimeIdentity :=
  [(.sessionId, .text p.sessionId),
    (.cwd, .text p.root),
    (.model, .text p.modelClient.model),
    (.modelClient, .text p.modelClient.className),
    (.approvalPolicy, .text p.approvalPolicy),
    (.readOnly, .bool p.readOnly),
    (.maxSteps, .ofInt? p.maxSteps),
    (.runtimeMode, .text p.runtimeMode),
    (.executionMode, .text p.executionMode),
    (.emergencyCap, .int p.emergencyCap),
    (.maxNewTokens, .int p.maxNewTokens),
    (.featureFlags, .flags p.featureFlags),
    (.shellEnvAllowlist, .texts p.shellEnvAllowlist),
    (.workspaceFingerprint, .text p.prefixState.workspaceFingerprint),
    (.toolSignature, .text (toolSignature hash p.tools))]

/-- The adapter as `Pico.__init__` builds it. -/
def contextCollaborator (p : Pico) : LegacyContextAdapter where
  sessionId := p.sessionId
  root := p.root
  modelClient := p.modelClient
  approvalPolicy := p.approvalPolicy
  readOnly := p.readOnly
  maxSteps := p.maxSteps
  runtimeMode := p.runtimeMode
  executionMode := p.executionMode
  emergencyCap := p.emergencyCap
  maxNewTokens := p.maxNewTokens
  featureFlags := p.featureFlags
  tools := p.tools
  prefixState := p.prefixState

end Pico

def LegacyContextAdapter.currentRuntimeIdentity (hash : ToolHash) (a : LegacyContextAdapter) :
    RuntimeIdentity :=
  [(.sessionId, .text a.sessionId),
    (.cwd, .text a.root),
    (.model, .text a.modelClient.model),
    (.modelClient, .text a.modelClient.className),
    (.approvalPolicy, .text a.approvalPolicy),
    (.readOnly, .bool a.readOnly),
    (.maxSteps, .ofInt? a.maxSteps),
    (.runtimeMode, .text a.runtimeMode),
    (.executionMode, .text a.executionMode),
    (.emergencyCap, .int a.emergencyCap),
    (.maxNewTokens, .int a.maxNewTokens),
    (.featureFlags, .flags a.featureFlags),
    (.workspaceFingerprint, .text a.prefixState.workspaceFingerprint),
    (.toolSignature, .text (toolSignature hash a.tools))]

/-- `refresh_prefix`: `refreshed` is what the workspace gives now. -/
def refreshPrefix (current refreshed : PromptPrefix) : PromptPrefix :=
  if refreshed.workspaceFingerprint ≠ current.workspaceFingerprint ∧ refreshed.hash ≠ current.hash
  then refreshed else current

/-- A `Pico` and its adapter; after the construction only the prefixes move. -/
structure Runtime where
  pico : Pico
  adapter : LegacyContextAdapter
  built : adapter = { pico.contextCollaborator with prefixState := adapter.prefixState }

inductive Component
  | pico
  | adapter
  deriving DecidableEq

namespace Runtime

def create (pico : Pico) : Runtime where
  pico := pico
  adapter := pico.contextCollaborator
  built := rfl

/-- Each component refreshes a prefix of its own. -/
def refresh (rt : Runtime) (refreshed : PromptPrefix) : Component → Runtime
  | .pico =>
      { pico := { rt.pico with prefixState := refreshPrefix rt.pico.prefixState refreshed }
        adapter := rt.adapter
        built := rt.built }
  | .adapter =>
      { pico := rt.pico
        adapter :=
          { rt.adapter with prefixState := refreshPrefix rt.adapter.prefixState refreshed }
        built := by conv_lhs => rw [rt.built] }

/-- `Pico._build_prompt_and_metadata` takes over the adapter's prefix. -/
def mirror (rt : Runtime) : Runtime where
  pico := { rt.pico with prefixState := rt.adapter.prefixState }
  adapter := rt.adapter
  built := rt.built

def identity (hash : ToolHash) (rt : Runtime) : Component → RuntimeIdentity
  | .pico => rt.pico.currentRuntimeIdentity hash
  | .adapter => rt.adapter.currentRuntimeIdentity hash

end Runtime

/-! ## Files and memory -/

/-- `resolve` gives a path below the root, `read` a regular file. -/
structure Workspace where
  resolve : String → Option String
  read : String → Option ByteArray
  sha256 : ByteArray → String

def Workspace.fileFreshness (w : Workspace) (path : String) : Option String :=
  ((w.resolve path).bind w.read).map w.sha256

/-- The normalised memory: `fileSummaries` has the freshness of each summary. -/
structure Memory where
  recentFiles : List String := []
  fileSummaries : List (String × Option String) := []

/-- `invalidate_stale_file_summaries`. -/
def Memory.invalidateStaleFileSummaries (w : Workspace) (memory : Memory) : Memory × List String :=
  ({ memory with
      fileSummaries := memory.fileSummaries.filter fun s => s.2 = w.fileFreshness s.1 },
    (memory.fileSummaries.filter fun s => s.2 ≠ w.fileFreshness s.1).map Prod.fst)

/-- The paths of the working state and of the evidence store. -/
structure Work where
  changedFiles : List String := []
  relevantSymbols : List String := []
  evidence : List String := []

structure KeyFile where
  path : String
  freshness : Option String

/-- A path of the working state goes into the key files once. -/
def noteKeyFile (w : Workspace) (keyFiles : List KeyFile) (path : String) : List KeyFile :=
  if keyFiles.any fun item => item.path = path then keyFiles
  else keyFiles ++ [⟨path, w.fileFreshness path⟩]

def keyFilesOf (w : Workspace) (recentFiles wsPaths : List String) : List KeyFile :=
  wsPaths.foldl (noteKeyFile w) (recentFiles.map fun path => ⟨path, w.fileFreshness path⟩)

/-- `if path and path not in ws_paths: ws_paths.append(path)`. -/
def noteNew (wsPaths : List String) (path : String) : List String :=
  if path ≠ "" ∧ path ∉ wsPaths then wsPaths ++ [path] else wsPaths

def Pico.wsPaths (work : Work) : List String :=
  work.evidence.foldl noteNew (work.relevantSymbols.foldl noteNew work.changedFiles)

def LegacyContextAdapter.wsPaths (work : Work) : List String :=
  work.changedFiles ++ work.relevantSymbols.filter (· ≠ "") ++ work.evidence.filter (· ≠ "")

/-! ## Sessions -/

structure Checkpoint where
  checkpointId : String
  parentCheckpointId : String
  schemaVersion : String
  keyFiles : List KeyFile
  runtimeIdentity : RuntimeIdentity

inductive ResumeStatus
  | noCheckpoint
  | schemaMismatch
  | partialStale
  | workspaceMismatch
  | fullValid
  deriving DecidableEq

structure ResumeState where
  status : ResumeStatus := .noCheckpoint
  stalePaths : List String := []
  runtimeIdentityMismatchFields : List Field := []
  staleSummaryInvalidations : Nat := 0

/-- The status `full-valid`, with no field that differs. -/
def ResumeState.FullyValid (resumed : ResumeState) : Prop :=
  resumed.status = .fullValid ∧ resumed.runtimeIdentityMismatchFields = []

structure Session where
  memory : Memory := {}
  currentId : String := ""
  items : OrderedDict String Checkpoint := ∅
  runtimeIdentity : RuntimeIdentity := []
  resumeState : ResumeState := {}

/-- `"ckpt_" + uuid.uuid4().hex[:8]`. -/
structure CheckpointId where
  hex : List Char
  isHex : hex.all ("0123456789abcdef".toList.contains ·) = true

def CheckpointId.text (id : CheckpointId) : String := "ckpt_" ++ String.ofList id.hex

def checkpointSchemaVersion : String := "phase1-v1"

namespace SessionManager

def currentCheckpoint (session : Session) : Option Checkpoint :=
  let checkpointId := strip session.currentId
  if checkpointId = "" then none else session.items.get checkpointId

/-- The fields that `evaluate_resume` compares. -/
def comparedFields : List Field :=
  [.cwd, .model, .modelClient, .approvalPolicy, .readOnly, .maxSteps, .runtimeMode, .emergencyCap,
    .maxNewTokens, .featureFlags, .shellEnvAllowlist, .workspaceFingerprint, .toolSignature]

/-- `key in saved and saved.get(key) != current.get(key)`; a missing key reads as `None`. -/
def differs (saved current : RuntimeIdentity) (key : Field) : Bool :=
  match saved.lookup key with
  | none => false
  | some value => value ≠ (current.lookup key).getD .none

def mismatches (saved current : RuntimeIdentity) : List Field :=
  (comparedFields.filter (differs saved current)).insertionSort fun a b => a.name ≤ b.name

/-- A key file that changed joins the stale paths once; a blank path is passed over. -/
def noteStale (fileFreshness : String → Option String) (stalePaths : List String)
    (item : KeyFile) : List String :=
  let path := strip item.path
  if path ≠ "" ∧ item.freshness ≠ fileFreshness path ∧ path ∉ stalePaths then
    stalePaths ++ [path]
  else stalePaths

def evaluateResume (session : Session) (invalidated : List String)
    (fileFreshness : String → Option String) (current : RuntimeIdentity)
    (schemaVersion : String) : ResumeState × Session :=
  let result : ResumeState :=
    match currentCheckpoint session with
    | none => { status := .noCheckpoint, stalePaths := invalidated,
                staleSummaryInvalidations := invalidated.length }
    | some checkpoint =>
        if checkpoint.schemaVersion ≠ schemaVersion then
          { status := .schemaMismatch, stalePaths := invalidated,
            staleSummaryInvalidations := invalidated.length }
        else
          let stalePaths := checkpoint.keyFiles.foldl (noteStale fileFreshness) invalidated
          let saved := if checkpoint.runtimeIdentity = [] then session.runtimeIdentity
            else checkpoint.runtimeIdentity
          let fields := mismatches saved current
          if stalePaths ≠ [] then
            { status := .partialStale, stalePaths := stalePaths,
              runtimeIdentityMismatchFields := fields,
              staleSummaryInvalidations :=
                max invalidated.length session.resumeState.staleSummaryInvalidations }
          else
            { status := if fields ≠ [] then .workspaceMismatch else .fullValid
              stalePaths := [], runtimeIdentityMismatchFields := fields,
              staleSummaryInvalidations := invalidated.length }
  (result, { session with resumeState := result, runtimeIdentity := current })

end SessionManager

/-! ## Writing and evaluating -/

/-- The checkpoint that `create_checkpoint` makes from the paths and the identity of its
writer. -/
def newCheckpoint (w : Workspace) (wsPaths : List String) (identity : RuntimeIdentity)
    (id : CheckpointId) (session : Session) : Checkpoint where
  checkpointId := id.text
  parentCheckpointId :=
    ((SessionManager.currentCheckpoint session).map Checkpoint.checkpointId).getD ""
  schemaVersion := checkpointSchemaVersion
  keyFiles := keyFilesOf w session.memory.recentFiles wsPaths
  runtimeIdentity := identity

def writeCheckpoint (w : Workspace) (wsPaths : List String) (identity : RuntimeIdentity)
    (id : CheckpointId) (session : Session) : Session :=
  { session with
    items := session.items.set id.text (newCheckpoint w wsPaths identity id session)
    currentId := id.text
    runtimeIdentity := identity }

/-- `self.feature_flags.get(name, False)`. -/
def featureEnabled (flags : List (String × Bool)) (name : String) : Bool :=
  (flags.lookup name).getD false

def memoryV2Enabled (flags : List (String × Bool)) : Bool :=
  featureEnabled flags "memory" && featureEnabled flags "memory_v2"

def Pico.createCheckpoint (hash : ToolHash) (p : Pico) (w : Workspace) (work : Work) :
    CheckpointId → Session → Session :=
  writeCheckpoint w (if memoryV2Enabled p.featureFlags then Pico.wsPaths work else [])
    (p.currentRuntimeIdentity hash)

def LegacyContextAdapter.createCheckpoint (hash : ToolHash) (a : LegacyContextAdapter)
    (w : Workspace) (work : Work) : CheckpointId → Session → Session :=
  writeCheckpoint w
    (if memoryV2Enabled a.featureFlags then LegacyContextAdapter.wsPaths work else [])
    (a.currentRuntimeIdentity hash)

/-- `evaluate_resume_state`, with the identity of the reader. -/
def evaluateResumeState (w : Workspace) (identity : RuntimeIdentity) (session : Session) :
    ResumeState × Session :=
  let cleaned := session.memory.invalidateStaleFileSummaries w
  SessionManager.evaluateResume { session with memory := cleaned.1 } cleaned.2 w.fileFreshness
    identity checkpointSchemaVersion

namespace Runtime

variable (hash : ToolHash) (rt : Runtime)

def createCheckpoint (w : Workspace) (work : Work) : Component → CheckpointId → Session → Session
  | .pico => rt.pico.createCheckpoint hash w work
  | .adapter => rt.adapter.createCheckpoint hash w work

def evaluateResumeState (w : Workspace) (reader : Component) (session : Session) :
    ResumeState × Session :=
  Checkpoints.evaluateResumeState w (rt.identity hash reader) session

end Runtime

/-! ## Identities -/

section Identities

variable {hash : ToolHash} {rt : Runtime} {saved current : RuntimeIdentity}

theorem mismatches_eq_nil_iff : SessionManager.mismatches saved current = [] ↔
    ∀ key ∈ SessionManager.comparedFields, SessionManager.differs saved current key = false := by
  have hperm := List.perm_insertionSort (fun a b : Field => a.name ≤ b.name)
    (SessionManager.comparedFields.filter (SessionManager.differs saved current))
  unfold SessionManager.mismatches
  constructor
  · intro h
    rw [h] at hperm
    have hnone := List.filter_eq_nil_iff.mp hperm.symm.eq_nil
    exact fun key hkey => Bool.not_eq_true _ ▸ hnone key hkey
  · intro h
    have hnone : SessionManager.comparedFields.filter
        (SessionManager.differs saved current) = [] := by
      rw [List.filter_eq_nil_iff]
      exact fun key hkey => Bool.eq_false_iff.mp (h key hkey)
    rw [hnone]
    rfl

theorem differs_of_lookup_eq {key : Field} (h : saved.lookup key = current.lookup key) :
    SessionManager.differs saved current key = false := by
  unfold SessionManager.differs
  rw [h]
  cases current.lookup key with
  | none => rfl
  | some value => simp

/-- The adapter's identity from the configuration of `Pico`. -/
theorem adapter_identity : rt.identity hash .adapter =
    LegacyContextAdapter.currentRuntimeIdentity hash
      { rt.pico.contextCollaborator with prefixState := rt.adapter.prefixState } :=
  congrArg (LegacyContextAdapter.currentRuntimeIdentity hash) rt.built

/-- When the identities of a writer and a reader agree. -/
def Runtime.IdentityAgrees (rt : Runtime) : Component → Component → Prop
  | .pico, .adapter => False
  | .adapter, .pico =>
      rt.adapter.prefixState.workspaceFingerprint = rt.pico.prefixState.workspaceFingerprint
  | _, _ => True

/-- `Pico` writes a field that the adapter does not have. -/
theorem differs_shellEnvAllowlist : SessionManager.differs (rt.identity hash .pico)
    (rt.identity hash .adapter) .shellEnvAllowlist = true := rfl

theorem differs_workspaceFingerprint : SessionManager.differs (rt.identity hash .adapter)
    (rt.identity hash .pico) .workspaceFingerprint =
      decide (Value.text rt.adapter.prefixState.workspaceFingerprint ≠
        .text rt.pico.prefixState.workspaceFingerprint) := rfl

/-- Nothing else of what the adapter writes reads otherwise in `Pico`. -/
theorem differs_otherwise {key : Field} (h : key ≠ .workspaceFingerprint) :
    SessionManager.differs (rt.identity hash .adapter) (rt.identity hash .pico) key = false := by
  rw [adapter_identity]
  cases key with
  | workspaceFingerprint => exact absurd rfl h
  | shellEnvAllowlist => rfl
  | _ => exact differs_of_lookup_eq rfl

theorem identity_mismatches_iff (hash : ToolHash) (rt : Runtime) (writer reader : Component) :
    SessionManager.mismatches (rt.identity hash writer) (rt.identity hash reader) = [] ↔
      rt.IdentityAgrees writer reader := by
  rw [mismatches_eq_nil_iff]
  match writer, reader with
  | .pico, .pico => exact iff_of_true (fun key _ => differs_of_lookup_eq rfl) trivial
  | .adapter, .adapter => exact iff_of_true (fun key _ => differs_of_lookup_eq rfl) trivial
  | .pico, .adapter =>
      refine iff_of_false (fun h => ?_) not_false
      have hkey := h .shellEnvAllowlist (by decide)
      rw [differs_shellEnvAllowlist] at hkey
      cases hkey
  | .adapter, .pico =>
      show _ ↔ rt.adapter.prefixState.workspaceFingerprint =
        rt.pico.prefixState.workspaceFingerprint
      constructor
      · intro h
        have hkey := h .workspaceFingerprint (by decide)
        rw [differs_workspaceFingerprint, decide_eq_false_iff_not, not_not] at hkey
        exact Value.text.inj hkey
      · intro hsame key _
        by_cases hkey : key = .workspaceFingerprint
        · rw [hkey, differs_workspaceFingerprint, hsame]
          simp
        · exact differs_otherwise hkey

end Identities

/-! ## Key files -/

section KeyFiles

variable {w : Workspace}

/-- A path that is among the key files already changes nothing. -/
theorem noteKeyFile_of_mem {keyFiles : List KeyFile} {path : String}
    (h : path ∈ keyFiles.map KeyFile.path) : noteKeyFile w keyFiles path = keyFiles := by
  obtain ⟨item, hitem, hpath⟩ := List.mem_map.mp h
  rw [noteKeyFile, if_pos]
  rw [List.any_eq_true]
  exact ⟨item, hitem, by simpa using hpath⟩

theorem paths_noteKeyFile (keyFiles : List KeyFile) (path p : String) :
    p ∈ (noteKeyFile w keyFiles path).map KeyFile.path ↔
      p ∈ keyFiles.map KeyFile.path ∨ p = path := by
  by_cases hmem : path ∈ keyFiles.map KeyFile.path
  · rw [noteKeyFile_of_mem hmem]
    constructor
    · exact .inl
    · rintro (h | rfl)
      · exact h
      · exact hmem
  · have hnew : ¬ (keyFiles.any fun item => item.path = path) = true := by
      intro hany
      obtain ⟨item, hitem, hpath⟩ := List.any_eq_true.mp hany
      exact hmem (List.mem_map.mpr ⟨item, hitem, by simpa using hpath⟩)
    rw [noteKeyFile, if_neg hnew, List.map_append, List.mem_append, List.map_singleton,
      List.mem_singleton]

theorem paths_foldl_noteKeyFile (wsPaths : List String) (keyFiles : List KeyFile) (p : String) :
    p ∈ (wsPaths.foldl (noteKeyFile w) keyFiles).map KeyFile.path ↔
      p ∈ keyFiles.map KeyFile.path ∨ p ∈ wsPaths := by
  induction wsPaths generalizing keyFiles with
  | nil => simp
  | cons path rest ih =>
      rw [List.foldl_cons, ih, paths_noteKeyFile, List.mem_cons]
      tauto

theorem freshness_foldl_noteKeyFile (wsPaths : List String) {keyFiles : List KeyFile}
    (h : ∀ item ∈ keyFiles, item.freshness = w.fileFreshness item.path) :
    ∀ item ∈ wsPaths.foldl (noteKeyFile w) keyFiles,
      item.freshness = w.fileFreshness item.path := by
  induction wsPaths generalizing keyFiles with
  | nil => exact h
  | cons path rest ih =>
      refine ih fun item hitem => ?_
      unfold noteKeyFile at hitem
      split at hitem
      · exact h item hitem
      · rcases List.mem_append.mp hitem with hitem | hitem
        · exact h item hitem
        · rw [List.mem_singleton.mp hitem]

/-- The paths that `Pico` leaves out of `ws_paths` are the ones that the key files have. -/
theorem foldl_noteNew (extra wsPaths : List String) (keyFiles : List KeyFile) :
    (extra.foldl noteNew wsPaths).foldl (noteKeyFile w) keyFiles =
      (wsPaths ++ extra.filter (· ≠ "")).foldl (noteKeyFile w) keyFiles := by
  induction extra generalizing wsPaths with
  | nil => simp
  | cons path rest ih =>
      rw [List.foldl_cons, ih]
      by_cases hblank : path = ""
      · rw [noteNew, if_neg (fun h => h.1 hblank), List.filter_cons_of_neg (by simpa using hblank)]
      · rw [List.filter_cons_of_pos (by simpa using hblank), List.append_cons]
        by_cases hmem : path ∈ wsPaths
        · have hknown : path ∈ (wsPaths.foldl (noteKeyFile w) keyFiles).map KeyFile.path :=
            (paths_foldl_noteKeyFile wsPaths keyFiles path).mpr (.inr hmem)
          rw [noteNew, if_neg (fun h => h.2 hmem), List.foldl_append, List.foldl_append,
            List.foldl_append, List.foldl_cons, List.foldl_nil, noteKeyFile_of_mem hknown]
        · rw [noteNew, if_pos ⟨hblank, hmem⟩]

/-- Both components record the same key files. -/
theorem keyFilesOf_wsPaths (recentFiles : List String) (work : Work) :
    keyFilesOf w recentFiles (Pico.wsPaths work) =
      keyFilesOf w recentFiles (LegacyContextAdapter.wsPaths work) := by
  rw [keyFilesOf, Pico.wsPaths, foldl_noteNew, List.foldl_append, foldl_noteNew,
    ← List.foldl_append]
  rfl

theorem forall_keyFilesOf (recentFiles wsPaths : List String) {P : String → Option String → Prop} :
    (∀ item ∈ keyFilesOf w recentFiles wsPaths, P item.path item.freshness) ↔
      ∀ path ∈ recentFiles ++ wsPaths, P path (w.fileFreshness path) := by
  have hrecent : (recentFiles.map fun path => KeyFile.mk path (w.fileFreshness path)).map
      KeyFile.path = recentFiles := by
    rw [List.map_map]
    exact List.map_id _
  have hpaths : ∀ p, p ∈ (keyFilesOf w recentFiles wsPaths).map KeyFile.path ↔
      p ∈ recentFiles ++ wsPaths := by
    intro p
    rw [keyFilesOf, paths_foldl_noteKeyFile, hrecent, List.mem_append]
  have hfresh : ∀ item ∈ keyFilesOf w recentFiles wsPaths,
      item.freshness = w.fileFreshness item.path := by
    apply freshness_foldl_noteKeyFile
    intro item hitem
    obtain ⟨path, -, rfl⟩ := List.mem_map.mp hitem
    rfl
  constructor
  · intro h path hpath
    obtain ⟨item, hitem, rfl⟩ := List.mem_map.mp ((hpaths path).mpr hpath)
    exact hfresh item hitem ▸ h item hitem
  · intro h item hitem
    rw [hfresh item hitem]
    exact h item.path ((hpaths item.path).mp (List.mem_map_of_mem hitem))

/-- No path is stale: none was before, and no key file has changed. -/
theorem foldl_noteStale_eq_nil {fileFreshness : String → Option String} {items : List KeyFile}
    {stalePaths : List String} :
    items.foldl (SessionManager.noteStale fileFreshness) stalePaths = [] ↔
      stalePaths = [] ∧ ∀ item ∈ items, strip item.path = "" ∨
        item.freshness = fileFreshness (strip item.path) := by
  induction items generalizing stalePaths with
  | nil => simp
  | cons item items ih =>
      rw [List.foldl_cons, ih, List.forall_mem_cons, SessionManager.noteStale]
      by_cases hblank : strip item.path = ""
      · simp [hblank]
      · by_cases hfresh : item.freshness = fileFreshness (strip item.path)
        · simp [hfresh]
        · by_cases hknown : strip item.path ∈ stalePaths
          · have hne : stalePaths ≠ [] := List.ne_nil_of_mem hknown
            simp [hknown, hne]
          · simp [hblank, hfresh, hknown]

end KeyFiles

/-! ## Resuming from a checkpoint just written -/

section Resuming

variable {w : Workspace} {hash : ToolHash} {rt : Runtime} {work : Work} {session : Session}
  {id : CheckpointId}

theorem strip_checkpointId (id : CheckpointId) : strip id.text = id.text := by
  have hplain : ∀ c ∈ "ckpt_".toList ++ id.hex, isSpace c = false := by
    have hletters : ("ckpt_".toList ++ "0123456789abcdef".toList).all (!isSpace ·) = true := by
      decide
    intro c hc
    have hmem : c ∈ "ckpt_".toList ++ "0123456789abcdef".toList := by
      rcases List.mem_append.mp hc with hc | hc
      · exact List.mem_append_left _ hc
      · have hdigit := List.all_eq_true.mp id.isHex c hc
        exact List.mem_append_right _ (List.contains_iff_mem.mp hdigit)
    simpa using List.all_eq_true.mp hletters c hmem
  have htext : id.text.toList = "ckpt_".toList ++ id.hex := by simp [CheckpointId.text]
  rw [strip, htext, stripList_eq_self hplain, ← htext, String.ofList_toList]

theorem checkpointId_ne_empty (id : CheckpointId) : id.text ≠ "" := by
  intro h
  have := congrArg String.length h
  simp [CheckpointId.text] at this

theorem evaluateResume_fullValid_iff (invalidated : List String)
    (fileFreshness : String → Option String) (current : RuntimeIdentity) {schemaVersion : String}
    {checkpoint : Checkpoint}
    (hcheckpoint : SessionManager.currentCheckpoint session = some checkpoint)
    (hschema : checkpoint.schemaVersion = schemaVersion)
    (hsaved : checkpoint.runtimeIdentity ≠ []) :
    (SessionManager.evaluateResume session invalidated fileFreshness current
      schemaVersion).1.FullyValid ↔
      checkpoint.keyFiles.foldl (SessionManager.noteStale fileFreshness) invalidated = [] ∧
        SessionManager.mismatches checkpoint.runtimeIdentity current = [] := by
  simp only [ResumeState.FullyValid, SessionManager.evaluateResume, hcheckpoint, hschema, ne_eq, not_true_eq_false,
    if_false, if_neg hsaved]
  by_cases hstale :
      checkpoint.keyFiles.foldl (SessionManager.noteStale fileFreshness) invalidated = []
  · by_cases hfields : SessionManager.mismatches checkpoint.runtimeIdentity current = []
    · simp [hstale, hfields]
    · simp [hstale, hfields]
  · simp [hstale]

theorem currentCheckpoint_written {wsPaths : List String} {identity : RuntimeIdentity}
    (memory : Memory) :
    SessionManager.currentCheckpoint
        { writeCheckpoint w wsPaths identity id session with memory := memory } =
      some (newCheckpoint w wsPaths identity id session) := by
  unfold SessionManager.currentCheckpoint writeCheckpoint
  simp only [strip_checkpointId, if_neg (checkpointId_ne_empty id), OrderedDict.get_set_self]

theorem resume_written_iff {wsPaths : List String} {identity : RuntimeIdentity}
    (hidentity : identity ≠ []) (current : RuntimeIdentity) :
    (evaluateResumeState w current (writeCheckpoint w wsPaths identity id session)).1.FullyValid ↔
      (keyFilesOf w session.memory.recentFiles wsPaths).foldl
          (SessionManager.noteStale w.fileFreshness)
          (session.memory.invalidateStaleFileSummaries w).2 = [] ∧
        SessionManager.mismatches identity current = [] := by
  have hcurrent : SessionManager.currentCheckpoint
      { writeCheckpoint w wsPaths identity id session with
        memory := (session.memory.invalidateStaleFileSummaries w).1 } =
      some (newCheckpoint w wsPaths identity id session) := currentCheckpoint_written _
  have hschema : (newCheckpoint w wsPaths identity id session).schemaVersion =
      checkpointSchemaVersion := rfl
  have hmemory : (writeCheckpoint w wsPaths identity id session).memory = session.memory := rfl
  have h := evaluateResume_fullValid_iff (session.memory.invalidateStaleFileSummaries w).2
    w.fileFreshness current hcurrent hschema hidentity
  simpa only [evaluateResumeState, hmemory, newCheckpoint] using h

/-- The paths that a checkpoint records: those of the memory, and of memory 2.0. -/
def keyPaths (rt : Runtime) (work : Work) (session : Session) : List String :=
  session.memory.recentFiles ++
    if memoryV2Enabled rt.pico.featureFlags then
      work.changedFiles ++ work.relevantSymbols ++ work.evidence
    else []

/-- The file that a path names without the blanks around it has the same content. -/
def BlanksHarmless (w : Workspace) (paths : List String) : Prop :=
  ∀ path ∈ paths, strip path ≠ "" → w.fileFreshness (strip path) = w.fileFreshness path

/-- Every file summary is of the file as it is. -/
def SummariesFresh (w : Workspace) (memory : Memory) : Prop :=
  ∀ summary ∈ memory.fileSummaries, summary.2 = w.fileFreshness summary.1

/-- The checkpoint of either component. -/
theorem createCheckpoint_eq (writer : Component) :
    rt.createCheckpoint hash w work writer id session =
      writeCheckpoint w (if memoryV2Enabled rt.pico.featureFlags then
        LegacyContextAdapter.wsPaths work else []) (rt.identity hash writer) id session := by
  have hflags : rt.adapter.featureFlags = rt.pico.featureFlags := by
    rw [rt.built]
    rfl
  cases writer with
  | pico =>
      show writeCheckpoint w _ _ id session = _
      split
      · rw [writeCheckpoint, newCheckpoint, keyFilesOf_wsPaths]
        rfl
      · rfl
  | adapter =>
      show writeCheckpoint w _ _ id session = _
      rw [hflags]
      rfl

theorem invalidated_eq_nil_iff {memory : Memory} :
    (memory.invalidateStaleFileSummaries w).2 = [] ↔ SummariesFresh w memory := by
  show ((memory.fileSummaries.filter _).map Prod.fst) = [] ↔ _
  rw [List.map_eq_nil_iff, List.filter_eq_nil_iff]
  simp only [decide_eq_true_eq, not_not, ne_eq]
  rfl

theorem forall_keyPaths_iff :
    (∀ path ∈ session.memory.recentFiles ++ (if memoryV2Enabled rt.pico.featureFlags then
        LegacyContextAdapter.wsPaths work else []),
      strip path = "" ∨ w.fileFreshness path = w.fileFreshness (strip path)) ↔
      BlanksHarmless w (keyPaths rt work session) := by
  have hblank : strip "" = "" := by decide
  have hmem : ∀ path, strip path ≠ "" →
      (path ∈ LegacyContextAdapter.wsPaths work ↔
        path ∈ work.changedFiles ++ work.relevantSymbols ++ work.evidence) := by
    intro path hpath
    have hne : path ≠ "" := fun h => hpath (h ▸ hblank)
    simp [LegacyContextAdapter.wsPaths, hne]
  have hpaths : ∀ path, strip path ≠ "" →
      (path ∈ session.memory.recentFiles ++ (if memoryV2Enabled rt.pico.featureFlags then
        LegacyContextAdapter.wsPaths work else []) ↔ path ∈ keyPaths rt work session) := by
    intro path hpath
    rw [keyPaths, List.mem_append, List.mem_append]
    split
    · rw [hmem path hpath]
    · rfl
  constructor
  · intro h path hpath hne
    exact ((h path ((hpaths path hne).mpr hpath)).resolve_left hne).symm
  · intro h path hpath
    by_cases hne : strip path = ""
    · exact .inl hne
    · exact .inr (h path ((hpaths path hne).mp hpath) hne).symm

/-- A checkpoint just written is found fully valid exactly when the identities of its writer
and its reader agree, no file summary is stale, and blanks around a path change no file. -/
theorem full_valid_iff (hash : ToolHash) (rt : Runtime) (w : Workspace) (work : Work)
    (session : Session) (id : CheckpointId) (writer reader : Component) :
    (rt.evaluateResumeState hash w reader
      (rt.createCheckpoint hash w work writer id session)).1.FullyValid ↔
      rt.IdentityAgrees writer reader ∧ SummariesFresh w session.memory ∧
        BlanksHarmless w (keyPaths rt work session) := by
  have hidentity : rt.identity hash writer ≠ [] := by
    cases writer <;> exact List.cons_ne_nil _ _
  rw [createCheckpoint_eq, ← identity_mismatches_iff hash, ← forall_keyPaths_iff,
    ← invalidated_eq_nil_iff, Runtime.evaluateResumeState, resume_written_iff hidentity,
    foldl_noteStale_eq_nil, forall_keyFilesOf session.memory.recentFiles _
      (P := fun path freshness => strip path = "" ∨ freshness = w.fileFreshness (strip path))]
  exact and_comm

end Resuming

/-! ## A checkpoint of `Pico` in the adapter -/

def plainPico : Pico where
  sessionId := "s"
  root := "/w"
  modelClient := { className := "FakeModelClient" }
  approvalPolicy := "auto"
  readOnly := false
  maxSteps := some 6
  runtimeMode := "interactive"
  executionMode := "single"
  emergencyCap := 200
  maxNewTokens := 512
  featureFlags := [("memory", true)]
  shellEnvAllowlist := ["PATH"]
  tools := []
  prefixState := { hash := "p", workspaceFingerprint := "f" }

def emptyWorkspace : Workspace where
  resolve path := some path
  read _ := none
  sha256 _ := "d"

def plainId : CheckpointId where
  hex := "0a".toList
  isHex := by decide

/-- Nothing has changed, and the adapter reports the field that it does not write itself. -/
theorem pico_checkpoint_mismatch :
    let rt := Runtime.create plainPico
    let hash : ToolHash := fun _ => "t"
    let resumed := (rt.evaluateResumeState hash emptyWorkspace .adapter
      (rt.createCheckpoint hash emptyWorkspace {} .pico plainId {})).1
    resumed.status = .workspaceMismatch ∧
      resumed.runtimeIdentityMismatchFields = [.shellEnvAllowlist] := by
  decide

end Checkpoints
end Agent
end CodeCub
