import Nixd.Server.Worker

/-!
# Text synchronisation and configuration

The notification handlers that change the controller's state. `addDocument` clears the
file's diagnostics, stores the draft, schedules a parse and bumps the workspace version;
`onDocumentDidChange` applies every content change to a copy of the draft and drops the
draft as soon as one fails; `updateConfig` installs a configuration and bumps the version.
`applyChange` (from `lspserver/SourceCode.h`) is a parameter: any function that returns the
new text or fails. Each handler comes with what it does to the draft of a path and to the
eval worker pool, so that the runs of `Server/Run.lean` never unfold a handler.
-/

namespace Nixd

variable {δ : Type}

/-- The loop of `onDocumentDidChange` over the content changes: the text with all of them
applied in order, or `none` as soon as one fails. -/
def applyChanges (applyChange : Bytes → TextDocumentContentChangeEvent → Option Bytes) :
    Bytes → List TextDocumentContentChangeEvent → Option Bytes
  | code, [] => some code
  | code, change :: changes =>
      (applyChange code change).bind fun code => applyChanges applyChange code changes

@[simp] theorem applyChanges_nil (applyChange) (code : Bytes) :
    applyChanges applyChange code [] = some code := rfl

/-- The loop applies the changes as a fold of `applyChange` that stops at the first
failure. -/
theorem applyChanges_eq_foldlM (applyChange : Bytes → TextDocumentContentChangeEvent → Option Bytes)
    (code : Bytes) (changes : List TextDocumentContentChangeEvent) :
    applyChanges applyChange code changes = changes.foldlM applyChange code := by
  induction changes generalizing code with
  | nil => rfl
  | cons c cs ih =>
      simp only [applyChanges, List.foldlM_cons, ih]
      rfl

theorem applyChanges_append (applyChange) (code : Bytes)
    (cs₁ cs₂ : List TextDocumentContentChangeEvent) :
    applyChanges applyChange code (cs₁ ++ cs₂) =
      (applyChanges applyChange code cs₁).bind fun code => applyChanges applyChange code cs₂ := by
  induction cs₁ generalizing code with
  | nil => rfl
  | cons c cs ih =>
      simp only [List.cons_append, applyChanges]
      cases applyChange code c <;> simp [ih]

namespace Server

/-- `Server::addDocument`. The clear goes to `URIForFile::canonicalize(File, File)`, the
file itself. -/
def addDocument (s : Server δ) (file : String) (contents : Bytes) (version : String)
    (fork : ForkOutcome) : Server δ :=
  let iVersion := decodeVersion version
  let s := { s with
    published := s.published ++
      [({ uri := ⟨file⟩, diagnostics := [], version := iVersion } : PublishDiagnosticsParams δ)] }
  let s := { s with draftMgr := Function.update s.draftMgr file (some ⟨contents, version⟩) }
  let s := { s with
    parses := s.parses ++
      [({ contents := contents, path := file, version := iVersion.getD 0 } : ParseRequest)] }
  s.updateWorkspaceVersion fork

/-- `Server::removeDocument`.
Modelled from the spec: its body is not part of the source; the spec has the draft dropped
("the caller MUST remove the draft", `remove(path)`: forget). -/
def removeDocument (s : Server δ) (file : String) : Server δ :=
  { s with draftMgr := Function.update s.draftMgr file none }

/-- `Server::forkOptionWorker`.
Modelled from the spec: its body is not part of the source; the spec has it fork an option
worker into `OptionWorkers`, a pool of size one. -/
def forkOptionWorker (s : Server δ) (fork : ForkOutcome) : Server δ :=
  { s with optionWorkers := s.forkWorker fork s.optionWorkers 1 }

/-- `Server::updateConfig`. -/
def updateConfig (s : Server δ) (newConfig : Configuration.TopLevel)
    (optionFork fork : ForkOutcome) : Server δ :=
  let s := { s with config := newConfig }
  let s := s.forkOptionWorker optionFork
  s.updateWorkspaceVersion fork

/-- `Server::onDocumentDidOpen`. -/
def onDocumentDidOpen (s : Server δ) (params : DidOpenTextDocumentParams)
    (fork : ForkOutcome) : Server δ :=
  s.addDocument params.textDocument.uri.file params.textDocument.text
    (encodeVersion params.textDocument.version) fork

/-- `Server::onDocumentDidChange`: nothing for a file without a draft; the draft dropped
when a change fails; otherwise `addDocument` with the new text. -/
def onDocumentDidChange (applyChange : Bytes → TextDocumentContentChangeEvent → Option Bytes)
    (s : Server δ) (params : DidChangeTextDocumentParams) (fork : ForkOutcome) : Server δ :=
  let file := params.textDocument.uri.file
  match s.getDraft file with
  | none => s
  | some code =>
      match applyChanges applyChange code params.contentChanges with
      | none => s.removeDocument file
      | some newCode =>
          s.addDocument file newCode (encodeVersion params.textDocument.version) fork

/-- `Server::onDocumentDidClose`. -/
def onDocumentDidClose (s : Server δ) (params : DidCloseTextDocumentParams) : Server δ :=
  s.removeDocument params.textDocument.uri.file

/-- `Server::onEvalDiagnostic` on the controller's state, one whole call. -/
def onEvalDiagnostic (s : Server δ) (diag : Diagnostics δ) : Server δ :=
  { s with
    diagStatus := (receive s.diagStatus diag).1
    published := s.published ++ (receive s.diagStatus diag).2 }

/-! ### What each handler sends, schedules and stores -/

section Frame

variable (s : Server δ) (file : String) (contents : Bytes) (version : String) (fork : ForkOutcome)

@[simp] theorem addDocument_published :
    (s.addDocument file contents version fork).published =
      s.published ++ [⟨⟨file⟩, [], decodeVersion version⟩] := by
  simp [addDocument]

@[simp] theorem addDocument_parses :
    (s.addDocument file contents version fork).parses =
      s.parses ++ [⟨contents, file, (decodeVersion version).getD 0⟩] := by
  simp [addDocument]

@[simp] theorem addDocument_draftMgr :
    (s.addDocument file contents version fork).draftMgr =
      Function.update s.draftMgr file (some ⟨contents, version⟩) := by
  simp [addDocument]

@[simp] theorem addDocument_diagStatus :
    (s.addDocument file contents version fork).diagStatus = s.diagStatus := by
  simp [addDocument]

@[simp] theorem removeDocument_published : (s.removeDocument file).published = s.published :=
  rfl

@[simp] theorem removeDocument_diagStatus : (s.removeDocument file).diagStatus = s.diagStatus :=
  rfl

@[simp] theorem removeDocument_workspaceVersion :
    (s.removeDocument file).workspaceVersion = s.workspaceVersion := rfl

@[simp] theorem removeDocument_parses : (s.removeDocument file).parses = s.parses := rfl

@[simp] theorem removeDocument_draftMgr :
    (s.removeDocument file).draftMgr = Function.update s.draftMgr file none := rfl

@[simp] theorem updateConfig_parses (c : Configuration.TopLevel) (of f : ForkOutcome) :
    (s.updateConfig c of f).parses = s.parses := by
  simp [updateConfig, forkOptionWorker]

@[simp] theorem updateConfig_draftMgr (c : Configuration.TopLevel) (of f : ForkOutcome) :
    (s.updateConfig c of f).draftMgr = s.draftMgr := by
  simp [updateConfig, forkOptionWorker]

@[simp] theorem updateConfig_published (c : Configuration.TopLevel) (of f : ForkOutcome) :
    (s.updateConfig c of f).published = s.published := by
  simp [updateConfig, forkOptionWorker]

@[simp] theorem updateConfig_diagStatus (c : Configuration.TopLevel) (of f : ForkOutcome) :
    (s.updateConfig c of f).diagStatus = s.diagStatus := by
  simp [updateConfig, forkOptionWorker]

@[simp] theorem onEvalDiagnostic_parses (d : Diagnostics δ) :
    (s.onEvalDiagnostic d).parses = s.parses := rfl

@[simp] theorem onEvalDiagnostic_draftMgr (d : Diagnostics δ) :
    (s.onEvalDiagnostic d).draftMgr = s.draftMgr := rfl

@[simp] theorem onEvalDiagnostic_workspaceVersion (d : Diagnostics δ) :
    (s.onEvalDiagnostic d).workspaceVersion = s.workspaceVersion := rfl

end Frame

/-! ### What each handler does to the draft of a path -/

theorem getDraft_addDocument (s : Server δ) (file : String) (contents : Bytes)
    (version : String) (fork : ForkOutcome) (p : String) :
    (s.addDocument file contents version fork).getDraft p =
      if file = p then some contents else s.getDraft p := by
  by_cases h : file = p
  · subst h; simp [addDocument, getDraft]
  · simp [addDocument, getDraft, h, Function.update_noteq (Ne.symm h)]

theorem getDraft_removeDocument (s : Server δ) (file p : String) :
    (s.removeDocument file).getDraft p = if file = p then none else s.getDraft p := by
  by_cases h : file = p
  · subst h; simp [removeDocument, getDraft]
  · simp [removeDocument, getDraft, h, Function.update_noteq (Ne.symm h)]

theorem getDraft_updateConfig (s : Server δ) (c : Configuration.TopLevel)
    (of f : ForkOutcome) (p : String) : (s.updateConfig c of f).getDraft p = s.getDraft p := by
  simp [updateConfig, forkOptionWorker, getDraft]

theorem getDraft_onEvalDiagnostic (s : Server δ) (d : Diagnostics δ) (p : String) :
    (s.onEvalDiagnostic d).getDraft p = s.getDraft p := rfl

/-- The draft after a `didChange`: all of its changes applied to the draft there was, or no
draft. -/
theorem getDraft_onDocumentDidChange (applyChange) (s : Server δ)
    (params : DidChangeTextDocumentParams) (fork : ForkOutcome) (p : String) :
    (s.onDocumentDidChange applyChange params fork).getDraft p =
      if params.textDocument.uri.file = p then
        (s.getDraft p).bind fun code => applyChanges applyChange code params.contentChanges
      else s.getDraft p := by
  unfold onDocumentDidChange
  by_cases h : params.textDocument.uri.file = p
  · subst h
    cases hd : s.getDraft params.textDocument.uri.file with
    | none => simp [hd]
    | some code =>
        cases ha : applyChanges applyChange code params.contentChanges <;>
          simp [hd, ha, getDraft_removeDocument, getDraft_addDocument]
  · rw [if_neg h]
    dsimp only
    split
    · rfl
    · split <;> simp [h, getDraft_removeDocument, getDraft_addDocument]

/-! ### What each handler does to the eval worker pool -/

/-- A call reads only the role, `WaitWorker`, the configuration, the version and the pool,
and writes only the last two. -/
theorem updateWorkspaceVersion_congr {s t : Server δ} (h₁ : s.role = t.role)
    (h₂ : s.waitWorker = t.waitWorker) (h₃ : s.config = t.config)
    (h₄ : s.workspaceVersion = t.workspaceVersion) (h₅ : s.evalWorkers = t.evalWorkers)
    (f : ForkOutcome) :
    (s.updateWorkspaceVersion f).workspaceVersion = (t.updateWorkspaceVersion f).workspaceVersion ∧
      (s.updateWorkspaceVersion f).evalWorkers = (t.updateWorkspaceVersion f).evalWorkers := by
  by_cases hc : t.role = .controller
  · rw [updateWorkspaceVersion_eq (h₁.trans hc), updateWorkspaceVersion_eq hc]
    simp [forkWorker, h₁, h₂, h₃, h₄, h₅]
  · simp [updateWorkspaceVersion, h₁, hc, h₄, h₅]

/-- `addDocument` acts on the workspace version and the eval pool as one call. -/
theorem addDocument_pool (s : Server δ) (file : String) (contents : Bytes) (version : String)
    (fork : ForkOutcome) :
    (s.addDocument file contents version fork).workspaceVersion =
        (s.updateWorkspaceVersion fork).workspaceVersion ∧
      (s.addDocument file contents version fork).evalWorkers =
        (s.updateWorkspaceVersion fork).evalWorkers := by
  simp only [addDocument]
  refine updateWorkspaceVersion_congr ?_ ?_ ?_ ?_ ?_ fork <;> rfl

/-- `updateConfig` acts on the workspace version and the eval pool as one call with the new
configuration. -/
theorem updateConfig_pool (s : Server δ) (c : Configuration.TopLevel) (of f : ForkOutcome) :
    (s.updateConfig c of f).workspaceVersion =
        (({ s with config := c } : Server δ).updateWorkspaceVersion f).workspaceVersion ∧
      (s.updateConfig c of f).evalWorkers =
        (({ s with config := c } : Server δ).updateWorkspaceVersion f).evalWorkers := by
  simp only [updateConfig, forkOptionWorker]
  refine updateWorkspaceVersion_congr ?_ ?_ ?_ ?_ ?_ f <;> rfl

end Server

end Nixd
