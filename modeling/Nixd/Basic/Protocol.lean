import Mathlib.Data.List.Basic

/-!
# Protocol values the controller reads and builds

The parts of `lspserver/Protocol.h` the controller's handlers touch: the file a
`URIForFile` names, positions and ranges, and the parameters of
`textDocument/publishDiagnostics`. A client shows, for each file, the diagnostics of the
last `publishDiagnostics` it received for that file; `lastPublished log u` is that
notification, read off the log of every notification the client received, in order.
-/

namespace Nixd

/-- The bytes of a `std::string` or an `llvm::StringRef`. -/
abbrev Bytes := List UInt8

/-- `lspserver::URIForFile`, which compares by the file it names. -/
structure URIForFile where
  file : String
  deriving DecidableEq, Repr

/-- `lspserver::Position`: a line and a column, both `int`. -/
structure Position where
  line : Int
  character : Int
  deriving DecidableEq, Repr

/-- `lspserver::Range`. -/
structure Range where
  start : Position
  stop : Position
  deriving DecidableEq, Repr

/-- `lspserver::Location`. -/
structure Location where
  uri : URIForFile
  range : Range
  deriving DecidableEq, Repr

/-- `lspserver::TextDocumentItem`: what `didOpen` carries. -/
structure TextDocumentItem where
  uri : URIForFile
  version : Option Int
  text : Bytes
  deriving DecidableEq, Repr

/-- `lspserver::VersionedTextDocumentIdentifier`. -/
structure VersionedTextDocumentIdentifier where
  uri : URIForFile
  version : Option Int
  deriving DecidableEq, Repr

/-- `lspserver::TextDocumentIdentifier`. -/
structure TextDocumentIdentifier where
  uri : URIForFile
  deriving DecidableEq, Repr

/-- `lspserver::TextDocumentContentChangeEvent`: a replacement of `range`, or of the whole
text when there is none. -/
structure TextDocumentContentChangeEvent where
  range : Option Range
  rangeLength : Option Int
  text : Bytes
  deriving DecidableEq, Repr

/-- `lspserver::DidOpenTextDocumentParams`. -/
structure DidOpenTextDocumentParams where
  textDocument : TextDocumentItem
  deriving DecidableEq, Repr

/-- `lspserver::DidChangeTextDocumentParams`. -/
structure DidChangeTextDocumentParams where
  textDocument : VersionedTextDocumentIdentifier
  contentChanges : List TextDocumentContentChangeEvent
  deriving DecidableEq, Repr

/-- `lspserver::DidCloseTextDocumentParams`. -/
structure DidCloseTextDocumentParams where
  textDocument : TextDocumentIdentifier
  deriving DecidableEq, Repr

/-- `lspserver::TextDocumentPositionParams`. -/
structure TextDocumentPositionParams where
  textDocument : TextDocumentIdentifier
  position : Position
  deriving DecidableEq, Repr

/-- `lspserver::CompletionContext`: the character that triggered the completion, if any. -/
structure CompletionContext where
  triggerCharacter : String
  deriving DecidableEq, Repr

/-- `lspserver::CompletionParams`. -/
structure CompletionParams where
  textDocument : TextDocumentIdentifier
  position : Position
  context : CompletionContext
  deriving DecidableEq, Repr

/-- `lspserver::DocumentFormattingParams`. -/
structure DocumentFormattingParams where
  textDocument : TextDocumentIdentifier
  deriving DecidableEq, Repr

/-- `lspserver::TextEdit`. -/
structure TextEdit where
  range : Range
  newText : Bytes
  deriving DecidableEq, Repr

/-- A reply of a handler: `null`, an error, or a value. -/
inductive Reply (α : Type)
  | null
  | error (message : String)
  | value (a : α)
  deriving DecidableEq, Repr

/-- `lspserver::PublishDiagnosticsParams`. The controller never reads a diagnostic, only
moves lists of them, so their type `δ` is left open. -/
structure PublishDiagnosticsParams (δ : Type) where
  uri : URIForFile
  diagnostics : List δ
  version : Option Int

variable {δ : Type}

/-- The last notification of `log` about the file `u`: what the client shows for `u`. -/
def lastPublished (log : List (PublishDiagnosticsParams δ)) (u : URIForFile) :
    Option (PublishDiagnosticsParams δ) :=
  (log.filter (·.uri = u)).getLast?

/-- The client shows no diagnostics for a file: the last notification about it carried an
empty list. -/
def Cleared (o : Option (PublishDiagnosticsParams δ)) : Prop :=
  ∃ p, o = some p ∧ p.diagnostics = []

@[simp] theorem lastPublished_nil (u : URIForFile) :
    lastPublished ([] : List (PublishDiagnosticsParams δ)) u = none := rfl

/-- A later notification about `u` hides every earlier one. -/
@[simp] theorem lastPublished_append (l₁ l₂ : List (PublishDiagnosticsParams δ))
    (u : URIForFile) :
    lastPublished (l₁ ++ l₂) u = (lastPublished l₂ u).or (lastPublished l₁ u) := by
  simp [lastPublished, List.filter_append, List.getLast?_append]

theorem lastPublished_cons (p : PublishDiagnosticsParams δ)
    (l : List (PublishDiagnosticsParams δ)) (u : URIForFile) :
    lastPublished (p :: l) u =
      (lastPublished l u).or (if p.uri = u then some p else none) := by
  rw [← List.singleton_append, lastPublished_append]
  by_cases h : p.uri = u <;> simp [lastPublished, h]

theorem lastPublished_eq_none_iff (l : List (PublishDiagnosticsParams δ))
    (u : URIForFile) :
    lastPublished l u = none ↔ u ∉ l.map (·.uri) := by
  simp [lastPublished, List.filter_eq_nil_iff]

/-- A file named in the later part of a log shows what that part last said about it. -/
theorem lastPublished_append_of_mem {l₂ : List (PublishDiagnosticsParams δ)} {u : URIForFile}
    (h : u ∈ l₂.map (·.uri)) (l₁ : List (PublishDiagnosticsParams δ)) :
    lastPublished (l₁ ++ l₂) u = lastPublished l₂ u := by
  rw [lastPublished_append]
  cases hl : lastPublished l₂ u with
  | none => exact absurd h ((lastPublished_eq_none_iff _ _).mp hl)
  | some q => rfl

theorem lastPublished_uri {l : List (PublishDiagnosticsParams δ)} {u : URIForFile}
    {p : PublishDiagnosticsParams δ} (h : lastPublished l u = some p) : p.uri = u := by
  have hp : p ∈ l.filter (·.uri = u) := List.mem_of_getLast?_eq_some h
  simpa using (List.mem_filter.mp hp).2

@[simp] theorem cleared_some (p : PublishDiagnosticsParams δ) :
    Cleared (some p) ↔ p.diagnostics = [] := by
  simp [Cleared]

@[simp] theorem not_cleared_none : ¬ Cleared (none : Option (PublishDiagnosticsParams δ)) := by
  simp [Cleared]

end Nixd
