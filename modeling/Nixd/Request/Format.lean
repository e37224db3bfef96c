import Nixd.Server.Run
import Nixd.Request.Declaration

/-!
# Formatting through an external command

`onFormat` posts a task that pipes the draft to `Config.formatting.command` inside a
`std::async`, reads the command's stdout with `std::getline(From, Buf, {})` up to end of
file, waits for the command, and gives the future one second. The reply is one edit over
the whole document when the future is ready with a value, and the error
"no formatting response received" otherwise. The command is outside the program: what it
does on a text is the parameter `formatter`, its outcome the data `FormatterOutcome`. The
exit status `Fmt.wait()` collects is part of that data and the code never reads it, and
the `getline` loop drops every NUL byte of the output.
-/

namespace Nixd

variable {δ : Type}

/-- What the body of the future meets: `bp::child` throws (the command cannot be started),
or the command runs, writes `stdout` and exits with `exitStatus`. -/
inductive FormatterRun
  | failed
  | exited (stdout : Bytes) (exitStatus : Int)
  deriving DecidableEq, Repr

/-- The command's outcome on one text: how it runs, and whether the future is ready within
the second `wait_for` allows. -/
structure FormatterOutcome where
  run : FormatterRun
  ready : Bool
  deriving DecidableEq, Repr

/-- The read loop. Each `std::getline(From, Buf, {})` takes the bytes up to the next NUL,
which it extracts and drops, or up to the end of the output, and the piece is appended to
`FormattedCode`: byte by byte, a NUL is dropped and any other byte appended. -/
def readLoop : Bytes → Bytes → Bytes
  | [], formattedCode => formattedCode
  | b :: rest, formattedCode => readLoop rest (if b = 0 then formattedCode else formattedCode ++ [b])

/-- The loop keeps the output without its NUL bytes. -/
theorem readLoop_eq (out formattedCode : Bytes) :
    readLoop out formattedCode = formattedCode ++ out.filter (· ≠ 0) := by
  induction out generalizing formattedCode with
  | nil => simp [readLoop]
  | cons b out ih => by_cases hb : b = 0 <;> simp [readLoop, ih, hb]

/-- The value of the future: `std::nullopt` when the command cannot be started, the text
read otherwise, whatever the exit status. -/
def formatFuture : FormatterRun → Option Bytes
  | .failed => none
  | .exited stdout _ => some (readLoop stdout [])

/-- `INT_MAX`. -/
def intMax : Int := 2 ^ 31 - 1

/-- The range of the edit, `{{0, 0}, {INT_MAX, INT_MAX}}`: the whole document. -/
def fullDocument : Range := ⟨⟨0, 0⟩, ⟨intMax, intMax⟩⟩

/-- The task `onFormat` posts, run on the state `s` of the moment it runs. -/
def onFormatTask (formatter : String → Bytes → FormatterOutcome) (s : Server δ)
    (params : DocumentFormattingParams) : Except Fault (Except String (List TextEdit)) := do
  let code ← deref (s.getDraft params.textDocument.uri.file)
  let outcome := formatter s.config.formatting.command code
  let formattedCode := if outcome.ready then formatFuture outcome.run else none
  pure <| match formattedCode with
    | some f => .ok [⟨fullDocument, f⟩]
    | none => .error "no formatting response received"

section Reply

variable (formatter : String → Bytes → FormatterOutcome) {s : Server δ}
  {params : DocumentFormattingParams}

theorem onFormatTask_of_getDraft_none (h : s.getDraft params.textDocument.uri.file = none) :
    onFormatTask formatter s params = .error .nullDeref := by
  simp [onFormatTask, h]

/-- For a file with a draft: one edit over the whole document when the command started and
was done within the second, whatever its exit status, carrying its output (all of it when
the output holds no NUL byte); the error when it could not start or was not done in time. -/
theorem onFormatTask_reply {code : Bytes} (h : s.getDraft params.textDocument.uri.file = some code) :
    (∀ stdout exitStatus,
      (formatter s.config.formatting.command code).run = .exited stdout exitStatus →
      (formatter s.config.formatting.command code).ready = true → 0 ∉ stdout →
      onFormatTask formatter s params = .ok (.ok [⟨fullDocument, stdout⟩])) ∧
    ((formatter s.config.formatting.command code).run = .failed ∨
      (formatter s.config.formatting.command code).ready = false →
      onFormatTask formatter s params = .ok (.error "no formatting response received")) := by
  constructor
  · intro stdout exitStatus hrun hready hnul
    simp [onFormatTask, h, hrun, hready, formatFuture, readLoop_eq]
    exact fun b hb h0 => hnul (h0 ▸ hb)
  · rintro (hrun | hready) <;> simp [onFormatTask, h, formatFuture, *]

end Reply

/-- `a.nix` holding `x` on a fresh controller, and a formatter that prints `x` and exits with
status `1` within the second: the document is replaced by the output. -/
theorem onFormatTask_reply_nonzero_status :
    let s : Server Unit := (Server.fresh (δ := Unit) 0 ⟨⟨0, by decide⟩, ⟨false⟩, ⟨"nixfmt"⟩⟩ 0 0).onDocumentDidOpen
      ⟨⟨⟨"a.nix"⟩, some 1, [120]⟩⟩ .failed
    s.getDraft "a.nix" = some [120] ∧
      onFormatTask (fun _ _ => ⟨.exited [120] 1, true⟩) s ⟨⟨⟨"a.nix"⟩⟩⟩ =
        .ok (.ok [⟨fullDocument, [120]⟩]) := by
  intro s
  exact ⟨rfl, (onFormatTask_reply _ (show s.getDraft
    (⟨⟨⟨"a.nix"⟩⟩⟩ : DocumentFormattingParams).textDocument.uri.file = some [120] from rfl)).1
    [120] 1 rfl rfl (by decide)⟩

/-- `a.nix` holding `x = 1;`: a formatter that prints nothing and exits with status `1`
within the second gets an edit that empties the document, and one that prints `x`, NUL,
`y` and exits with status `0` gets an edit whose text lacks the NUL. -/
theorem onFormatTask_status_ignored :
    let s : Server Unit := (Server.fresh (δ := Unit) 0 ⟨⟨0, by decide⟩, ⟨false⟩, ⟨"nixfmt"⟩⟩ 0 0).onDocumentDidOpen
      ⟨⟨⟨"a.nix"⟩, some 1, [120, 32, 61, 32, 49, 59]⟩⟩ .failed
    onFormatTask (fun _ _ => ⟨.exited [] 1, true⟩) s ⟨⟨⟨"a.nix"⟩⟩⟩ = .ok (.ok [⟨fullDocument, []⟩]) ∧
      onFormatTask (fun _ _ => ⟨.exited [120, 0, 121] 0, true⟩) s ⟨⟨⟨"a.nix"⟩⟩⟩ =
        .ok (.ok [⟨fullDocument, [120, 121]⟩]) :=
  ⟨rfl, rfl⟩

/-- `a.nix` opened and closed on a fresh controller with options enabled: the formatting task
and the declaration task for it dereference the dropped draft. -/
theorem onFormat_after_close :
    let s : Server Unit := Server.run (fun _ c => some c.text)
      (Server.fresh (δ := Unit) 0 ⟨⟨0, by decide⟩, ⟨true⟩, ⟨"nixfmt"⟩⟩ 0 0)
      [.didOpen ⟨⟨⟨"a.nix"⟩, some 1, [97]⟩⟩ .failed, .didClose ⟨⟨⟨"a.nix"⟩⟩⟩]
    s.config.options.enable = true ∧
      onFormatTask (fun _ _ => ⟨.exited [97] 0, true⟩) s ⟨⟨⟨"a.nix"⟩⟩⟩ = .error .nullDeref ∧
      onDecalration (fun _ _ => .ok 0) (fun _ => []) s s ⟨⟨⟨"a.nix"⟩⟩, ⟨0, 0⟩⟩ = .error .nullDeref := by
  intro s
  have hclosed : s.draftMgr "a.nix" = none := rfl
  have henable : s.config.options.enable = true := rfl
  refine ⟨henable, onFormatTask_of_getDraft_none _ (by simp [Server.getDraft, hclosed]), ?_⟩
  rw [onDecalration, if_pos henable]
  exact onDecalrationTask_of_draftMgr_none _ _ hclosed

end Nixd
