import Nixd.Server.Run
import Nixd.Diagnostic.Channel

/-!
# The client's diagnostics along runs of the controller

`Diagnostic/Channel.lean` says what the client sees under any interleaving of worker
batches with the clears `addDocument` sends; the handlers of `Server/Document.lean` are
the code that makes those steps. On the diagnostics side a notification is no step at all
(`removeDocument`, `updateConfig`), one clear (`addDocument`), or one whole call of
`onEvalDiagnostic` (a worker's batch). So every run of the controller is a run of the
channel, and a controller started with no batch published keeps its client consistent with
`DiagStatus` after every run.
-/

namespace Nixd

variable {δ : Type}

namespace Server

/-- The diagnostics side of the controller between two notifications: nothing pending. -/
def diagChannel (s : Server δ) : DiagChannel δ := ⟨s.diagStatus, s.published, []⟩

theorem diagChannel_fresh (waitWorker : Int) (config : Configuration.TopLevel)
    (workspaceVersion diagVersion : Nat) :
    (fresh (δ := δ) waitWorker config workspaceVersion diagVersion).diagChannel =
      DiagChannel.init diagVersion :=
  rfl

variable (applyChange : Bytes → TextDocumentContentChangeEvent → Option Bytes)

/-- One notification is a run of the channel: no step, a clear, or a whole call. -/
theorem reaches_step (s : Server δ) (e : Event δ) :
    Relation.ReflTransGen DiagStep s.diagChannel (s.step applyChange e).diagChannel := by
  rcases step_cases applyChange s e with h | ⟨file, h⟩ | ⟨file, contents, version, fork, h⟩ |
    ⟨c, of, f, -, h⟩ | ⟨d, h⟩
  · rw [h]
  · rw [h]
    exact .refl
  · rw [h, show (s.addDocument file contents version fork).diagChannel =
      ⟨s.diagStatus, s.published ++ [⟨⟨file⟩, [], decodeVersion version⟩], []⟩ by
        simp [diagChannel]]
    exact .single (DiagStep.clear s.diagChannel ⟨file⟩ (decodeVersion version))
  · rw [h, show (s.updateConfig c of f).diagChannel = s.diagChannel by simp [diagChannel]]
  · rw [h]
    exact DiagChannel.reaches_call rfl d

theorem reaches_run (s : Server δ) (evs : List (Event δ)) :
    Relation.ReflTransGen DiagStep s.diagChannel (run applyChange s evs).diagChannel := by
  induction evs generalizing s with
  | nil => exact .refl
  | cons e evs ih => exact (reaches_step applyChange s e).trans (ih _)

/-- Every run of the controller's handlers is, on the diagnostics side, a run of the
channel. So for a controller started with no batch published, after any notifications and
batches, every file shows nothing, an empty list, or its last entry in `DiagStatus`. -/
theorem client_consistent_after_run :
    (∀ (s : Server δ) (evs : List (Event δ)),
      Relation.ReflTransGen DiagStep s.diagChannel (run applyChange s evs).diagChannel) ∧
    ∀ (waitWorker : Int) (config : Configuration.TopLevel) (workspaceVersion diagVersion : Nat)
      (evs : List (Event δ)) (u : URIForFile),
      lastPublished (run applyChange (fresh waitWorker config workspaceVersion diagVersion)
          evs).published u =
          lastPublished (run applyChange (fresh waitWorker config workspaceVersion diagVersion)
            evs).diagStatus.clientDiags u ∨
        Cleared (lastPublished (run applyChange (fresh waitWorker config workspaceVersion
          diagVersion) evs).published u) := by
  refine ⟨reaches_run applyChange, fun waitWorker config workspaceVersion diagVersion evs u => ?_⟩
  have hr := reaches_run applyChange (fresh waitWorker config workspaceVersion diagVersion) evs
  rw [diagChannel_fresh] at hr
  simpa [DiagChannel.Inv, diagChannel] using DiagChannel.inv_of_reachable hr u

end Server

end Nixd
