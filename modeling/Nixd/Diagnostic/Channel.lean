import Nixd.Diagnostic.Status
import Mathlib.Logic.Relation

/-!
# Worker diagnostics interleaved with the clears of document edits

`onEvalDiagnostic` runs on the input thread of each worker and holds `DiagStatusLock` from
its version check to its last notification, so the calls of different workers never
overlap. `addDocument` runs on the transport thread and sends its clear without taking the
lock: the clear may land before, after or between the notifications of a call.
`DiagChannel` holds `DiagStatus`, every notification the client received, and the
notifications the call holding the lock has still to send; `DiagStep` is one atomic action
of one thread. The client stays consistent with `DiagStatus` in every reachable state once
the pending notifications are counted as sent, hence at every point between calls.
-/

namespace Nixd

variable {δ : Type}

/-- The diagnostics side of the controller: `DiagStatus`, what the client received, and
what the call holding `DiagStatusLock` has still to send. -/
structure DiagChannel (δ : Type) where
  diagStatus : DiagnosticStatus δ
  sent : List (PublishDiagnosticsParams δ)
  pending : List (PublishDiagnosticsParams δ)

/-- The controller before any batch: `DiagStatus` at version `v` with no batch, nothing
sent. -/
def DiagChannel.init (v : Nat) : DiagChannel δ := ⟨⟨v, []⟩, [], []⟩

/-- One atomic action of a worker's input thread or of the transport thread. -/
inductive DiagStep : DiagChannel δ → DiagChannel δ → Prop
  /-- A worker's thread takes the free lock and runs the check and the update of
  `onEvalDiagnostic`; its notifications are now to be sent. -/
  | receive (c : DiagChannel δ) (diag : Diagnostics δ) :
      c.pending = [] →
      DiagStep c ⟨(receive c.diagStatus diag).1, c.sent, (receive c.diagStatus diag).2⟩
  /-- The thread holding the lock sends its next notification. -/
  | publish (c : DiagChannel δ) (p : PublishDiagnosticsParams δ) (rest) :
      c.pending = p :: rest → DiagStep c ⟨c.diagStatus, c.sent ++ [p], rest⟩
  /-- `addDocument` sends its clear for an edited file, lock or no lock. -/
  | clear (c : DiagChannel δ) (uri : URIForFile) (version : Option Int) :
      DiagStep c ⟨c.diagStatus, c.sent ++ [⟨uri, [], version⟩], c.pending⟩

namespace DiagChannel

/-- The invariant: the client, once sent what is pending, is consistent with the status. -/
def Inv (c : DiagChannel δ) : Prop := Consistent c.diagStatus (c.sent ++ c.pending)

theorem inv_init (v : Nat) : Inv (init (δ := δ) v) := consistent_nil v

theorem inv_step {c c' : DiagChannel δ} (h : Inv c) (hs : DiagStep c c') : Inv c' := by
  cases hs with
  | receive diag hp =>
      have hc : Consistent c.diagStatus c.sent := by simpa [Inv, hp] using h
      simpa [Inv] using hc.receive diag
  | publish p rest hp =>
      simpa [Inv, hp] using h
  | clear uri version =>
      simpa [Inv] using Consistent.insert_cleared h (p := ⟨uri, [], version⟩) rfl

theorem inv_of_reachable {v : Nat} {c : DiagChannel δ}
    (hr : Relation.ReflTransGen DiagStep (init v) c) : Inv c := by
  induction hr with
  | refl => exact inv_init v
  | tail _ hs ih => exact inv_step ih hs

/-- Between calls of `onEvalDiagnostic`, in every run from the start, under every
interleaving of worker batches with the clears of `addDocument`: a file the status does
not name shows nothing or an empty list, and a file it names shows its last entry in the
status or an empty list. -/
theorem client_consistent_between_calls (v : Nat) (c : DiagChannel δ)
    (hr : Relation.ReflTransGen DiagStep (init v) c) (hp : c.pending = []) :
    ∀ u, (u ∉ c.diagStatus.clientDiags.map (·.uri) →
        lastPublished c.sent u = none ∨ Cleared (lastPublished c.sent u)) ∧
      (u ∈ c.diagStatus.clientDiags.map (·.uri) →
        lastPublished c.sent u = lastPublished c.diagStatus.clientDiags u ∨
          Cleared (lastPublished c.sent u)) := by
  intro u
  have hu := inv_of_reachable hr u
  rw [hp, List.append_nil] at hu
  refine ⟨fun hn => ?_, fun _ => hu⟩
  rwa [(lastPublished_eq_none_iff _ _).mpr hn] at hu

/-- A batch naming `a.nix` and `b.nix` is accepted; its first notification is sent, then
`addDocument` clears `a.nix` without the lock, then the batch's second notification is sent.
Between calls, `a.nix` shows an empty list and `b.nix` its entry in the status. -/
theorem client_consistent_between_calls_interleaved :
    let c : DiagChannel Unit := ⟨⟨1, [⟨⟨"a.nix"⟩, [()], none⟩, ⟨⟨"b.nix"⟩, [()], none⟩]⟩,
      [⟨⟨"a.nix"⟩, [()], none⟩, ⟨⟨"a.nix"⟩, [], some 2⟩, ⟨⟨"b.nix"⟩, [()], none⟩], []⟩
    Relation.ReflTransGen DiagStep (init 0) c ∧ c.pending = [] ∧
      ∀ u, (u ∉ c.diagStatus.clientDiags.map (·.uri) →
          lastPublished c.sent u = none ∨ Cleared (lastPublished c.sent u)) ∧
        (u ∈ c.diagStatus.clientDiags.map (·.uri) →
          lastPublished c.sent u = lastPublished c.diagStatus.clientDiags u ∨
            Cleared (lastPublished c.sent u)) := by
  intro c
  have hr : Relation.ReflTransGen DiagStep (init 0) c :=
    .head (DiagStep.receive _ ⟨1, c.diagStatus.clientDiags⟩ rfl) <|
      .head (DiagStep.publish _ ⟨⟨"a.nix"⟩, [()], none⟩ [⟨⟨"b.nix"⟩, [()], none⟩] rfl) <|
        .head (DiagStep.clear _ ⟨"a.nix"⟩ (some 2)) <|
          .head (DiagStep.publish _ ⟨⟨"b.nix"⟩, [()], none⟩ [] rfl) .refl
  exact ⟨hr, rfl, client_consistent_between_calls 0 c hr rfl⟩

/-- A whole call of `onEvalDiagnostic` made at once, between two others. -/
def call (c : DiagChannel δ) (diag : Diagnostics δ) : DiagChannel δ :=
  ⟨(receive c.diagStatus diag).1, c.sent ++ (receive c.diagStatus diag).2, c.pending⟩

theorem reaches_publish_all (st : DiagnosticStatus δ) :
    ∀ (sent ps : List (PublishDiagnosticsParams δ)),
      Relation.ReflTransGen DiagStep ⟨st, sent, ps⟩ ⟨st, sent ++ ps, []⟩
  | sent, [] => by simpa using Relation.ReflTransGen.refl
  | sent, p :: ps => by
      have hrest := reaches_publish_all st (sent ++ [p]) ps
      rw [List.append_assoc, List.singleton_append] at hrest
      exact .head (DiagStep.publish ⟨st, sent, p :: ps⟩ p ps rfl) hrest

/-- A call made at once is a run of `DiagStep`: the lock is taken, then every
notification is sent before any other call starts. -/
theorem reaches_call {c : DiagChannel δ} (hp : c.pending = []) (diag : Diagnostics δ) :
    Relation.ReflTransGen DiagStep c (call c diag) := by
  have hc : call c diag = ⟨(receive c.diagStatus diag).1,
      c.sent ++ (receive c.diagStatus diag).2, []⟩ := by simp [call, hp]
  rw [hc]
  exact .head (DiagStep.receive c diag hp) (reaches_publish_all _ _ _)

end DiagChannel

end Nixd
