import Nixd.Basic.Protocol

/-!
# Diagnostics published from the evaluation workers

Each evaluation worker sends the controller its diagnostics over IPC, tagged with the
`WorkspaceVersion` of the snapshot it was forked from. `onEvalDiagnostic` runs under
`DiagStatusLock`: it drops a batch older than the one last published, and otherwise clears
every file of the last batch before publishing the new one. `Consistent status log` is
what this buys the client: for every file, the last notification it received is either the
status's own last entry for that file or an empty list. It is stated here with the two
ways a notification reaches the log, a whole accepted batch and a single clear, so that the
runs of `Diagnostic/Channel.lean` and `Diagnostic/Order.lean` only chain these lemmas.
-/

namespace Nixd

variable {δ : Type}

/-- `ipc::Diagnostics`: the diagnostics one evaluation worker computed, tagged with the
`WorkspaceVersion` of its snapshot. -/
structure Diagnostics (δ : Type) where
  workspaceVersion : Nat
  params : List (PublishDiagnosticsParams δ)

/-- `Server::DiagnosticStatus`: the version and the notifications of the last batch that
was published. -/
structure DiagnosticStatus (δ : Type) where
  workspaceVersion : Nat
  clientDiags : List (PublishDiagnosticsParams δ)

/-- `Server::clearDiagnostic`: an empty list of diagnostics for `fileUri`. -/
def clearDiagnostic (fileUri : URIForFile) : PublishDiagnosticsParams δ :=
  { uri := fileUri, diagnostics := [], version := none }

@[simp] theorem clearDiagnostic_uri (u : URIForFile) :
    (clearDiagnostic (δ := δ) u).uri = u := rfl

@[simp] theorem clearDiagnostic_diagnostics (u : URIForFile) :
    (clearDiagnostic (δ := δ) u).diagnostics = [] := rfl

/-- `Server::onEvalDiagnostic`, whose body runs under `DiagStatusLock`. `none` is the early
return for an outdated batch; otherwise the new status and the notifications sent, in
order: a clear for every entry of the previous batch, then the new batch. -/
def onEvalDiagnostic (diagStatus : DiagnosticStatus δ) (diag : Diagnostics δ) :
    Option (DiagnosticStatus δ × List (PublishDiagnosticsParams δ)) :=
  if diagStatus.workspaceVersion > diag.workspaceVersion then none
  else some ({ workspaceVersion := diag.workspaceVersion, clientDiags := diag.params },
    diagStatus.clientDiags.map (fun d => clearDiagnostic d.uri) ++ diag.params)

/-- The status after a call of `onEvalDiagnostic`, and what it sent, whichever way the
call returned. -/
def receive (diagStatus : DiagnosticStatus δ) (diag : Diagnostics δ) :
    DiagnosticStatus δ × List (PublishDiagnosticsParams δ) :=
  (onEvalDiagnostic diagStatus diag).getD (diagStatus, [])

theorem onEvalDiagnostic_eq_none_iff (st : DiagnosticStatus δ) (d : Diagnostics δ) :
    onEvalDiagnostic st d = none ↔ d.workspaceVersion < st.workspaceVersion := by
  unfold onEvalDiagnostic
  split <;> simp_all

/-- Everything an accepted batch does: it is not outdated, it becomes the status, and the
client is sent the clears of the previous batch followed by the batch. -/
theorem onEvalDiagnostic_eq_some_iff {st st' : DiagnosticStatus δ} {d : Diagnostics δ}
    {sent : List (PublishDiagnosticsParams δ)} :
    onEvalDiagnostic st (δ := δ) d = some (st', sent) ↔
      st.workspaceVersion ≤ d.workspaceVersion ∧
        st' = ⟨d.workspaceVersion, d.params⟩ ∧
        sent = st.clientDiags.map (fun p => clearDiagnostic p.uri) ++ d.params := by
  unfold onEvalDiagnostic
  split
  · simp only [reduceCtorEq, false_iff, not_and]
    omega
  · simp only [Option.some.injEq, Prod.mk.injEq]
    constructor
    · rintro ⟨rfl, rfl⟩
      exact ⟨by omega, rfl, rfl⟩
    · rintro ⟨-, rfl, rfl⟩
      exact ⟨rfl, rfl⟩

/-- The clears of a batch show an empty list for exactly the files the batch names. -/
theorem lastPublished_map_clearDiagnostic (l : List (PublishDiagnosticsParams δ))
    (u : URIForFile) :
    lastPublished (l.map fun p => clearDiagnostic (δ := δ) p.uri) u =
      if u ∈ l.map (·.uri) then some (clearDiagnostic u) else none := by
  induction l with
  | nil => simp
  | cons p l ih =>
      rw [List.map_cons, lastPublished_cons, ih]
      by_cases hp : p.uri = u
      · subst hp
        by_cases hu : p.uri ∈ l.map (·.uri) <;> simp [hu]
      · by_cases hu : u ∈ l.map (·.uri) <;> simp [hp, Ne.symm hp, hu]

/-- For every file, the last notification the client received is the status's last entry
for that file (so nothing at all for a file the status does not name) or an empty list. -/
def Consistent (diagStatus : DiagnosticStatus δ) (log : List (PublishDiagnosticsParams δ)) :
    Prop :=
  ∀ u, lastPublished log u = lastPublished diagStatus.clientDiags u ∨
    Cleared (lastPublished log u)

theorem consistent_nil (v : Nat) :
    Consistent (⟨v, []⟩ : DiagnosticStatus δ) [] := fun _ => .inl rfl

/-- A notification with an empty list, wherever it lands in the log, keeps the client
consistent. -/
theorem Consistent.insert_cleared {st : DiagnosticStatus δ}
    {l₁ l₂ : List (PublishDiagnosticsParams δ)} (h : Consistent st (l₁ ++ l₂))
    {p : PublishDiagnosticsParams δ} (hp : p.diagnostics = []) :
    Consistent st (l₁ ++ p :: l₂) := by
  intro u
  have hu := h u
  rw [lastPublished_append] at hu
  rw [← List.singleton_append, ← List.append_assoc, lastPublished_append,
    lastPublished_append, lastPublished_cons]
  cases hl : lastPublished l₂ u with
  | some q => simpa [hl] using hu
  | none =>
      by_cases hpu : p.uri = u
      · simp [hpu, hp]
      · simpa [hl, hpu] using hu

/-- An accepted batch keeps the client consistent with the new status. -/
theorem Consistent.onEvalDiagnostic {st st' : DiagnosticStatus δ}
    {log sent : List (PublishDiagnosticsParams δ)} (h : Consistent st log)
    {d : Diagnostics δ} (hd : onEvalDiagnostic st d = some (st', sent)) :
    Consistent st' (log ++ sent) := by
  obtain ⟨-, rfl, rfl⟩ := onEvalDiagnostic_eq_some_iff.mp hd
  intro u
  rw [lastPublished_append, lastPublished_append, lastPublished_map_clearDiagnostic]
  cases hp : lastPublished d.params u with
  | some q => simp [hp]
  | none =>
      by_cases hu : u ∈ st.clientDiags.map (·.uri)
      · simp [hu]
      · have hnone := (lastPublished_eq_none_iff _ _).mpr hu
        simpa [hu, hp, hnone] using h u

/-- A call of `onEvalDiagnostic`, whichever way it returns, keeps the client consistent. -/
theorem Consistent.receive {st : DiagnosticStatus δ} {log : List (PublishDiagnosticsParams δ)}
    (h : Consistent st log) (d : Diagnostics δ) :
    Consistent (receive st d).1 (log ++ (receive st d).2) := by
  cases hd : Nixd.onEvalDiagnostic st d with
  | none => simpa [Nixd.receive, hd] using h
  | some r => simpa [Nixd.receive, hd] using h.onEvalDiagnostic hd

end Nixd
