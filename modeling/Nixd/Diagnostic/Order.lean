import Nixd.Diagnostic.Channel
import Mathlib.Data.List.Sort
import Mathlib.Data.List.Perm.Basic

/-!
# The order in which worker batches arrive

The calls of `onEvalDiagnostic` are serialised by `DiagStatusLock`, so the workers' batches
are received in some order, one whole call at a time. Whatever the order, the status
version never decreases, the batches that get published come in non-decreasing version
order, and the status version is the greatest one published so far. When the versions are
pairwise distinct, the order does not matter at all: the batch of greatest version is
accepted wherever it arrives and every batch after it is dropped.
-/

namespace Nixd

variable {δ : Type}

/-- The status after receiving the batches `ds` in order. -/
def receiveAll (st : DiagnosticStatus δ) (ds : List (Diagnostics δ)) : DiagnosticStatus δ :=
  ds.foldl (fun st d => (receive st d).1) st

/-- The batches of `ds` that `onEvalDiagnostic` publishes, in order, from the status `st`. -/
def published : DiagnosticStatus δ → List (Diagnostics δ) → List (Diagnostics δ)
  | _, [] => []
  | st, d :: ds =>
      match onEvalDiagnostic st d with
      | none => published st ds
      | some (st', _) => d :: published st' ds

@[simp] theorem receiveAll_nil (st : DiagnosticStatus δ) : receiveAll st [] = st := rfl

theorem receive_of_none {st : DiagnosticStatus δ} {d : Diagnostics δ}
    (h : onEvalDiagnostic st d = none) : receive st d = (st, []) := by
  simp [receive, h]

theorem receive_of_some {st st' : DiagnosticStatus δ} {d : Diagnostics δ} {sent}
    (h : onEvalDiagnostic st d = some (st', sent)) : receive st d = (st', sent) := by
  simp [receive, h]

theorem receiveAll_le {st : DiagnosticStatus δ} {ds : List (Diagnostics δ)} {b : Nat}
    (hst : st.workspaceVersion ≤ b) (hds : ∀ d ∈ ds, d.workspaceVersion ≤ b) :
    (receiveAll st ds).workspaceVersion ≤ b := by
  induction ds generalizing st with
  | nil => simpa using hst
  | cons d ds ih =>
      refine ih ?_ fun e he => hds e (List.mem_cons_of_mem d he)
      cases h : onEvalDiagnostic st d with
      | none => simpa [receive_of_none h] using hst
      | some r =>
          obtain ⟨st', sent⟩ := r
          obtain ⟨-, rfl, -⟩ := onEvalDiagnostic_eq_some_iff.mp h
          simpa [receive_of_some h] using hds d (List.mem_cons_self d ds)

/-! ### Runs of whole calls on the channel -/

theorem foldl_call_diagStatus (c : DiagChannel δ) (ds : List (Diagnostics δ)) :
    (ds.foldl DiagChannel.call c).diagStatus = receiveAll c.diagStatus ds := by
  induction ds generalizing c with
  | nil => rfl
  | cons d ds ih => exact ih _

theorem Consistent.foldl_call {c : DiagChannel δ} (h : Consistent c.diagStatus c.sent)
    (ds : List (Diagnostics δ)) :
    Consistent (ds.foldl DiagChannel.call c).diagStatus (ds.foldl DiagChannel.call c).sent := by
  induction ds generalizing c with
  | nil => exact h
  | cons d ds ih => exact ih (h.receive d)

/-- Batches all older than the status change nothing. -/
theorem foldl_call_of_outdated {c : DiagChannel δ} {ds : List (Diagnostics δ)}
    (h : ∀ d ∈ ds, d.workspaceVersion < c.diagStatus.workspaceVersion) :
    ds.foldl DiagChannel.call c = c := by
  induction ds with
  | nil => rfl
  | cons d ds ih =>
      have hd := (onEvalDiagnostic_eq_none_iff _ _).mpr (h d (List.mem_cons_self d ds))
      have hc : DiagChannel.call c d = c := by simp [DiagChannel.call, receive_of_none hd]
      rw [List.foldl_cons, hc]
      exact ih fun e he => h e (List.mem_cons_of_mem d he)

/-- The last batch `g` of greatest version, not older than the status, decides the end of
the run: it is accepted where it arrives, the batches after it are dropped, and every file
shows its last entry in `g`, or, for a file `g` does not name, nothing or an empty list. -/
theorem foldl_call_last_greatest {c : DiagChannel δ} (hc : Consistent c.diagStatus c.sent)
    {pre post : List (Diagnostics δ)} {g : Diagnostics δ}
    (hge : c.diagStatus.workspaceVersion ≤ g.workspaceVersion)
    (hpre : ∀ d ∈ pre, d.workspaceVersion ≤ g.workspaceVersion)
    (hpost : ∀ d ∈ post, d.workspaceVersion < g.workspaceVersion) :
    ((pre ++ g :: post).foldl DiagChannel.call c).diagStatus = ⟨g.workspaceVersion, g.params⟩ ∧
      ∀ u, lastPublished ((pre ++ g :: post).foldl DiagChannel.call c).sent u =
          lastPublished g.params u ∨
        (u ∉ g.params.map (·.uri) ∧
          Cleared (lastPublished ((pre ++ g :: post).foldl DiagChannel.call c).sent u)) := by
  have hacc : onEvalDiagnostic (pre.foldl DiagChannel.call c).diagStatus g =
      some (⟨g.workspaceVersion, g.params⟩,
        (pre.foldl DiagChannel.call c).diagStatus.clientDiags.map
          (fun p => clearDiagnostic p.uri) ++ g.params) := by
    refine onEvalDiagnostic_eq_some_iff.mpr ⟨?_, rfl, rfl⟩
    rw [foldl_call_diagStatus]
    exact receiveAll_le hge hpre
  have hdrop : ∀ d ∈ post, d.workspaceVersion <
      (DiagChannel.call (pre.foldl DiagChannel.call c) g).diagStatus.workspaceVersion := by
    simpa [DiagChannel.call, receive_of_some hacc] using hpost
  rw [List.foldl_append, List.foldl_cons, foldl_call_of_outdated hdrop]
  have hcons := (hc.foldl_call pre).receive g
  rw [receive_of_some hacc] at hcons
  refine ⟨by simp [DiagChannel.call, receive_of_some hacc], fun u => ?_⟩
  simp only [DiagChannel.call, receive_of_some hacc]
  by_cases hu : u ∈ g.params.map (·.uri)
  · exact .inl (by rw [← List.append_assoc, lastPublished_append_of_mem hu])
  · exact (hcons u).imp_right fun h => ⟨hu, h⟩

/-- With pairwise distinct versions, none below the status, the batch `g` of greatest
version decides the end of the run: it is accepted where it arrives, the batches after it
are dropped, and every file shows its last entry in `g`, or, for a file `g` does not name,
nothing or an empty list. -/
theorem foldl_call_greatest {c : DiagChannel δ} (hc : Consistent c.diagStatus c.sent)
    {ds : List (Diagnostics δ)} (hnd : (ds.map (·.workspaceVersion)).Nodup)
    (hge : ∀ d ∈ ds, c.diagStatus.workspaceVersion ≤ d.workspaceVersion)
    {g : Diagnostics δ} (hg : g ∈ ds)
    (hmax : ∀ d ∈ ds, d.workspaceVersion ≤ g.workspaceVersion) :
    (ds.foldl DiagChannel.call c).diagStatus = ⟨g.workspaceVersion, g.params⟩ ∧
      ∀ u, lastPublished (ds.foldl DiagChannel.call c).sent u = lastPublished g.params u ∨
        (u ∉ g.params.map (·.uri) ∧
          Cleared (lastPublished (ds.foldl DiagChannel.call c).sent u)) := by
  obtain ⟨pre, post, rfl⟩ := List.append_of_mem hg
  have hfresh : g.workspaceVersion ∉ post.map (·.workspaceVersion) := by
    simp only [List.map_append, List.map_cons] at hnd
    exact (List.nodup_cons.mp (List.nodup_append.mp hnd).2.1).1
  refine foldl_call_last_greatest hc (hge g hg) (fun d hd => hmax d (by simp [hd]))
    fun d hd => lt_of_le_of_ne (hmax d (by simp [hd])) fun he =>
      hfresh (he ▸ List.mem_map_of_mem _ hd)

/-- For a collection of batches with pairwise distinct versions, none below the status of
a state reached between calls, every order of arrival ends in the same state: the status
is the batch of greatest version, and every file shows its last entry in that batch, or,
for a file that batch does not name, nothing or an empty list. -/
theorem onEvalDiagnostic_order_independent (v : Nat) (c₀ : DiagChannel δ)
    (hr : Relation.ReflTransGen DiagStep (DiagChannel.init v) c₀) (hp : c₀.pending = [])
    (bs₁ bs₂ : List (Diagnostics δ)) (hperm : bs₁.Perm bs₂)
    (hnd : (bs₁.map (·.workspaceVersion)).Nodup)
    (hge : ∀ d ∈ bs₁, c₀.diagStatus.workspaceVersion ≤ d.workspaceVersion)
    (g : Diagnostics δ) (hg : g ∈ bs₁)
    (hmax : ∀ d ∈ bs₁, d.workspaceVersion ≤ g.workspaceVersion) :
    (bs₁.foldl DiagChannel.call c₀).diagStatus = (bs₂.foldl DiagChannel.call c₀).diagStatus ∧
      (bs₂.foldl DiagChannel.call c₀).diagStatus = ⟨g.workspaceVersion, g.params⟩ ∧
      ∀ u, lastPublished (bs₂.foldl DiagChannel.call c₀).sent u = lastPublished g.params u ∨
        (u ∉ g.params.map (·.uri) ∧
          Cleared (lastPublished (bs₂.foldl DiagChannel.call c₀).sent u)) := by
  have hc : Consistent c₀.diagStatus c₀.sent := by
    simpa [DiagChannel.Inv, hp] using DiagChannel.inv_of_reachable hr
  have h₂ := foldl_call_greatest hc ((hperm.map _).nodup_iff.mp hnd)
    (fun d hd => hge d (hperm.mem_iff.mpr hd)) (hperm.mem_iff.mp hg)
    (fun d hd => hmax d (hperm.mem_iff.mpr hd))
  exact ⟨(foldl_call_greatest hc hnd hge hg hmax).1.trans h₂.1.symm, h₂⟩

/-- A batch of version 1 naming `a.nix` and an empty batch of version 2, arriving in
either order from the start. -/
theorem onEvalDiagnostic_order_independent_swap :
    ([⟨1, [⟨⟨"a.nix"⟩, [()], none⟩]⟩, ⟨2, []⟩].foldl DiagChannel.call
        (DiagChannel.init 0)).diagStatus =
      ([⟨2, []⟩, ⟨1, [⟨⟨"a.nix"⟩, [()], none⟩]⟩].foldl DiagChannel.call
        (DiagChannel.init 0)).diagStatus ∧
    ([⟨2, []⟩, ⟨1, [⟨⟨"a.nix"⟩, [()], none⟩]⟩].foldl DiagChannel.call
        (DiagChannel.init 0)).diagStatus = ⟨2, []⟩ ∧
    ∀ u, lastPublished ([⟨2, []⟩, ⟨1, [⟨⟨"a.nix"⟩, [()], none⟩]⟩].foldl DiagChannel.call
          (DiagChannel.init 0)).sent u = lastPublished ([] : List (PublishDiagnosticsParams Unit)) u ∨
        (u ∉ ([] : List (PublishDiagnosticsParams Unit)).map (·.uri) ∧
          Cleared (lastPublished ([⟨2, []⟩, ⟨1, [⟨⟨"a.nix"⟩, [()], none⟩]⟩].foldl
            DiagChannel.call (DiagChannel.init 0)).sent u)) :=
  onEvalDiagnostic_order_independent 0 _ .refl rfl _ _ (List.Perm.swap _ _ []) (by decide)
    (by decide) ⟨2, []⟩ (by simp) (by decide)

/-- Whatever the versions, ties included, and whatever the order of arrival, from a state
reached between calls: batches all older than the status change nothing; otherwise the
status ends as the last batch to arrive among those of greatest version (the batches
before it no newer, those after it older), and every file shows its last entry in that
batch or, for a file the batch does not name, nothing or an empty list. -/
theorem onEvalDiagnostic_last_greatest_wins (v : Nat) (c₀ : DiagChannel δ)
    (hr : Relation.ReflTransGen DiagStep (DiagChannel.init v) c₀) (hp : c₀.pending = []) :
    (∀ ds : List (Diagnostics δ),
      (∀ d ∈ ds, d.workspaceVersion < c₀.diagStatus.workspaceVersion) →
        ds.foldl DiagChannel.call c₀ = c₀) ∧
    ∀ (pre post : List (Diagnostics δ)) (g : Diagnostics δ),
      c₀.diagStatus.workspaceVersion ≤ g.workspaceVersion →
      (∀ d ∈ pre, d.workspaceVersion ≤ g.workspaceVersion) →
      (∀ d ∈ post, d.workspaceVersion < g.workspaceVersion) →
      ((pre ++ g :: post).foldl DiagChannel.call c₀).diagStatus =
          ⟨g.workspaceVersion, g.params⟩ ∧
        ∀ u, lastPublished ((pre ++ g :: post).foldl DiagChannel.call c₀).sent u =
            lastPublished g.params u ∨
          (u ∉ g.params.map (·.uri) ∧
            Cleared (lastPublished ((pre ++ g :: post).foldl DiagChannel.call c₀).sent u)) := by
  have hc : Consistent c₀.diagStatus c₀.sent := by
    simpa [DiagChannel.Inv, hp] using DiagChannel.inv_of_reachable hr
  exact ⟨fun _ h => foldl_call_of_outdated h,
    fun _ _ _ hge hpre hpost => foldl_call_last_greatest hc hge hpre hpost⟩

/-- Two batches of version 1, the first naming `a.nix`, the second empty: the second,
arriving last, is the status. -/
theorem onEvalDiagnostic_last_greatest_wins_tie :
    (([⟨1, [⟨⟨"a.nix"⟩, [()], none⟩]⟩] ++ ⟨1, []⟩ :: [] : List (Diagnostics Unit)).foldl
        DiagChannel.call (DiagChannel.init 0)).diagStatus = ⟨1, []⟩ :=
  ((onEvalDiagnostic_last_greatest_wins 0 _ .refl rfl).2 _ _ _ (by decide) (by decide)
    (by decide)).1

end Nixd
