import Nixd.Server.Basic
import Mathlib.Data.List.Sort
import Mathlib.Data.List.DropRight

/-!
# Forking evaluation workers

Every `updateWorkspaceVersion` in the controller increments `WorkspaceVersion` and forks a
fresh evaluator whose handle is tagged with the new version. `forkWorker` pushes the handle
at the back of `EvalWorkers` and, when the pool is then larger than `Size` and `WaitWorker`
is `0`, pops the front handle: one eviction per call, never more. `PoolInv` says the tags
increase strictly from front to back and never pass `WorkspaceVersion`, so the popped
handle is always the oldest. While the pool size stays `N`, the pool is the last `N`
handles of the ones it started with followed by the ones forked, `List.rtake`.
-/

namespace Nixd

variable {δ : Type}

/-- The handle a fork adds to a pool, none when `fork()` failed. -/
def ForkOutcome.handles (f : ForkOutcome) (workspaceVersion : Nat) : List Proc :=
  match f with
  | .failed => []
  | .spawned pid => [⟨pid, workspaceVersion⟩]

theorem ForkOutcome.length_append_handles (f : ForkOutcome) (pool : List Proc) (v : Nat) :
    (pool ++ f.handles v).length ≤ pool.length + 1 := by
  cases f <;> simp [ForkOutcome.handles]

/-- The handles forked by consecutive calls from the workspace version `v`: the call of
index `i` is tagged `v + i + 1`. -/
def spawnedHandles : Nat → List ForkOutcome → List Proc
  | _, [] => []
  | v, f :: fs => f.handles (v + 1) ++ spawnedHandles (v + 1) fs

namespace Server

/-- `Server::forkWorker`, in the controller process: the pool `WorkerPool` after the call. -/
def forkWorker (s : Server δ) (fork : ForkOutcome) (workerPool : List Proc) (size : Nat) :
    List Proc :=
  if s.role ≠ .controller then workerPool
  else
    match fork with
    | .failed => workerPool
    | .spawned pid =>
        let pool := workerPool ++ [⟨pid, s.workspaceVersion⟩]
        if pool.length > size ∧ s.waitWorker = 0 then pool.tail else pool

/-- `Server::updateWorkspaceVersion`: the eval worker pool is resized with the
`Config.eval.workers` in effect, converted to `size_t`. -/
def updateWorkspaceVersion (s : Server δ) (fork : ForkOutcome) : Server δ :=
  if s.role ≠ .controller then s
  else
    let s := { s with workspaceVersion := s.workspaceVersion + 1 }
    { s with evalWorkers := s.forkWorker fork s.evalWorkers (toSizeT s.config.eval.workers) }

section Controller

variable {s : Server δ} (hc : s.role = .controller)
include hc

/-- A fork in the controller appends its handle; the front is popped only after a fork
that succeeded, when the pool is over `size` and `WaitWorker` is `0`. -/
theorem forkWorker_cases (f : ForkOutcome) (pool : List Proc) (size : Nat) :
    (s.forkWorker f pool size = pool ++ f.handles s.workspaceVersion ∧
        (s.waitWorker = 0 → (pool ++ f.handles s.workspaceVersion).length ≤ max pool.length size)) ∨
      (f ≠ .failed ∧ s.waitWorker = 0 ∧ size < (pool ++ f.handles s.workspaceVersion).length ∧
        s.forkWorker f pool size = (pool ++ f.handles s.workspaceVersion).tail) := by
  cases f with
  | failed => simp [forkWorker, hc, ForkOutcome.handles]
  | spawned pid =>
      simp only [forkWorker, hc, ne_eq, not_true_eq_false, if_false, ForkOutcome.handles]
      split
      · exact .inr (by simp_all)
      · exact .inl ⟨rfl, fun hw => by simp_all⟩

theorem updateWorkspaceVersion_eq (f : ForkOutcome) :
    s.updateWorkspaceVersion f = { s with
      workspaceVersion := s.workspaceVersion + 1
      evalWorkers := ({ s with workspaceVersion := s.workspaceVersion + 1 } : Server δ).forkWorker
        f s.evalWorkers (toSizeT s.config.eval.workers) } := by
  simp [updateWorkspaceVersion, hc]

theorem updateWorkspaceVersion_workspaceVersion (f : ForkOutcome) :
    (s.updateWorkspaceVersion f).workspaceVersion = s.workspaceVersion + 1 := by
  rw [updateWorkspaceVersion_eq hc]

end Controller

section Frame

variable (s : Server δ) (f : ForkOutcome)

@[simp] theorem updateWorkspaceVersion_role : (s.updateWorkspaceVersion f).role = s.role := by
  unfold updateWorkspaceVersion; split <;> rfl

@[simp] theorem updateWorkspaceVersion_waitWorker :
    (s.updateWorkspaceVersion f).waitWorker = s.waitWorker := by
  unfold updateWorkspaceVersion; split <;> rfl

@[simp] theorem updateWorkspaceVersion_config :
    (s.updateWorkspaceVersion f).config = s.config := by
  unfold updateWorkspaceVersion; split <;> rfl

@[simp] theorem updateWorkspaceVersion_draftMgr :
    (s.updateWorkspaceVersion f).draftMgr = s.draftMgr := by
  unfold updateWorkspaceVersion; split <;> rfl

@[simp] theorem updateWorkspaceVersion_diagStatus :
    (s.updateWorkspaceVersion f).diagStatus = s.diagStatus := by
  unfold updateWorkspaceVersion; split <;> rfl

@[simp] theorem updateWorkspaceVersion_published :
    (s.updateWorkspaceVersion f).published = s.published := by
  unfold updateWorkspaceVersion; split <;> rfl

@[simp] theorem updateWorkspaceVersion_parses :
    (s.updateWorkspaceVersion f).parses = s.parses := by
  unfold updateWorkspaceVersion; split <;> rfl

end Frame

/-- The tags of the evaluation workers increase strictly from front to back and never pass
`WorkspaceVersion`. -/
structure PoolInv (s : Server δ) : Prop where
  sorted : (s.evalWorkers.map (·.workspaceVersion)).Sorted (· < ·)
  le_version : ∀ p ∈ s.evalWorkers, p.workspaceVersion ≤ s.workspaceVersion

theorem poolInv_fresh (waitWorker : Int) (config : Configuration.TopLevel) (v d : Nat) :
    PoolInv (fresh (δ := δ) waitWorker config v d) :=
  ⟨by simp [fresh], by simp [fresh]⟩

/-- The pool with the new handle at the back still has increasing tags, all at most the new
version. -/
theorem PoolInv.append_handles {s : Server δ} (h : PoolInv s) (f : ForkOutcome) :
    ((s.evalWorkers ++ f.handles (s.workspaceVersion + 1)).map (·.workspaceVersion)).Sorted
        (· < ·) ∧
      ∀ p ∈ s.evalWorkers ++ f.handles (s.workspaceVersion + 1),
        p.workspaceVersion ≤ s.workspaceVersion + 1 := by
  have hle := h.le_version
  cases f with
  | failed =>
      simp only [ForkOutcome.handles, List.append_nil]
      exact ⟨h.sorted, fun p hp => (hle p hp).trans (Nat.le_succ _)⟩
  | spawned pid =>
      simp only [ForkOutcome.handles, List.map_append, List.map_cons, List.map_nil,
        List.Sorted, List.pairwise_append, List.pairwise_singleton, List.mem_map,
        List.mem_singleton, forall_exists_index, and_imp, true_and, List.mem_append]
      refine ⟨⟨h.sorted, ?_⟩, ?_⟩
      · rintro _ p hp rfl _ rfl
        exact Nat.lt_succ_of_le (hle p hp)
      · rintro p (hp | rfl)
        · exact (hle p hp).trans (Nat.le_succ _)
        · exact le_rfl

/-- Every call keeps the tags increasing and at most `WorkspaceVersion`. -/
theorem PoolInv.updateWorkspaceVersion {s : Server δ} (h : PoolInv s) (f : ForkOutcome) :
    PoolInv (s.updateWorkspaceVersion f) := by
  by_cases hc : s.role = .controller
  · obtain ⟨hs, hle⟩ := h.append_handles f
    rw [updateWorkspaceVersion_eq hc]
    rcases forkWorker_cases (s := { s with workspaceVersion := s.workspaceVersion + 1 })
      hc f s.evalWorkers (toSizeT s.config.eval.workers) with ⟨heq, -⟩ | ⟨-, -, -, heq⟩
    · exact ⟨by simpa [heq] using hs, by simpa [heq] using hle⟩
    · refine ⟨by simpa [heq, List.map_tail] using hs.tail, fun p hp => hle p ?_⟩
      simp only [heq] at hp
      exact List.mem_of_mem_tail hp
  · simpa [Server.updateWorkspaceVersion, hc] using h

/-- A call removes at most the front handle of the pool it pushed to, the one with the
smallest tag. -/
theorem PoolInv.evicts_oldest {s : Server δ} (h : PoolInv s) (hc : s.role = .controller)
    (f : ForkOutcome) :
    (s.updateWorkspaceVersion f).evalWorkers =
        s.evalWorkers ++ f.handles (s.workspaceVersion + 1) ∨
      ∃ p, s.evalWorkers ++ f.handles (s.workspaceVersion + 1) =
          p :: (s.updateWorkspaceVersion f).evalWorkers ∧
        ∀ q ∈ (s.updateWorkspaceVersion f).evalWorkers, p.workspaceVersion < q.workspaceVersion := by
  rw [updateWorkspaceVersion_eq hc]
  rcases forkWorker_cases (s := { s with workspaceVersion := s.workspaceVersion + 1 })
    hc f s.evalWorkers (toSizeT s.config.eval.workers) with ⟨heq, -⟩ | ⟨-, -, hlen, heq⟩
  · exact .inl heq
  · right
    obtain ⟨hs, -⟩ := h.append_handles f
    simp only [heq]
    cases hl : s.evalWorkers ++ f.handles (s.workspaceVersion + 1) with
    | nil => simp [hl] at hlen
    | cons p rest =>
        rw [hl, List.map_cons, List.sorted_cons] at hs
        exact ⟨p, rfl, fun q hq => hs.1 _ (List.mem_map_of_mem _ hq)⟩

/-- After a fork that succeeded the new handle is at the back, unless the pool was empty,
its size is `0` and `WaitWorker` is `0`: then it is popped at once and the pool stays
empty. -/
theorem updateWorkspaceVersion_back {s : Server δ} (hc : s.role = .controller) (pid : Int) :
    (s.updateWorkspaceVersion (.spawned pid)).evalWorkers.getLast? =
        some ⟨pid, s.workspaceVersion + 1⟩ ∨
      ((s.updateWorkspaceVersion (.spawned pid)).evalWorkers = [] ∧ s.evalWorkers = [] ∧
        toSizeT s.config.eval.workers = 0 ∧ s.waitWorker = 0) := by
  rw [updateWorkspaceVersion_eq hc]
  rcases forkWorker_cases (s := { s with workspaceVersion := s.workspaceVersion + 1 })
    hc (.spawned pid) s.evalWorkers (toSizeT s.config.eval.workers) with
    ⟨heq, -⟩ | ⟨-, hw, hlen, heq⟩
  · simp [heq, ForkOutcome.handles]
  · simp only [heq, ForkOutcome.handles]
    cases hl : s.evalWorkers with
    | nil =>
        simp only [hl, ForkOutcome.handles, List.nil_append, List.length_singleton] at hlen
        exact .inr ⟨rfl, rfl, by omega, hw⟩
    | cons p rest => simp

/-- A call never shrinks the pool: it pops a handle only after pushing one. -/
theorem length_le_length_updateWorkspaceVersion (s : Server δ) (f : ForkOutcome) :
    s.evalWorkers.length ≤ (s.updateWorkspaceVersion f).evalWorkers.length := by
  by_cases hc : s.role = .controller
  · rw [updateWorkspaceVersion_eq hc]
    rcases forkWorker_cases (s := { s with workspaceVersion := s.workspaceVersion + 1 })
      hc f s.evalWorkers (toSizeT s.config.eval.workers) with ⟨heq, -⟩ | ⟨hf, -, -, heq⟩
    · simp [heq]
    · cases f with
      | failed => exact absurd rfl hf
      | spawned pid => simp [heq, ForkOutcome.handles]
  · simp [updateWorkspaceVersion, hc]

/-- With `WaitWorker = 0` a call leaves at most as many handles as the pool had or its size
allows. -/
theorem length_updateWorkspaceVersion_le (s : Server δ) (f : ForkOutcome)
    (hw : s.waitWorker = 0) :
    (s.updateWorkspaceVersion f).evalWorkers.length ≤
      max s.evalWorkers.length (toSizeT s.config.eval.workers) := by
  by_cases hc : s.role = .controller
  · rw [updateWorkspaceVersion_eq hc]
    have hle := f.length_append_handles s.evalWorkers (s.workspaceVersion + 1)
    rcases forkWorker_cases (s := { s with workspaceVersion := s.workspaceVersion + 1 })
      hc f s.evalWorkers (toSizeT s.config.eval.workers) with ⟨heq, hfit⟩ | ⟨-, -, hgt, heq⟩
    · simpa only [heq] using hfit hw
    · simp only [heq, List.length_tail, List.length_append] at hgt hle ⊢
      omega
  · simp [updateWorkspaceVersion, hc]

theorem rtake_append_rtake {α : Type} (l h : List α) (n : Nat) :
    (l.rtake n ++ h).rtake n = (l ++ h).rtake n := by
  simp only [List.rtake, List.length_append, List.length_drop]
  rw [← List.drop_append_of_le_length (Nat.sub_le _ _), List.drop_drop]
  congr 1
  omega

/-- With `WaitWorker = 0` and a pool within its size, a fork keeps the last `size` handles. -/
theorem forkWorker_eq_rtake {s : Server δ} (hc : s.role = .controller) (hw : s.waitWorker = 0)
    (f : ForkOutcome) {pool : List Proc} {size : Nat} (hlen : pool.length ≤ size) :
    s.forkWorker f pool size = (pool ++ f.handles s.workspaceVersion).rtake size := by
  have hle := f.length_append_handles pool s.workspaceVersion
  rcases forkWorker_cases hc f pool size with ⟨heq, hfit⟩ | ⟨-, -, hgt, heq⟩
  · have := hfit hw
    rw [heq, List.rtake, Nat.sub_eq_zero_of_le (by omega), List.drop_zero]
  · rw [heq, List.rtake, show (pool ++ f.handles s.workspaceVersion).length - size = 1 by omega,
      List.drop_one]

/-- With `WaitWorker = 0` and an unchanged pool size `N`, from a pool of at most `N`
handles, the pool after consecutive calls is the last `N` of its handles followed by the
forked ones, in fork order. -/
theorem evalWorkers_foldl_updateWorkspaceVersion {s : Server δ} (hc : s.role = .controller)
    (hw : s.waitWorker = 0) (hlen : s.evalWorkers.length ≤ toSizeT s.config.eval.workers)
    (fs : List ForkOutcome) :
    (fs.foldl updateWorkspaceVersion s).evalWorkers =
      (s.evalWorkers ++ spawnedHandles s.workspaceVersion fs).rtake
        (toSizeT s.config.eval.workers) := by
  induction fs generalizing s with
  | nil => simp [spawnedHandles, List.rtake, Nat.sub_eq_zero_of_le hlen]
  | cons f fs ih =>
      have hpool : (s.updateWorkspaceVersion f).evalWorkers =
          (s.evalWorkers ++ f.handles (s.workspaceVersion + 1)).rtake
            (toSizeT s.config.eval.workers) := by
        rw [updateWorkspaceVersion_eq hc]
        exact forkWorker_eq_rtake (s := { s with workspaceVersion := s.workspaceVersion + 1 })
          hc hw f hlen
      have hlen' : (s.updateWorkspaceVersion f).evalWorkers.length ≤
          toSizeT (s.updateWorkspaceVersion f).config.eval.workers := by
        simp only [hpool, List.rtake, List.length_drop, updateWorkspaceVersion_config]
        omega
      rw [List.foldl_cons, ih (by simpa using hc) (by simpa using hw) hlen', hpool,
        updateWorkspaceVersion_workspaceVersion hc, updateWorkspaceVersion_config,
        rtake_append_rtake, List.append_assoc, spawnedHandles]

end Server

end Nixd
