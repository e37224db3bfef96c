import Nixd.Server.Document

/-!
# Runs of the controller

The transport thread hands the controller one notification at a time; `Server.step` is
the handler of one, with the outcome of the `fork()` it makes, and `Server.run` a sequence
of them. For one path, the draft store behaves as `sessionStep`, the machine the spec
describes: `didOpen` sets the text, `didClose` forgets it, `didChange` applies all of its
changes or forgets the text. From no draft, the text held after a run is that of the last
`didOpen` with every later change applied in order, and there is none once the file is
closed or a change failed. On the eval worker pool every notification is either no call
or one call of `updateWorkspaceVersion`, so `PoolInv` holds along every run.
-/

namespace Nixd

variable {δ : Type}

/-- A notification the controller handles, with the outcomes of the forks it makes. -/
inductive Event (δ : Type)
  | didOpen (params : DidOpenTextDocumentParams) (fork : ForkOutcome)
  | didChange (params : DidChangeTextDocumentParams) (fork : ForkOutcome)
  | didClose (params : DidCloseTextDocumentParams)
  | updateConfig (config : Configuration.TopLevel) (optionFork fork : ForkOutcome)
  | evalDiagnostic (diag : Diagnostics δ)

namespace Event

/-- The text a `didOpen` of `p` opens it with. -/
def opened (p : String) : Event δ → Option Bytes
  | .didOpen params _ =>
      if params.textDocument.uri.file = p then some params.textDocument.text else none
  | _ => none

/-- Whether the event is a `didClose` of `p`. -/
def closes (p : String) : Event δ → Bool
  | .didClose params => params.textDocument.uri.file = p
  | _ => false

/-- Whether the event installs a configuration. -/
def isUpdateConfig : Event δ → Bool
  | .updateConfig .. => true
  | _ => false

/-- The content changes a `didChange` of `p` carries. -/
def changesFor (p : String) : Event δ → List TextDocumentContentChangeEvent
  | .didChange params _ =>
      if params.textDocument.uri.file = p then params.contentChanges else []
  | _ => []

end Event

variable (applyChange : Bytes → TextDocumentContentChangeEvent → Option Bytes)

namespace Server

/-- The handler of one notification. -/
def step (s : Server δ) : Event δ → Server δ
  | .didOpen params fork => s.onDocumentDidOpen params fork
  | .didChange params fork => s.onDocumentDidChange applyChange params fork
  | .didClose params => s.onDocumentDidClose params
  | .updateConfig config optionFork fork => s.updateConfig config optionFork fork
  | .evalDiagnostic diag => s.onEvalDiagnostic diag

/-- The notifications `evs`, handled in order. -/
def run (s : Server δ) (evs : List (Event δ)) : Server δ := evs.foldl (step applyChange) s

theorem run_append (s : Server δ) (evs₁ evs₂ : List (Event δ)) :
    run applyChange s (evs₁ ++ evs₂) = run applyChange (run applyChange s evs₁) evs₂ :=
  List.foldl_append _ _ _ _

end Server

/-- The drafts of one path as the spec describes them, one notification at a time: a
`didOpen` sets the text, a `didClose` forgets it, and a `didChange` folds `applyChange`
over its changes, the text being forgotten at the first that fails. -/
def sessionStep (p : String) (text : Option Bytes) (e : Event δ) : Option Bytes :=
  match e.opened p with
  | some t => some t
  | none =>
      if e.closes p then none
      else text.bind fun t => (e.changesFor p).foldlM applyChange t

namespace Server

/-- The draft store refines the session machine of every path, one notification at a
time. -/
theorem getDraft_step (s : Server δ) (e : Event δ) (p : String) :
    (s.step applyChange e).getDraft p = sessionStep applyChange p (s.getDraft p) e := by
  cases e with
  | didOpen params fork =>
      by_cases h : params.textDocument.uri.file = p <;>
        simp [step, sessionStep, Event.opened, Event.closes, Event.changesFor,
          onDocumentDidOpen, getDraft_addDocument, h]
  | didChange params fork =>
      by_cases h : params.textDocument.uri.file = p <;>
        simp [step, sessionStep, Event.opened, Event.closes, Event.changesFor,
          getDraft_onDocumentDidChange, applyChanges_eq_foldlM, h]
  | didClose params =>
      by_cases h : params.textDocument.uri.file = p <;>
        simp [step, sessionStep, Event.opened, Event.closes, Event.changesFor,
          onDocumentDidClose, getDraft_removeDocument, h]
  | updateConfig c of f =>
      simp [step, sessionStep, Event.opened, Event.closes, Event.changesFor,
        getDraft_updateConfig]
  | evalDiagnostic d =>
      simp [step, sessionStep, Event.opened, Event.closes, Event.changesFor,
        getDraft_onEvalDiagnostic]

theorem getDraft_run (s : Server δ) (evs : List (Event δ)) (p : String) :
    (run applyChange s evs).getDraft p =
      evs.foldl (sessionStep applyChange p) (s.getDraft p) := by
  induction evs generalizing s with
  | nil => rfl
  | cons e evs ih => simp only [run, List.foldl_cons] at ih ⊢; rw [ih, getDraft_step]

end Server

/-- Notifications that neither open nor close `p` apply their changes for `p` to the text. -/
theorem foldl_sessionStep_of_quiet (p : String) {post : List (Event δ)}
    (hpost : ∀ e ∈ post, e.opened p = none ∧ e.closes p = false) (text : Option Bytes) :
    post.foldl (sessionStep applyChange p) text =
      text.bind fun t => (post.flatMap (·.changesFor p)).foldlM applyChange t := by
  induction post generalizing text with
  | nil => cases text <;> simp
  | cons e post ih =>
      obtain ⟨ho, hc⟩ := hpost e (List.mem_cons_self _ _)
      rw [List.foldl_cons, ih fun x hx => hpost x (List.mem_cons_of_mem _ hx)]
      cases text <;> simp [sessionStep, ho, hc, List.foldlM_append]

/-- From no text, the session holds `t` exactly when the path was opened, and since its last
`didOpen`, with text `t₀`, it was not closed and all the content changes sent for it,
applied to `t₀` in order, give `t`. -/
theorem foldl_sessionStep_eq_some_iff (p : String) (evs : List (Event δ)) (t : Bytes) :
    evs.foldl (sessionStep applyChange p) none = some t ↔
      ∃ pre o post t₀, evs = pre ++ o :: post ∧ o.opened p = some t₀ ∧
        (∀ e ∈ post, e.opened p = none ∧ e.closes p = false) ∧
        (post.flatMap (·.changesFor p)).foldlM applyChange t₀ = some t := by
  constructor
  · induction evs using List.reverseRecOn generalizing t with
    | nil => simp
    | append_singleton evs e ih =>
        rw [List.foldl_append, List.foldl_cons, List.foldl_nil]
        intro h
        cases ho : e.opened p with
        | some t₀ =>
            simp only [sessionStep, ho, Option.some.injEq] at h
            exact ⟨evs, e, [], t₀, rfl, ho, by simp, by simp [h]⟩
        | none =>
            simp only [sessionStep, ho] at h
            split at h
            · cases h
            · rename_i hcl
              obtain ⟨t', h', ha⟩ := Option.bind_eq_some.mp h
              obtain ⟨pre, o, post, t₀, rfl, hopen, hpost, happly⟩ := ih t' h'
              refine ⟨pre, o, post ++ [e], t₀, by simp, hopen, fun x hx => ?_, ?_⟩
              · rcases List.mem_append.mp hx with hx | hx
                · exact hpost x hx
                · rw [List.mem_singleton.mp hx]
                  exact ⟨ho, by simpa using hcl⟩
              · rw [List.flatMap_append, List.foldlM_append, happly]
                simpa using ha
  · rintro ⟨pre, o, post, t₀, rfl, hopen, hpost, happly⟩
    rw [List.foldl_append, List.foldl_cons, foldl_sessionStep_of_quiet applyChange p hpost]
    simpa [sessionStep, hopen] using happly

/-- From a state with no draft for `p`, after any notifications: there is a draft for `p`
exactly when `p` was opened and, since its last `didOpen`, was neither closed nor given a
change that failed; its text is then the text of that `didOpen` with every content change
sent for `p` since applied in order. -/
theorem draft_of_run (s₀ : Server δ) (p : String) (h₀ : s₀.draftMgr p = none)
    (evs : List (Event δ)) :
    (((Server.run applyChange s₀ evs).draftMgr p).isSome ↔
      ∃ pre o post t₀, evs = pre ++ o :: post ∧ o.opened p = some t₀ ∧
        (∀ e ∈ post, e.opened p = none ∧ e.closes p = false) ∧
        ((post.flatMap (·.changesFor p)).foldlM applyChange t₀).isSome) ∧
    ∀ d, (Server.run applyChange s₀ evs).draftMgr p = some d →
      ∃ pre o post t₀, evs = pre ++ o :: post ∧ o.opened p = some t₀ ∧
        (∀ e ∈ post, e.opened p = none ∧ e.closes p = false) ∧
        (post.flatMap (·.changesFor p)).foldlM applyChange t₀ = some d.contents := by
  have hrun : ∀ t, ((Server.run applyChange s₀ evs).draftMgr p).map (·.contents) = some t ↔
      ∃ pre o post t₀, evs = pre ++ o :: post ∧ o.opened p = some t₀ ∧
        (∀ e ∈ post, e.opened p = none ∧ e.closes p = false) ∧
        (post.flatMap (·.changesFor p)).foldlM applyChange t₀ = some t :=
    fun t => by
      rw [← Server.getDraft, Server.getDraft_run,
        show s₀.getDraft p = none by simp [Server.getDraft, h₀]]
      exact foldl_sessionStep_eq_some_iff applyChange p evs t
  refine ⟨⟨fun h => ?_, fun ⟨pre, o, post, t₀, h₁, h₂, h₃, h₄⟩ => ?_⟩, fun d hd => ?_⟩
  · obtain ⟨d, hd⟩ := Option.isSome_iff_exists.mp h
    obtain ⟨pre, o, post, t₀, h₁, h₂, h₃, h₄⟩ := (hrun d.contents).mp (by simp [hd])
    exact ⟨pre, o, post, t₀, h₁, h₂, h₃, by simp [h₄]⟩
  · obtain ⟨t, ht⟩ := Option.isSome_iff_exists.mp h₄
    obtain ⟨d, hd, -⟩ := Option.map_eq_some'.mp ((hrun t).mpr ⟨pre, o, post, t₀, h₁, h₂, h₃, ht⟩)
    simp [hd]
  · exact (hrun d.contents).mp (by simp [hd])

/-- `a.nix` opened with `x` and replaced by `y`, from a fresh controller. -/
theorem draft_of_run_fresh :
    (((Server.run (fun _ c => some c.text) (Server.fresh (δ := Unit) 0
        ⟨⟨1, by decide⟩, ⟨false⟩, ⟨"nixfmt"⟩⟩ 0 0)
        [.didOpen ⟨⟨⟨"a.nix"⟩, some 1, [120]⟩⟩ .failed,
          .didChange ⟨⟨⟨"a.nix"⟩, some 2⟩, [⟨none, none, [121]⟩]⟩ .failed]).draftMgr
          "a.nix").isSome ↔
      ∃ (pre : List (Event Unit)) (o : Event Unit) (post : List (Event Unit)) (t₀ : Bytes),
        [.didOpen ⟨⟨⟨"a.nix"⟩, some 1, [120]⟩⟩ .failed,
          .didChange ⟨⟨⟨"a.nix"⟩, some 2⟩, [⟨none, none, [121]⟩]⟩ .failed] =
            pre ++ o :: post ∧ o.opened "a.nix" = some t₀ ∧
        (∀ e ∈ post, e.opened "a.nix" = none ∧ e.closes "a.nix" = false) ∧
        ((post.flatMap (·.changesFor "a.nix")).foldlM (fun _ c => some c.text) t₀).isSome) :=
  (draft_of_run _ _ "a.nix" rfl _).1

/-! ### The eval worker pool along runs -/

namespace Server

theorem PoolInv.of_eq {s t : Server δ} (h : PoolInv s)
    (hv : t.workspaceVersion = s.workspaceVersion) (hp : t.evalWorkers = s.evalWorkers) :
    PoolInv t :=
  ⟨hp ▸ h.sorted, fun p hq => hv ▸ h.le_version p (hp ▸ hq)⟩

/-- What one notification does to the state: nothing, `removeDocument`, `addDocument`,
`updateConfig` with the configuration it carries, or `onEvalDiagnostic`. -/
theorem step_cases (s : Server δ) (e : Event δ) :
    s.step applyChange e = s ∨ (∃ file, s.step applyChange e = s.removeDocument file) ∨
      (∃ file contents version fork,
        s.step applyChange e = s.addDocument file contents version fork) ∨
      (∃ c of f, e = .updateConfig c of f ∧ s.step applyChange e = s.updateConfig c of f) ∨
      ∃ d, s.step applyChange e = s.onEvalDiagnostic d := by
  cases e with
  | didOpen params fork => exact .inr (.inr (.inl ⟨_, _, _, _, rfl⟩))
  | didChange params fork =>
      simp only [step, onDocumentDidChange]
      split
      · exact .inl rfl
      · split
        · exact .inr (.inl ⟨_, rfl⟩)
        · exact .inr (.inr (.inl ⟨_, _, _, _, rfl⟩))
  | didClose params => exact .inr (.inl ⟨_, rfl⟩)
  | updateConfig c of f => exact .inr (.inr (.inr (.inl ⟨c, of, f, rfl, rfl⟩)))
  | evalDiagnostic d => exact .inr (.inr (.inr (.inr ⟨d, rfl⟩)))

/-- Every notification keeps the role and `WaitWorker`, and either leaves the version and
the eval pool alone or acts on them as one `updateWorkspaceVersion` call from a state that
differs from the current one only in the configuration it puts in place. -/
theorem step_pool (s : Server δ) (e : Event δ) :
    (s.step applyChange e).role = s.role ∧ (s.step applyChange e).waitWorker = s.waitWorker ∧
      (((s.step applyChange e).workspaceVersion = s.workspaceVersion ∧
          (s.step applyChange e).evalWorkers = s.evalWorkers) ∨
        ∃ (t : Server δ) (f : ForkOutcome), t.role = s.role ∧ t.waitWorker = s.waitWorker ∧
          t.workspaceVersion = s.workspaceVersion ∧ t.evalWorkers = s.evalWorkers ∧
          t.config = (s.step applyChange e).config ∧
          (s.step applyChange e).workspaceVersion = (t.updateWorkspaceVersion f).workspaceVersion ∧
          (s.step applyChange e).evalWorkers = (t.updateWorkspaceVersion f).evalWorkers) := by
  rcases step_cases applyChange s e with h | ⟨file, h⟩ | ⟨file, contents, version, fork, h⟩ |
    ⟨c, of, f, -, h⟩ | ⟨d, h⟩ <;> rw [h]
  · exact ⟨rfl, rfl, .inl ⟨rfl, rfl⟩⟩
  · exact ⟨rfl, rfl, .inl ⟨rfl, rfl⟩⟩
  · exact ⟨by simp [addDocument], by simp [addDocument], .inr ⟨s, fork, rfl, rfl, rfl, rfl,
      by simp [addDocument], addDocument_pool s file contents version fork⟩⟩
  · exact ⟨by simp [updateConfig, forkOptionWorker], by simp [updateConfig, forkOptionWorker],
      .inr ⟨{ s with config := c }, f, rfl, rfl, rfl, rfl, by simp [updateConfig, forkOptionWorker],
        updateConfig_pool s c of f⟩⟩
  · exact ⟨rfl, rfl, .inl ⟨rfl, rfl⟩⟩

theorem PoolInv.step {s : Server δ} (h : PoolInv s) (e : Event δ) :
    PoolInv (s.step applyChange e) := by
  rcases (step_pool applyChange s e).2.2 with ⟨hv, hp⟩ | ⟨t, f, -, -, hv, hp, -, hv', hp'⟩
  · exact h.of_eq hv hp
  · exact ((h.of_eq hv hp).updateWorkspaceVersion f).of_eq hv' hp'

theorem PoolInv.run {s : Server δ} (h : PoolInv s) (evs : List (Event δ)) :
    PoolInv (run applyChange s evs) := by
  induction evs generalizing s with
  | nil => exact h
  | cons e evs ih => exact ih (PoolInv.step applyChange h e)

theorem config_step (s : Server δ) (e : Event δ) :
    (s.step applyChange e).config = s.config ∨
      ∃ c of f, e = .updateConfig c of f ∧ (s.step applyChange e).config = c := by
  rcases step_cases applyChange s e with h | ⟨file, h⟩ | ⟨file, contents, version, fork, h⟩ |
    ⟨c, of, f, rfl, h⟩ | ⟨d, h⟩ <;> rw [h]
  · exact .inl rfl
  · exact .inl rfl
  · exact .inl (by simp [addDocument])
  · exact .inr ⟨c, of, f, rfl, by simp [updateConfig, forkOptionWorker]⟩
  · exact .inl rfl

theorem role_run (s : Server δ) (evs : List (Event δ)) :
    (run applyChange s evs).role = s.role ∧ (run applyChange s evs).waitWorker = s.waitWorker := by
  induction evs generalizing s with
  | nil => exact ⟨rfl, rfl⟩
  | cons e evs ih =>
      obtain ⟨h₁, h₂, -⟩ := step_pool applyChange s e
      exact ⟨(ih _).1.trans h₁, (ih _).2.trans h₂⟩

/-- With `WaitWorker = 0` and a nonnegative `eval.workers` in effect, one notification
leaves at most as many handles as there were or as `eval.workers` allows. -/
theorem evalWorkers_length_step (s : Server δ) (hw : s.waitWorker = 0) (e : Event δ)
    (hN : 0 ≤ (s.step applyChange e).config.eval.workers) :
    (s.step applyChange e).evalWorkers.length ≤
      max s.evalWorkers.length (s.step applyChange e).config.eval.workers.toNat := by
  rcases (step_pool applyChange s e).2.2 with ⟨-, hp⟩ | ⟨t, f, -, htw, -, htp, htc, -, hp⟩
  · rw [hp]; omega
  · have := length_updateWorkspaceVersion_le t f (htw.trans hw)
    rw [htc, Configuration.Eval.toSizeT_workers _ hN, htp] at this
    rwa [hp]

/-- No notification shrinks the eval pool. -/
theorem evalWorkers_length_le_step (s : Server δ) (e : Event δ) :
    s.evalWorkers.length ≤ (s.step applyChange e).evalWorkers.length := by
  rcases (step_pool applyChange s e).2.2 with ⟨-, hp⟩ | ⟨t, f, -, -, -, htp, -, -, hp⟩
  · exact (congrArg List.length hp).ge
  · rw [hp, ← htp]
    exact length_le_length_updateWorkspaceVersion t f

/-- While no notification changes `eval.workers = N ≥ 0`, a pool of at most `N` handles
stays so. -/
theorem evalWorkers_length_run (s : Server δ) (hw : s.waitWorker = 0)
    (hN : 0 ≤ s.config.eval.workers) (hlen : s.evalWorkers.length ≤ s.config.eval.workers.toNat)
    (evs : List (Event δ))
    (hcfg : ∀ c of f, Event.updateConfig c of f ∈ evs → c.eval.workers = s.config.eval.workers) :
    (run applyChange s evs).evalWorkers.length ≤ s.config.eval.workers.toNat := by
  induction evs generalizing s with
  | nil => exact hlen
  | cons e evs ih =>
      have hsame : (s.step applyChange e).config.eval.workers = s.config.eval.workers := by
        rcases config_step applyChange s e with h | ⟨c, of, f, rfl, h⟩
        · rw [h]
        · rw [h]; exact hcfg c of f (List.mem_cons_self _ _)
      have hb := evalWorkers_length_step applyChange s hw e (hsame ▸ hN)
      rw [hsame] at hb
      rw [← hsame]
      exact ih (s.step applyChange e) ((step_pool applyChange s e).2.1.trans hw)
        (hsame ▸ hN) (by rw [hsame]; omega)
        (fun c of f h => (hcfg c of f (List.mem_cons_of_mem _ h)).trans hsame.symm)

end Server

/-- A state the controller reaches from `s₀` by handling notifications. -/
def Reachable (s₀ s : Server δ) : Prop := ∃ evs, Server.run applyChange s₀ evs = s

/-- In every state reached from a controller whose pool satisfies `PoolInv` (a fresh one
does): the tags increase strictly and never pass the version; a call adds one to the
version; a fork that succeeds appends a handle with the new version, which is the back
handle afterwards unless the pool was empty, its size is `0` and `WaitWorker = 0`; a call
pops at most the front handle, whose tag is the smallest; and with `WaitWorker = 0` and an
unchanged pool size `N`, from at most `N` handles, consecutive calls leave the last `N` of
the list of its handles followed by the forked ones, in fork order. -/
theorem evalWorkers_fifo (s₀ : Server δ) (hc : s₀.role = .controller)
    (hinv : Server.PoolInv s₀) (s : Server δ) (hr : Reachable applyChange s₀ s)
    (f : ForkOutcome) (fs : List ForkOutcome) :
    Server.PoolInv s ∧
      (s.updateWorkspaceVersion f).workspaceVersion = s.workspaceVersion + 1 ∧
      (∀ pid, f = .spawned pid →
        (s.updateWorkspaceVersion f).evalWorkers.getLast? = some ⟨pid, s.workspaceVersion + 1⟩ ∨
          ((s.updateWorkspaceVersion f).evalWorkers = [] ∧ s.evalWorkers = [] ∧
            toSizeT s.config.eval.workers = 0 ∧ s.waitWorker = 0)) ∧
      ((s.updateWorkspaceVersion f).evalWorkers =
          s.evalWorkers ++ f.handles (s.workspaceVersion + 1) ∨
        ∃ p, s.evalWorkers ++ f.handles (s.workspaceVersion + 1) =
            p :: (s.updateWorkspaceVersion f).evalWorkers ∧
          ∀ q ∈ (s.updateWorkspaceVersion f).evalWorkers,
            p.workspaceVersion < q.workspaceVersion) ∧
      (s.waitWorker = 0 → s.evalWorkers.length ≤ toSizeT s.config.eval.workers →
        (fs.foldl Server.updateWorkspaceVersion s).evalWorkers =
          (s.evalWorkers ++ spawnedHandles s.workspaceVersion fs).rtake
            (toSizeT s.config.eval.workers)) := by
  obtain ⟨evs, rfl⟩ := hr
  have hc' := (Server.role_run applyChange s₀ evs).1.trans hc
  have hinv' := hinv.run applyChange evs
  refine ⟨hinv', Server.updateWorkspaceVersion_workspaceVersion hc' f, ?_,
    hinv'.evicts_oldest hc' f,
    fun hw hlen => Server.evalWorkers_foldl_updateWorkspaceVersion hc' hw hlen fs⟩
  rintro pid rfl
  exact Server.updateWorkspaceVersion_back hc' pid

/-- Four calls from a fresh controller with pool size `2`: the pool ends with the last two
workers forked. -/
theorem evalWorkers_fifo_fresh :
    ([.spawned 101, .failed, .spawned 102, .spawned 103].foldl Server.updateWorkspaceVersion
      (Server.fresh (δ := Unit) 0 ⟨⟨2, by decide⟩, ⟨false⟩, ⟨"nixfmt"⟩⟩ 0 0)).evalWorkers =
      [⟨102, 3⟩, ⟨103, 4⟩] :=
  ((evalWorkers_fifo (fun _ c => some c.text) _ rfl (Server.poolInv_fresh _ _ _ _) _ ⟨[], rfl⟩
    .failed _).2.2.2.2 rfl (by decide)).trans (by decide)

/-- With `eval.workers = 0`, opening a file forks an evaluator, and the pool is left with no
back handle at all. -/
theorem evalWorkers_no_back_handle :
    (Server.run (fun _ c => some c.text) (Server.fresh (δ := Unit) 0
        ⟨⟨0, by decide⟩, ⟨false⟩, ⟨"nixfmt"⟩⟩ 0 0)
        [.didOpen ⟨⟨⟨"a.nix"⟩, some 1, []⟩⟩ (.spawned 7)]).evalWorkers = [] := by
  decide

/-- With `WaitWorker = 0`, every notification leaves the eval pool with at most as many
handles as it had or as a nonnegative `eval.workers` in effect allows, and never with fewer
than it had; so while `eval.workers` stays `N ≥ 0`, a pool of at most `N` handles never
holds more than `N`. -/
theorem evalWorkers_length_bound (s : Server δ) (hw : s.waitWorker = 0) :
    (∀ e, 0 ≤ (s.step applyChange e).config.eval.workers →
      (s.step applyChange e).evalWorkers.length ≤
          max s.evalWorkers.length (s.step applyChange e).config.eval.workers.toNat ∧
        s.evalWorkers.length ≤ (s.step applyChange e).evalWorkers.length) ∧
    (0 ≤ s.config.eval.workers → s.evalWorkers.length ≤ s.config.eval.workers.toNat →
      ∀ evs : List (Event δ),
        (∀ c of f, Event.updateConfig c of f ∈ evs → c.eval.workers = s.config.eval.workers) →
        (Server.run applyChange s evs).evalWorkers.length ≤ s.config.eval.workers.toNat) :=
  ⟨fun e hN => ⟨Server.evalWorkers_length_step applyChange s hw e hN,
      Server.evalWorkers_length_le_step applyChange s e⟩,
    Server.evalWorkers_length_run applyChange s hw⟩

/-- With pool size `1` and `WaitWorker = 0`, `a.nix` is opened with evaluator `7`, then
`b.nix` with evaluator `8`: the second fork evicts `7`, and the pool keeps one handle. -/
theorem evalWorkers_length_bound_evict :
    let s := Server.run (fun _ c => some c.text) (Server.fresh (δ := Unit) 0
      ⟨⟨1, by decide⟩, ⟨false⟩, ⟨"nixfmt"⟩⟩ 0 0) [.didOpen ⟨⟨⟨"a.nix"⟩, some 1, []⟩⟩ (.spawned 7)]
    let e : Event Unit := .didOpen ⟨⟨⟨"b.nix"⟩, some 1, []⟩⟩ (.spawned 8)
    ((s.step (fun _ c => some c.text) e).evalWorkers.length ≤
        max s.evalWorkers.length (s.step (fun _ c => some c.text) e).config.eval.workers.toNat ∧
      s.evalWorkers.length ≤ (s.step (fun _ c => some c.text) e).evalWorkers.length) ∧
    s.evalWorkers = [⟨7, 1⟩] ∧ (s.step (fun _ c => some c.text) e).evalWorkers = [⟨8, 2⟩] := by
  intro s e
  exact ⟨(evalWorkers_length_bound (fun _ c => some c.text) s rfl).1 e (by decide), by decide,
    by decide⟩

/-- After `eval.workers` drops from `2` to `0` the pool still holds two handles: no call
pops more than the one it pushed. With `eval.workers = -1`, a `size_t` near `2^64`, no
handle is ever evicted. -/
theorem evalWorkers_over_size :
    (Server.run (fun _ c => some c.text) (Server.fresh (δ := Unit) 0
        ⟨⟨2, by decide⟩, ⟨false⟩, ⟨"nixfmt"⟩⟩ 0 0)
        [.didOpen ⟨⟨⟨"a.nix"⟩, some 1, []⟩⟩ (.spawned 7),
          .didOpen ⟨⟨⟨"b.nix"⟩, some 1, []⟩⟩ (.spawned 8),
          .updateConfig ⟨⟨0, by decide⟩, ⟨false⟩, ⟨"nixfmt"⟩⟩ .failed (.spawned 9)]).evalWorkers.length
        = 2 ∧
    (Server.run (fun _ c => some c.text) (Server.fresh (δ := Unit) 0
        ⟨⟨-1, by decide⟩, ⟨false⟩, ⟨"nixfmt"⟩⟩ 0 0)
        [.didOpen ⟨⟨⟨"a.nix"⟩, some 1, []⟩⟩ (.spawned 7)]).evalWorkers.length = 1 := by
  decide

/-! ### The workspace version along runs -/

/-- Whether handling `e` in `s` schedules a parse: every `didOpen`, and a `didChange` of a
file that has a draft when all of its changes apply to it; no other notification. -/
def Event.schedulesParse (s : Server δ) : Event δ → Bool
  | .didOpen .. => true
  | .didChange params _ =>
      ((s.getDraft params.textDocument.uri.file).bind fun code =>
        params.contentChanges.foldlM applyChange code).isSome
  | _ => false

namespace Server

section Version

variable {s : Server δ} (hc : s.role = .controller)
include hc

theorem addDocument_workspaceVersion (file : String) (contents : Bytes) (version : String)
    (fork : ForkOutcome) :
    (s.addDocument file contents version fork).workspaceVersion = s.workspaceVersion + 1 := by
  rw [(addDocument_pool s file contents version fork).1, updateWorkspaceVersion_workspaceVersion hc]

theorem updateConfig_workspaceVersion (c : Configuration.TopLevel) (of f : ForkOutcome) :
    (s.updateConfig c of f).workspaceVersion = s.workspaceVersion + 1 := by
  rw [(updateConfig_pool s c of f).1]
  exact updateWorkspaceVersion_workspaceVersion (s := { s with config := c }) hc f

/-- A notification appends one parse when it schedules one and none otherwise, and raises
the version by one for that parse and by one for a new configuration. -/
theorem parses_workspaceVersion_step (e : Event δ) :
    (∃ qs, (s.step applyChange e).parses = s.parses ++ qs ∧
      qs.length = if e.schedulesParse applyChange s then 1 else 0) ∧
    (s.step applyChange e).workspaceVersion = s.workspaceVersion +
      (if e.schedulesParse applyChange s then 1 else 0) + if e.isUpdateConfig then 1 else 0 := by
  cases e with
  | didOpen params fork =>
      simp [step, onDocumentDidOpen, addDocument_workspaceVersion hc, Event.schedulesParse,
        Event.isUpdateConfig]
  | didChange params fork =>
      simp only [step, onDocumentDidChange, Event.schedulesParse, Event.isUpdateConfig,
        applyChanges_eq_foldlM]
      split
      · simp [*]
      · split
        · simp [*]
        · simp [*, addDocument_workspaceVersion hc]
  | didClose params =>
      simp [step, onDocumentDidClose, Event.schedulesParse, Event.isUpdateConfig]
  | updateConfig c of f =>
      simp [step, updateConfig_workspaceVersion hc, Event.schedulesParse, Event.isUpdateConfig]
  | evalDiagnostic d => simp [step, Event.schedulesParse, Event.isUpdateConfig]

end Version

/-- For a controller, each notification appends exactly one parse when it schedules one (a
`didOpen`, or a `didChange` with a draft whose changes all apply) and none otherwise (a
`didClose`, a `didChange` without a draft or with a change that fails, a configuration, a
diagnostics batch), and raises the version by one for that parse and by one for a new
configuration. So along any run the version grows by exactly the number of parses
scheduled plus the number of configuration updates. -/
theorem workspaceVersion_run (s : Server δ) (hc : s.role = .controller) :
    (∀ e : Event δ,
      (∃ qs, (s.step applyChange e).parses = s.parses ++ qs ∧
        qs.length = if e.schedulesParse applyChange s then 1 else 0) ∧
      (s.step applyChange e).workspaceVersion = s.workspaceVersion +
        (if e.schedulesParse applyChange s then 1 else 0) + if e.isUpdateConfig then 1 else 0) ∧
    ∀ evs : List (Event δ), (run applyChange s evs).workspaceVersion + s.parses.length =
      s.workspaceVersion + (run applyChange s evs).parses.length +
        evs.countP (·.isUpdateConfig) := by
  refine ⟨parses_workspaceVersion_step applyChange hc, fun evs => ?_⟩
  induction evs generalizing s with
  | nil => simp [run]
  | cons e evs ih =>
      obtain ⟨⟨qs, hqs, hlen⟩, hv⟩ := parses_workspaceVersion_step applyChange hc e
      have h₂ := ih (s.step applyChange e) ((step_pool applyChange s e).1.trans hc)
      rw [show run applyChange s (e :: evs) = run applyChange (s.step applyChange e) evs from rfl,
        List.countP_cons]
      rw [hqs, List.length_append, hv, ← hlen] at h₂
      omega

/-- On a fresh controller, `a.nix` is opened, closed, changed with no draft, and a new
configuration arrives: two raises of the version, one parse. -/
theorem workspaceVersion_run_open_close :
    let s : Server Unit := fresh 0 ⟨⟨1, by decide⟩, ⟨false⟩, ⟨"nixfmt"⟩⟩ 0 0
    let evs : List (Event Unit) := [.didOpen ⟨⟨⟨"a.nix"⟩, some 1, [120]⟩⟩ .failed,
      .didClose ⟨⟨⟨"a.nix"⟩⟩⟩, .didChange ⟨⟨⟨"a.nix"⟩, some 2⟩, [⟨none, none, [121]⟩]⟩ .failed,
      .updateConfig ⟨⟨1, by decide⟩, ⟨true⟩, ⟨"nixfmt"⟩⟩ .failed .failed]
    (run (fun _ c => some c.text) s evs).workspaceVersion + s.parses.length =
        s.workspaceVersion + (run (fun _ c => some c.text) s evs).parses.length +
          evs.countP (·.isUpdateConfig) ∧
      (run (fun _ c => some c.text) s evs).workspaceVersion = 2 ∧
      (run (fun _ c => some c.text) s evs).parses.length = 1 := by
  intro s evs
  exact ⟨(workspaceVersion_run _ s rfl).2 evs, rfl, rfl⟩

/-! ### The eval pool when `WaitWorker` is set -/

/-- With `WaitWorker` set, `updateWorkspaceVersion` never pops a handle. -/
theorem evalWorkers_prefix_updateWorkspaceVersion {s : Server δ} (hw : s.waitWorker ≠ 0)
    (f : ForkOutcome) : s.evalWorkers <+: (s.updateWorkspaceVersion f).evalWorkers := by
  by_cases hc : s.role = .controller
  · rw [updateWorkspaceVersion_eq hc]
    rcases forkWorker_cases (s := { s with workspaceVersion := s.workspaceVersion + 1 }) hc f
      s.evalWorkers (toSizeT s.config.eval.workers) with ⟨h, -⟩ | ⟨-, h0, -⟩
    · rw [h]
      exact List.prefix_append _ _
    · exact absurd h0 hw
  · simp [updateWorkspaceVersion, hc]

/-- With `WaitWorker` set (the mode that waits for every worker to finish), no eval worker
is ever evicted: after any run the pool begins with every handle it held before. -/
theorem evalWorkers_prefix_run (s : Server δ) (hw : s.waitWorker ≠ 0) (evs : List (Event δ)) :
    s.evalWorkers <+: (run applyChange s evs).evalWorkers := by
  induction evs generalizing s with
  | nil => exact List.prefix_refl _
  | cons e evs ih =>
      have hw' : (s.step applyChange e).waitWorker ≠ 0 := by
        rw [(step_pool applyChange s e).2.1]
        exact hw
      refine List.IsPrefix.trans ?_ (ih (s.step applyChange e) hw')
      rcases (step_pool applyChange s e).2.2 with ⟨-, hp⟩ | ⟨t, f, -, htw, -, htp, -, -, hp⟩
      · simp only [hp, List.prefix_refl]
      · rw [hp, ← htp]
        exact evalWorkers_prefix_updateWorkspaceVersion (by rw [htw]; exact hw) f

/-- With `WaitWorker = 1` and pool size `1`, `a.nix` opened with evaluator `7`, then
`b.nix`: evaluator `7` stays in front. -/
theorem evalWorkers_prefix_run_wait :
    (run (fun _ c => some c.text) (fresh (δ := Unit) 1 ⟨⟨1, by decide⟩, ⟨false⟩, ⟨"nixfmt"⟩⟩ 0 0)
        [.didOpen ⟨⟨⟨"a.nix"⟩, some 1, []⟩⟩ (.spawned 7)]).waitWorker ≠ 0 ∧
      (run (fun _ c => some c.text) (fresh (δ := Unit) 1 ⟨⟨1, by decide⟩, ⟨false⟩, ⟨"nixfmt"⟩⟩ 0 0)
        [.didOpen ⟨⟨⟨"a.nix"⟩, some 1, []⟩⟩ (.spawned 7)]).evalWorkers <+:
        (run (fun _ c => some c.text) (run (fun _ c => some c.text)
          (fresh (δ := Unit) 1 ⟨⟨1, by decide⟩, ⟨false⟩, ⟨"nixfmt"⟩⟩ 0 0)
          [.didOpen ⟨⟨⟨"a.nix"⟩, some 1, []⟩⟩ (.spawned 7)])
          [.didOpen ⟨⟨⟨"b.nix"⟩, some 1, []⟩⟩ (.spawned 8)]).evalWorkers :=
  ⟨by decide, evalWorkers_prefix_run _ _ (by decide) _⟩

end Server

end Nixd
