import Nixd.Server.Run
import Nixd.Request.Declaration

/-!
# The AST a completion waits for

`Server::onCompletion` runs on the transport thread: it reads the draft of the requested
path, hands its `Action` to `ASTMgr.withAST` with the draft's version decoded (`0` when
there is none) and blocks in `Smp.acquire()` until `Action` releases it. `withAST` runs the
action once an AST for that path and version is published, and the only parses ever
scheduled are those of `addDocument`. So the transport thread is released only if a parse
of that version was scheduled. It was: `addDocument` stores the version string with the
draft and schedules the parse with the same string decoded, so along every run of
notifications the last parse scheduled for a path is of its draft's text and version.

`Action` itself answers by the cursor's place in the AST: the option workers' list for an
attribute name, the eval workers' list for a value, and both, marked incomplete, when the
place is unknown. Only the option half reads the draft again and calls `get()` on the
offset, so only it can fault.
-/

namespace Nixd

variable {δ : Type}

/-- The parse `ASTMgr.schedParse` was most recently given for `path`. -/
def lastParse (parses : List ParseRequest) (path : String) : Option ParseRequest :=
  (parses.filter (·.path = path)).getLast?

@[simp] theorem lastParse_concat (parses : List ParseRequest) (q : ParseRequest)
    (path : String) :
    lastParse (parses ++ [q]) path = if q.path = path then some q else lastParse parses path := by
  by_cases h : q.path = path <;> simp [lastParse, h]

/-- What `Server::onCompletion` does before the completion list is built. -/
inductive CompletionStart
  /-- `ASTMgr.withAST(Path, Version, Action)`, then `Smp.acquire()` until `Action` runs. -/
  | withAST (path : String) (version : Int)
  /-- The reply when the path has no draft. -/
  | error (message : String)
  deriving DecidableEq, Repr

namespace Server

/-- `Server::onCompletion`, up to the call that blocks the transport thread. The draft's
version goes through `EvalDraftStore::decodeVersion`, the draft store's decoder. -/
def onCompletion (s : Server δ) (params : CompletionParams) : CompletionStart :=
  let path := params.textDocument.uri.file
  match s.draftMgr path with
  | some draft => .withAST path ((decodeVersion draft.version).getD 0)
  | none => .error "requested completion list on unknown draft path"

/-- The draft of `p`, if any, has its parse scheduled last: of its text, with its version
decoded, `0` when there is none. -/
def DraftScheduled (s : Server δ) (p : String) : Prop :=
  ∀ d, s.draftMgr p = some d →
    lastParse s.parses p = some ⟨d.contents, p, (decodeVersion d.version).getD 0⟩

theorem DraftScheduled.of_eq {s t : Server δ} {p : String} (h : s.DraftScheduled p)
    (hd : t.draftMgr = s.draftMgr) (hp : t.parses = s.parses) : t.DraftScheduled p := by
  rw [DraftScheduled, hd, hp]
  exact h

theorem DraftScheduled.of_draftMgr_eq_none {s : Server δ} {p : String}
    (h : s.draftMgr p = none) : s.DraftScheduled p := by
  simp [DraftScheduled, h]

/-- `addDocument` schedules the parse of the draft it stores, with the same version. -/
theorem DraftScheduled.addDocument {s : Server δ} {p : String} (h : s.DraftScheduled p)
    (file : String) (contents : Bytes) (version : String) (fork : ForkOutcome) :
    (s.addDocument file contents version fork).DraftScheduled p := by
  intro d hd
  by_cases hf : file = p
  · subst hf
    simp only [addDocument_draftMgr, Function.update_same, Option.some.injEq] at hd
    simp [← hd]
  · simp only [addDocument_draftMgr, Function.update_noteq (Ne.symm hf)] at hd
    simp [hf, h d hd]

theorem DraftScheduled.removeDocument {s : Server δ} {p : String} (h : s.DraftScheduled p)
    (file : String) : (s.removeDocument file).DraftScheduled p := by
  intro d hd
  by_cases hf : file = p
  · subst hf
    simp at hd
  · simp only [removeDocument_draftMgr, Function.update_noteq (Ne.symm hf)] at hd
    simpa using h d hd

variable (applyChange : Bytes → TextDocumentContentChangeEvent → Option Bytes)

theorem DraftScheduled.step {s : Server δ} {p : String} (h : s.DraftScheduled p)
    (e : Event δ) : (s.step applyChange e).DraftScheduled p := by
  rcases step_cases applyChange s e with h' | ⟨file, h'⟩ | ⟨file, contents, version, fork, h'⟩ |
    ⟨c, of, f, -, h'⟩ | ⟨d, h'⟩ <;> rw [h']
  · exact h
  · exact h.removeDocument file
  · exact h.addDocument file contents version fork
  · exact h.of_eq (updateConfig_draftMgr s c of f) (updateConfig_parses s c of f)
  · exact h.of_eq (onEvalDiagnostic_draftMgr s d) (onEvalDiagnostic_parses s d)

theorem DraftScheduled.run {s : Server δ} {p : String} (h : s.DraftScheduled p)
    (evs : List (Event δ)) : (run applyChange s evs).DraftScheduled p := by
  induction evs generalizing s with
  | nil => exact h
  | cons e evs ih => exact ih (h.step applyChange e)

/-- From a state with no draft for the requested path, after any notifications: while the
path has a draft, `onCompletion` waits on `withAST` for the version of the parse last
scheduled for it, and that parse is of the draft's text. -/
theorem onCompletion_waits_for_scheduled_parse (s₀ : Server δ) (params : CompletionParams)
    (h₀ : s₀.draftMgr params.textDocument.uri.file = none) (evs : List (Event δ)) (d : Draft)
    (hd : (run applyChange s₀ evs).draftMgr params.textDocument.uri.file = some d) :
    ∃ version, (run applyChange s₀ evs).onCompletion params =
        .withAST params.textDocument.uri.file version ∧
      lastParse (run applyChange s₀ evs).parses params.textDocument.uri.file =
        some ⟨d.contents, params.textDocument.uri.file, version⟩ :=
  ⟨_, by simp [onCompletion, hd], (DraftScheduled.of_draftMgr_eq_none h₀).run applyChange evs d hd⟩

/-- `a.nix` opened at version 1, then changed at version 2: completion waits on version 2,
the version of the parse of the new text. -/
theorem onCompletion_waits_for_scheduled_parse_fresh :
    ∃ version, (run (fun _ c => some c.text)
        (fresh (δ := Unit) 0 ⟨⟨1, by decide⟩, ⟨false⟩, ⟨"nixfmt"⟩⟩ 0 0)
        [.didOpen ⟨⟨⟨"a.nix"⟩, some 1, [120]⟩⟩ .failed,
          .didChange ⟨⟨⟨"a.nix"⟩, some 2⟩, [⟨none, none, [121]⟩]⟩ .failed]).onCompletion
        ⟨⟨⟨"a.nix"⟩⟩, ⟨0, 1⟩, ⟨"."⟩⟩ = .withAST "a.nix" version ∧
      lastParse (run (fun _ c => some c.text)
        (fresh (δ := Unit) 0 ⟨⟨1, by decide⟩, ⟨false⟩, ⟨"nixfmt"⟩⟩ 0 0)
        [.didOpen ⟨⟨⟨"a.nix"⟩, some 1, [120]⟩⟩ .failed,
          .didChange ⟨⟨⟨"a.nix"⟩, some 2⟩, [⟨none, none, [121]⟩]⟩ .failed]).parses "a.nix" =
        some ⟨[121], "a.nix", version⟩ :=
  onCompletion_waits_for_scheduled_parse _ _ _ rfl _ ⟨[121], "2"⟩ rfl

end Server

/-! ## The action run on the AST -/

/-- `ParseAST::LocationContext`: where the cursor is in the AST. -/
inductive LocationContext
  | attrName
  | value
  | unknown
  deriving DecidableEq, Repr

/-- `lspserver::CompletionList`; the items are carried as they are. -/
structure CompletionList (ι : Type) where
  isIncomplete : Bool
  items : List ι
  deriving DecidableEq, Repr

section Action

variable {ι : Type} (positionToOffset : Bytes → Position → Except String Nat)
  (askOptions : Bytes → List (CompletionList ι)) (evalReplies : List (CompletionList ι))

/-- `CompletionFromOptions`, run on the state `s` of the moment `Action` runs: nothing when
options are disabled; otherwise the attribute path (empty unless the trigger is `.`), then
the last reply of the option workers, if any. `askOptions` is what they reply within the
deadline. -/
def completionFromOptions (s : Server δ) (params : CompletionParams) :
    Except Fault (Option (CompletionList ι)) :=
  if s.config.options.enable then do
    let path ← completionAttrPath positionToOffset s params
    pure (askOptions path).getLast?
  else pure none

/-- `CompletionFromEval`: the last reply of the eval workers, if any. -/
def completionFromEval : Option (CompletionList ι) := evalReplies.getLast?

/-- `Action` of `onCompletion`: the response it sets before `Smp.release()`, by the
cursor's context; `none` is the JSON `null` an empty optional list gives. -/
def completionAction (s : Server δ) (params : CompletionParams) :
    LocationContext → Except Fault (Option (CompletionList ι))
  | .attrName => completionFromOptions positionToOffset askOptions s params
  | .value => pure (completionFromEval evalReplies)
  | .unknown => do
      let options ← completionFromOptions positionToOffset askOptions s params
      let eval := completionFromEval evalReplies
      pure (some ⟨true, ((options.map (·.items)).getD []) ++ (eval.map (·.items)).getD []⟩)

/-- The action faults only through the option half: never at a value, never with options
disabled; at an unknown place it always answers a list marked incomplete, the option
items before the eval items. -/
theorem completionAction_cases (s : Server δ) (params : CompletionParams)
    (ctx : LocationContext) :
    (ctx = .value ∨ s.config.options.enable = false →
      ∃ r, completionAction positionToOffset askOptions evalReplies s params ctx = .ok r) ∧
    ∀ r, completionFromOptions positionToOffset askOptions s params = .ok r →
      completionAction positionToOffset askOptions evalReplies s params .unknown =
        .ok (some ⟨true, ((r.map (·.items)).getD []) ++
          ((completionFromEval evalReplies).map (·.items)).getD []⟩) := by
  refine ⟨fun h => ?_, fun r hr => by simp [completionAction, hr]⟩
  rcases h with rfl | h
  · exact ⟨_, rfl⟩
  · cases ctx <;> simp [completionAction, completionFromOptions, h]

end Action

end Nixd
