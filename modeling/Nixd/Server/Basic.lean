import Nixd.Diagnostic.Status
import Mathlib.Algebra.Group.Nat.Basic
import Mathlib.Algebra.Group.Int

/-!
# The controller's state

`Server` holds what the handlers of `Controller.cpp` read and write in the controller
process: its role and `WaitWorker`, the configuration, `WorkspaceVersion` and the two
worker pools, the drafts, `DiagStatus` with what the client received, and the parses
handed to `ASTMgr`. The headers that declare these members are not part of the source, so
their types follow the spec (`WorkspaceVersion` is a counter that is only ever
incremented). A handler that would read a null pointer, an error `Expected` or a byte past
the end of a text stops with the `Fault` it runs into: that is undefined behaviour in the
source, and the model says nothing past it.
-/

namespace Nixd

/-- The fields of `configuration::TopLevel` the controller reads.
Modelled from the spec: the configuration header is not part of the source; the spec's
schema names `eval.workers` (int), `options.enable` (bool) and `formatting.command`. -/
structure Configuration.Eval where
  workers : Int
  workers_range : -2 ^ 31 ≤ workers ∧ workers < 2 ^ 31

/-- Modelled from the spec: see `Configuration.Eval`. -/
structure Configuration.Options where
  enable : Bool

/-- Modelled from the spec: see `Configuration.Eval`. -/
structure Configuration.Formatting where
  command : String

/-- Modelled from the spec: see `Configuration.Eval`. -/
structure Configuration.TopLevel where
  eval : Configuration.Eval
  options : Configuration.Options
  formatting : Configuration.Formatting

/-- `ServerRole`: the controller, or a worker forked from it. -/
inductive ServerRole
  | controller
  | evaluator
  | optionProvider
  deriving DecidableEq, Repr

/-- A worker handle, `Server::Proc`: its pid and the `WorkspaceVersion` of its snapshot.
The pipes, ports and the input thread it owns are not read by the modelled code. -/
structure Proc where
  pid : Int
  workspaceVersion : Nat
  deriving DecidableEq, Repr

/-- What `fork()` returns in the controller: `-1`, or the pid of the child. The child sees
`0` and runs the worker action in a process of its own, which this state does not
describe. -/
inductive ForkOutcome
  | failed
  | spawned (pid : Int)
  deriving DecidableEq, Repr

/-- A draft of `DraftMgr`: the text and the version string it was added with. -/
structure Draft where
  contents : Bytes
  version : String
  deriving DecidableEq, Repr

/-- A call `ASTMgr.schedParse(Contents, Path, Version)`. -/
structure ParseRequest where
  contents : Bytes
  path : String
  version : Int
  deriving DecidableEq, Repr

/-- The controller's state. -/
structure Server (δ : Type) where
  role : ServerRole
  waitWorker : Int
  config : Configuration.TopLevel
  workspaceVersion : Nat
  evalWorkers : List Proc
  optionWorkers : List Proc
  draftMgr : String → Option Draft
  diagStatus : DiagnosticStatus δ
  published : List (PublishDiagnosticsParams δ)
  parses : List ParseRequest

/-- Undefined behaviour a handler runs into. -/
inductive Fault
  /-- `*P` or `P->` on a null `shared_ptr` or an empty `std::optional`. -/
  | nullDeref
  /-- `Expected::get()` on an `Expected` holding an error. -/
  | uncheckedGet
  /-- `Code[Index]` with `Index ≥ Code.size()`. -/
  | outOfBounds (index : Nat)
  deriving DecidableEq, Repr

/-- Dereferencing what may be null. -/
def deref {α : Type} : Option α → Except Fault α
  | some a => .ok a
  | none => .error .nullDeref

/-- `Expected<T>::get()`. -/
def Expected.get {α ε : Type} : Except ε α → Except Fault α
  | .ok a => .ok a
  | .error _ => .error .uncheckedGet

section Except

variable {α β ε : Type}

@[simp] theorem deref_some (a : α) : deref (some a) = .ok a := rfl

@[simp] theorem deref_none : deref (none : Option α) = .error .nullDeref := rfl

@[simp] theorem Expected.get_ok (a : α) : Expected.get (.ok a : Except ε α) = .ok a := rfl

@[simp] theorem Expected.get_error (e : ε) : Expected.get (.error e : Except ε α) = .error .uncheckedGet :=
  rfl

@[simp] theorem pure_eq_ok (a : α) : (pure a : Except ε α) = .ok a := rfl

@[simp] theorem throw_eq_error (e : ε) : (throw e : Except ε α) = .error e := rfl

@[simp] theorem ok_bind (a : α) (f : α → Except ε β) : (Except.ok a >>= f) = f a := rfl

@[simp] theorem error_bind (e : ε) (f : α → Except ε β) : (Except.error e >>= f) = .error e := rfl

end Except

/-- The `size_t` an `int` converts to: its value modulo `2^64`. -/
def toSizeT (n : Int) : Nat := (n % 2 ^ 64).toNat

theorem toSizeT_of_nonneg {n : Int} (h0 : 0 ≤ n) (h : n < 2 ^ 64) : toSizeT n = n.toNat := by
  rw [toSizeT, Int.emod_eq_of_lt h0 h]

/-- A nonnegative `int` keeps its value as a `size_t`. -/
theorem Configuration.Eval.toSizeT_workers (e : Configuration.Eval) (h : 0 ≤ e.workers) :
    toSizeT e.workers = e.workers.toNat :=
  toSizeT_of_nonneg h (by have := e.workers_range.2; omega)

/-- `Server::encodeVersion`: `llvm::to_string` of the version, or the empty string. -/
def encodeVersion (lspVersion : Option Int) : String :=
  match lspVersion with
  | some v => toString v
  | none => ""

/-- `DraftStore::decodeVersion`.
Modelled from the spec: the draft store is not part of the source; the spec has it parse
the protocol version string as an `int64`, the empty string giving no version. -/
def decodeVersion (encoded : String) : Option Int :=
  if encoded.isEmpty then none
  else encoded.toInt?.filter fun v => -2 ^ 63 ≤ v ∧ v < 2 ^ 63

variable {δ : Type}

namespace Server

/-- A controller before any request: no worker, no draft, no diagnostics, nothing sent or
parsed. The initial values of the other members are declared in a header outside the
source and are left as arguments. -/
def fresh (waitWorker : Int) (config : Configuration.TopLevel)
    (workspaceVersion diagVersion : Nat) : Server δ where
  role := .controller
  waitWorker := waitWorker
  config := config
  workspaceVersion := workspaceVersion
  evalWorkers := []
  optionWorkers := []
  draftMgr := fun _ => none
  diagStatus := ⟨diagVersion, []⟩
  published := []
  parses := []

/-- `Server::getDraft`: the draft's text, or null. -/
def getDraft (s : Server δ) (file : String) : Option Bytes :=
  (s.draftMgr file).map (·.contents)

end Server

end Nixd
