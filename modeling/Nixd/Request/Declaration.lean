import Nixd.Server.Document
import Mathlib.Data.List.DropRight

/-!
# The attribute path under the cursor

`onDecalration` posts a task that reads the draft, turns the cursor into an offset with
`positionToOffset`, and expands the offset to the run of bytes between separators
(`"\r\n\t ;"`), the attribute path it asks the option workers about. The two loops are
modelled one read of `Code[i]` at a time. `From` is a `size_t`: the test `From >= 0` always
holds, so the left loop stops only at a separator, and past index `0` it wraps to
`SIZE_MAX` and reads out of bounds. The task also calls `get()` on the offset after noting,
without returning, that it is an error; `CompletionFromOptions` does the same.
-/

namespace Nixd

variable {δ : Type}

/-- `SIZE_MAX`, what `From--` gives at `0`. -/
def sizeMax : Nat := 2 ^ 64 - 1

/-- The separators, `Punc = "\r\n\t ;"`. -/
def punc : Bytes := ['\r'.toUInt8, '\n'.toUInt8, '\t'.toUInt8, ' '.toUInt8, ';'.toUInt8]

/-- `IsPunc`. -/
def isPunc (c : UInt8) : Bool := punc.contains c

/-- `Code[Index]` on a `StringRef`. -/
def charAt (code : Bytes) (index : Nat) : Except Fault UInt8 :=
  match code[index]? with
  | some c => .ok c
  | none => .error (.outOfBounds index)

/-- `for (; From >= 0 && !IsPunc(Code[From]);) From--;`. The test `From >= 0` holds for
every `size_t`; at `0`, `From--` gives `SIZE_MAX`, and `Code[SIZE_MAX]` lies past the end
of every `StringRef`, whose size is a `size_t`. -/
def scanFrom (code : Bytes) : Nat → Except Fault Nat
  | 0 => do
      let c ← charAt code 0
      if isPunc c then pure 0 else throw (.outOfBounds sizeMax)
  | i + 1 => do
      let c ← charAt code (i + 1)
      if isPunc c then pure (i + 1) else scanFrom code i

/-- `for (; To < Code.size() && !IsPunc(Code[To]);) To++;` with at most `n` passes left;
`scanTo` starts it with `n = Code.size() - To`, after which `To < Code.size()` fails. -/
def scanToAux (code : Bytes) : Nat → Nat → Except Fault Nat
  | 0, i => pure i
  | n + 1, i =>
      if i < code.length then do
        let c ← charAt code i
        if isPunc c then pure i else scanToAux code n (i + 1)
      else pure i

/-- The right loop from `To`. -/
def scanTo (code : Bytes) (i : Nat) : Except Fault Nat := scanToAux code (code.length - i) i

/-- `StringRef::substr(Start, N)`. -/
def substr (code : Bytes) (start n : Nat) : Bytes := (code.drop start).take n

/-- `StringRef::trim(Punc)`. -/
def trim (code : Bytes) : Bytes := (code.dropWhile isPunc).rdropWhile isPunc

/-- `APParams.Path`: `Code.substr(From, To - From).trim(Punc)` after both loops. -/
def attrPath (code : Bytes) (offset : Nat) : Except Fault Bytes := do
  let From ← scanFrom code offset
  let To ← scanTo code offset
  pure (trim (substr code From (To - From)))

/-! ## The left loop -/

section Loops

variable {code : Bytes} {i : Nat} {c : UInt8}

theorem charAt_eq_ok (h : code[i]? = some c) : charAt code i = .ok c := by
  simp [charAt, h]

theorem charAt_of_length_le (h : code.length ≤ i) : charAt code i = .error (.outOfBounds i) := by
  simp [charAt, List.getElem?_eq_none h]

theorem scanFrom_of_isPunc (h : code[i]? = some c) (hc : isPunc c = true) :
    scanFrom code i = .ok i := by
  cases i <;> simp [scanFrom, charAt_eq_ok h, hc]

theorem scanFrom_succ_of_not_isPunc (h : code[i + 1]? = some c) (hc : isPunc c = false) :
    scanFrom code (i + 1) = scanFrom code i := by
  simp [scanFrom, charAt_eq_ok h, hc]

/-- Index `0` holds no separator: the loop goes on to `Code[SIZE_MAX]`. -/
theorem scanFrom_zero_of_not_isPunc (h : code[0]? = some c) (hc : isPunc c = false) :
    scanFrom code 0 = .error (.outOfBounds sizeMax) := by
  simp [scanFrom, charAt_eq_ok h, hc]

theorem scanFrom_of_length_le (h : code.length ≤ i) :
    scanFrom code i = .error (.outOfBounds i) := by
  cases i <;> simp [scanFrom, charAt_of_length_le h]

/-- Over `n` bytes with no separator the loop moves `n` to the left. -/
theorem scanFrom_add (j : Nat) :
    ∀ n, (∀ k < n, ∃ c, code[j + k + 1]? = some c ∧ isPunc c = false) →
      scanFrom code (j + n) = scanFrom code j
  | 0, _ => rfl
  | n + 1, h => by
      obtain ⟨c, hc, hp⟩ := h n (by omega)
      rw [← Nat.add_assoc, scanFrom_succ_of_not_isPunc hc hp]
      exact scanFrom_add j n fun k hk => h k (by omega)

/-! ## The right loop -/

theorem scanTo_of_lt (h : i < code.length) :
    scanTo code i =
      (charAt code i >>= fun c => if isPunc c then pure i else scanTo code (i + 1)) := by
  obtain ⟨n, hn⟩ : ∃ n, code.length - i = n + 1 := ⟨code.length - i - 1, by omega⟩
  have hn' : code.length - (i + 1) = n := by omega
  rw [scanTo, hn, scanToAux, if_pos h, scanTo, hn']

theorem scanTo_of_length_le (h : code.length ≤ i) : scanTo code i = .ok i := by
  simp [scanTo, Nat.sub_eq_zero_of_le h, scanToAux]

theorem scanTo_of_isPunc (h : code[i]? = some c) (hc : isPunc c = true) :
    scanTo code i = .ok i := by
  simp [scanTo_of_lt (List.getElem?_eq_some_iff.1 h).1, charAt_eq_ok h, hc]

theorem getElem?_append_length (A l : Bytes) (x : UInt8) : (A ++ x :: l)[A.length]? = some x := by
  rw [List.getElem?_append_right le_rfl, Nat.sub_self]
  simp

/-- From the start of `B` the loop moves over the bytes of `B` before its first separator. -/
theorem scanTo_append (A B : Bytes) :
    scanTo (A ++ B) A.length = .ok (A.length + (B.takeWhile (! isPunc ·)).length) := by
  induction B generalizing A with
  | nil => simp [scanTo_of_length_le]
  | cons b B ih =>
      rw [scanTo_of_lt (by simp), charAt_eq_ok (getElem?_append_length A B b)]
      cases hb : isPunc b
      · simpa [hb, Nat.add_assoc, Nat.add_comm 1] using ih (A ++ [b])
      · simp [hb]

end Loops

/-! ## The path -/

section Path

variable {code : Bytes} {o : Nat} {c : UInt8}

theorem trim_cons_of_isPunc {p : UInt8} (hp : isPunc p = true) (l : Bytes) :
    trim (p :: l) = trim l := by
  simp [trim, List.dropWhile_cons_of_pos hp]

theorem trim_of_forall (l : Bytes) (h : ∀ x ∈ l, isPunc x = false) : trim l = l := by
  rw [trim, List.dropWhile_eq_self_iff.2 fun hl => by simp [h _ (List.getElem_mem hl)],
    List.rdropWhile_eq_self_iff.2 fun hl => by simp [h _ (List.getLast_mem hl)]]

theorem takeWhile_of_head_isPunc {post : Bytes} (h : ∀ x ∈ post.head?, isPunc x = true) :
    post.takeWhile (! isPunc ·) = [] := by
  cases post with
  | nil => rfl
  | cons x post => simp [h x rfl]

theorem getElem?_run (A R post : Bytes) (p : UInt8) {k : Nat} (hk : k < R.length) :
    (A ++ p :: (R ++ post))[A.length + k + 1]? = some R[k] := by
  rw [List.getElem?_append_right (by omega), show A.length + k + 1 - A.length = k + 1 by omega]
  simp [List.getElem?_append_left hk]

theorem append_run_split (A R post : Bytes) (p : UInt8) (k : Nat) :
    A ++ p :: (R ++ post) = (A ++ p :: R.take k) ++ (R.drop k ++ post) := by
  rw [List.append_assoc, List.cons_append, ← List.append_assoc (R.take k), List.take_append_drop]

theorem takeWhile_drop_run {R post : Bytes} (k : Nat) (hR : ∀ x ∈ R, isPunc x = false)
    (hpost : ∀ x ∈ post.head?, isPunc x = true) :
    (R.drop k ++ post).takeWhile (! isPunc ·) = R.drop k := by
  rw [List.takeWhile_append_of_pos fun x hx => by simp [hR x (List.mem_of_mem_drop hx)],
    takeWhile_of_head_isPunc hpost, List.append_nil]

/-- A cursor on a separator gives the empty path. -/
theorem attrPath_of_isPunc (h : code[o]? = some c) (hc : isPunc c = true) :
    attrPath code o = .ok [] := by
  simp [attrPath, scanFrom_of_isPunc h hc, scanTo_of_isPunc h hc, substr, trim]

/-- A cursor inside a run `R` of non-separators that follows a separator `p` gives `R`. -/
theorem attrPath_of_run (A R post : Bytes) {p : UInt8} {k : Nat} (hp : isPunc p = true)
    (hR : ∀ x ∈ R, isPunc x = false) (hpost : ∀ x ∈ post.head?, isPunc x = true)
    (hk : k < R.length) : attrPath (A ++ p :: (R ++ post)) (A.length + 1 + k) = .ok R := by
  have hFrom : scanFrom (A ++ p :: (R ++ post)) (A.length + 1 + k) = .ok A.length := by
    rw [show A.length + 1 + k = A.length + (k + 1) by omega, scanFrom_add A.length (k + 1)
      fun i hi => ⟨R[i], getElem?_run A R post p (by omega), hR _ (List.getElem_mem _)⟩]
    exact scanFrom_of_isPunc (getElem?_append_length A _ p) hp
  have hTo : scanTo (A ++ p :: (R ++ post)) (A.length + 1 + k) = .ok (A.length + (R.length + 1)) := by
    have h := scanTo_append (A ++ p :: R.take k) (R.drop k ++ post)
    rw [takeWhile_drop_run k hR hpost, ← append_run_split] at h
    simp only [List.length_append, List.length_cons, List.length_take, List.length_drop,
      Nat.min_eq_left hk.le] at h
    convert h using 2 <;> omega
  simp [attrPath, hFrom, hTo, substr, List.take_left', trim_cons_of_isPunc hp, trim_of_forall R hR]

/-- A cursor inside a run `R` of non-separators that starts the text: the left loop passes
index `0`. -/
theorem attrPath_of_leading_run (R post : Bytes) {k : Nat} (hR : ∀ x ∈ R, isPunc x = false)
    (hk : k < R.length) : attrPath (R ++ post) k = .error (.outOfBounds sizeMax) := by
  have hFrom : scanFrom (R ++ post) k = .error (.outOfBounds sizeMax) := by
    rw [← Nat.zero_add k, scanFrom_add 0 k fun i hi =>
      ⟨R[i + 1], by rw [Nat.zero_add, List.getElem?_append_left (by omega),
        List.getElem?_eq_getElem], hR _ (List.getElem_mem _)⟩]
    exact scanFrom_zero_of_not_isPunc (c := R[0]) (by simp [List.getElem?_append_left
      (show 0 < R.length by omega)]) (hR _ (List.getElem_mem _))
  simp [attrPath, hFrom]

/-- A cursor at or past the end of the text: the left loop first reads `Code[Offset]`. -/
theorem attrPath_of_length_le (h : code.length ≤ o) :
    attrPath code o = .error (.outOfBounds o) := by
  simp [attrPath, scanFrom_of_length_le h]

/-- The attribute path the spec describes at index `o`: the longest run of non-separators
that contains `o`, empty when `Code[o]` is a separator. -/
def runAt (code : Bytes) (o : Nat) : Bytes :=
  match code[o]? with
  | some c =>
      if isPunc c then []
      else ((code.take o).reverse.takeWhile (! isPunc ·)).reverse ++
        (code.drop o).takeWhile (! isPunc ·)
  | none => []

/-- The spec's path at a cursor inside a run `R` of non-separators with a separator or the
start of the text before it, and a separator or the end of the text after it: `R`. -/
theorem runAt_of_run (pre R post : Bytes) {k : Nat} (hpre : ∀ x ∈ pre.getLast?, isPunc x = true)
    (hR : ∀ x ∈ R, isPunc x = false) (hpost : ∀ x ∈ post.head?, isPunc x = true)
    (hk : k < R.length) : runAt (pre ++ (R ++ post)) (pre.length + k) = R := by
  have hsplit : pre ++ (R ++ post) = (pre ++ R.take k) ++ (R.drop k ++ post) := by
    rw [List.append_assoc, ← List.append_assoc (R.take k), List.take_append_drop]
  have hlen : (pre ++ R.take k).length = pre.length + k := by simp [Nat.min_eq_left hk.le]
  have hleft : (pre.reverse).takeWhile (! isPunc ·) = [] := by
    cases h : pre.reverse with
    | nil => rfl
    | cons x _ => simp [hpre x (by simp [List.getLast?_eq_head?_reverse, h])]
  rw [runAt, hsplit, ← hlen, List.getElem?_append_right le_rfl, Nat.sub_self,
    List.take_left' rfl, List.drop_left' rfl, takeWhile_drop_run k hR hpost]
  have hd : (R.drop k ++ post)[0]? = some R[k] := by
    rw [List.getElem?_append_left (by simp; omega)]
    simp [hk]
  simp only [hd, hR _ (List.getElem_mem hk), List.reverse_append, Bool.false_eq_true, ite_false]
  rw [List.takeWhile_append_of_pos fun x hx => by
    simp [hR x (List.mem_of_mem_take (List.mem_reverse.1 hx))], hleft]
  simp

/-- Where a separator precedes the cursor's run, the path the code computes is the spec's. -/
theorem attrPath_eq_runAt (A R post : Bytes) {p : UInt8} {k : Nat} (hp : isPunc p = true)
    (hR : ∀ x ∈ R, isPunc x = false) (hpost : ∀ x ∈ post.head?, isPunc x = true)
    (hk : k < R.length) :
    attrPath (A ++ p :: (R ++ post)) (A.length + 1 + k) =
      .ok (runAt (A ++ p :: (R ++ post)) (A.length + 1 + k)) := by
  have h := runAt_of_run (A ++ [p]) R post (by simp [hp]) hR hpost hk
  simp only [List.append_assoc, List.singleton_append, List.length_append,
    List.length_singleton] at h
  rw [h, attrPath_of_run A R post hp hR hpost hk]

/-- `a;foo b` with the cursor on the first `o`: both give `foo`. -/
theorem attrPath_eq_runAt_after_semicolon :
    attrPath [97, 59, 102, 111, 111, 32, 98] 3 = .ok (runAt [97, 59, 102, 111, 111, 32, 98] 3) :=
  attrPath_eq_runAt [97] [102, 111, 111] [32, 98] (k := 1) (by decide) (by decide) (by decide)
    (by decide)

end Path

/-- The first word of a text, `foo` with the cursor on its second byte: the spec's path is
`foo`, and the left loop passes index `0`. -/
theorem attrPath_first_word :
    attrPath [102, 111, 111] 1 = .error (.outOfBounds sizeMax) ∧
      runAt [102, 111, 111] 1 = [102, 111, 111] :=
  ⟨attrPath_of_leading_run [102, 111, 111] [] (k := 1) (by decide) (by decide),
    runAt_of_run [] [102, 111, 111] [] (k := 1) (by decide) (by decide) (by decide) (by decide)⟩

/-- A text holding a separator splits at its last one. -/
theorem exists_last_isPunc : ∀ {T : Bytes}, T.any isPunc = true →
    ∃ A p L, T = A ++ p :: L ∧ isPunc p = true ∧ ∀ x ∈ L, isPunc x = false := by
  intro T
  induction T using List.reverseRecOn with
  | nil => simp
  | append_singleton T x ih =>
      intro h
      cases hx : isPunc x
      · obtain ⟨A, p, L, rfl, hp, hL⟩ := ih (by simpa [hx] using h)
        refine ⟨A, p, L ++ [x], by simp, hp, fun y hy => ?_⟩
        rcases List.mem_append.1 hy with hy | hy
        · exact hL y hy
        · rw [List.mem_singleton.1 hy]
          exact hx
      · exact ⟨T, x, [], rfl, hx, by simp⟩

/-- A cursor on the last byte `x` of a run `L ++ [x]` of non-separators that follows a
separator `p`, whatever comes after: the path the code computes is the spec's. -/
theorem attrPath_after_isPunc (A L D : Bytes) {p x : UInt8} (hp : isPunc p = true)
    (hL : ∀ y ∈ L ++ [x], isPunc y = false) :
    attrPath (A ++ p :: (L ++ [x] ++ D)) (A.length + 1 + L.length) =
      .ok (runAt (A ++ p :: (L ++ [x] ++ D)) (A.length + 1 + L.length)) := by
  set R := L ++ [x] ++ D.takeWhile (! isPunc ·) with hRdef
  have hR : ∀ y ∈ R, isPunc y = false := by
    intro y hy
    rcases List.mem_append.1 hy with hy | hy
    · exact hL y hy
    · simpa using List.mem_takeWhile_imp hy
  have hpost : ∀ y ∈ (D.dropWhile (! isPunc ·)).head?, isPunc y = true := by
    intro y hy
    have h := List.head?_dropWhile_not (! isPunc ·) D
    rw [Option.mem_def] at hy
    rw [hy] at h
    simpa using h
  have hk : L.length < R.length := by simp [hRdef]
  have hrun := runAt_of_run (A ++ [p]) R _ (by simp [hp]) hR hpost hk
  rw [show A ++ [p] ++ (R ++ D.dropWhile (! isPunc ·)) =
      A ++ p :: (R ++ D.dropWhile (! isPunc ·)) by simp,
    show (A ++ [p]).length + L.length = A.length + 1 + L.length by simp] at hrun
  rw [show L ++ [x] ++ D = R ++ D.dropWhile (! isPunc ·) by
      rw [hRdef, List.append_assoc (L ++ [x]), List.takeWhile_append_dropWhile],
    attrPath_of_run A R _ hp hR hpost hk, hrun]

/-- For every text and every offset, the path the declaration task computes: a fault when
the cursor is at or past the end (`Code[Offset]`), a fault when no separator lies at or
before the cursor (the left loop passes index `0` and reads `Code[SIZE_MAX]`), and
otherwise exactly the spec's path, the run of non-separators around the cursor. -/
theorem attrPath_eq_runAt_or_fault (code : Bytes) (o : Nat) :
    attrPath code o =
      if code.length ≤ o then .error (.outOfBounds o)
      else if (code.take (o + 1)).any isPunc then .ok (runAt code o)
      else .error (.outOfBounds sizeMax) := by
  by_cases hlen : code.length ≤ o
  · rw [if_pos hlen, attrPath_of_length_le hlen]
  rw [if_neg hlen]
  have hT : (code.take (o + 1)).length = o + 1 := by simp; omega
  have hcode : code = code.take (o + 1) ++ code.drop (o + 1) := (List.take_append_drop _ _).symm
  cases hany : (code.take (o + 1)).any isPunc
  · -- no separator at or before the cursor
    have hR : ∀ x ∈ code.take (o + 1), isPunc x = false := by simpa using hany
    rw [if_neg Bool.false_ne_true, hcode,
      attrPath_of_leading_run _ _ hR (by omega : o < (code.take (o + 1)).length)]
  rw [if_pos rfl]
  obtain ⟨A, p, L, hsplit, hp, hL⟩ := exists_last_isPunc hany
  have hlenT : A.length + L.length = o := by
    have h := congrArg List.length hsplit
    rw [hT] at h
    simp at h
    omega
  rcases List.eq_nil_or_concat L with rfl | ⟨L, x, rfl⟩
  · -- the cursor is on the separator `p` itself
    have ho : code[o]? = some p := by
      rw [hcode, List.getElem?_append_left (by omega), hsplit, ← hlenT]
      simp
    rw [attrPath_of_isPunc ho hp]
    simp [runAt, ho, hp]
  · -- the cursor is on `x`, the last byte of the run after `p`
    simp only [List.concat_eq_append] at hL hsplit hlenT
    have ho : o = A.length + 1 + L.length := by simp at hlenT; omega
    have hcode' : code = A ++ p :: (L ++ [x] ++ code.drop (o + 1)) :=
      hcode.trans (by rw [hsplit]; simp)
    rw [ho, hcode']
    exact attrPath_after_isPunc A L _ hp hL

/-- The task `onDecalration` posts, run on the state `s` of the moment it runs.
`positionToOffset` (from `lspserver/SourceCode.h`) and `askWC`, the replies the option
workers send within the deadline for a path, are parameters. -/
def onDecalrationTask (positionToOffset : Bytes → Position → Except String Nat)
    (askWC : Bytes → List Location) (s : Server δ) (params : TextDocumentPositionParams) :
    Except Fault (Reply Location) := do
  let draft ← deref (s.draftMgr params.textDocument.uri.file)
  let offset ← Expected.get (positionToOffset draft.contents params.position)
  let path ← attrPath draft.contents offset
  pure <| match (askWC path).getLast? with
    | none => .null
    | some l => .value l

/-- `Server::onDecalration`: `null` at once when options are disabled in the state `s` of the
request; otherwise the task, run later on the state `t`. -/
def onDecalration (positionToOffset : Bytes → Position → Except String Nat)
    (askWC : Bytes → List Location) (s t : Server δ) (params : TextDocumentPositionParams) :
    Except Fault (Reply Location) :=
  if s.config.options.enable then onDecalrationTask positionToOffset askWC t params
  else pure .null

/-- `StringRef::rsplit(" ")`: the bytes before and after the last space, or the whole and
nothing when there is none. -/
def rsplitSpace (code : Bytes) : Bytes × Bytes :=
  match code.reverse.span (· ≠ ' '.toUInt8) with
  | (_, []) => (code, [])
  | (after, _ :: before) => (before.reverse, after.reverse)

/-- The attribute path `CompletionFromOptions` sends to the option workers: for a
completion triggered by `.`, the text before the cursor after its last space. -/
def completionAttrPath (positionToOffset : Bytes → Position → Except String Nat)
    (s : Server δ) (params : CompletionParams) : Except Fault Bytes :=
  if params.context.triggerCharacter = "." then do
    let draft ← deref (s.draftMgr params.textDocument.uri.file)
    let position ← Expected.get (positionToOffset draft.contents params.position)
    pure (rsplitSpace (substr draft.contents 0 position)).2
  else pure []

theorem onDecalrationTask_of_draftMgr_none (positionToOffset : Bytes → Position → Except String Nat)
    (askWC : Bytes → List Location) {s : Server δ} {params : TextDocumentPositionParams}
    (h : s.draftMgr params.textDocument.uri.file = none) :
    onDecalrationTask positionToOffset askWC s params = .error .nullDeref := by
  simp [onDecalrationTask, h]

/-- With `a.nix` holding `a` and `b.nix` empty, both opened on a fresh controller: the task
reads `Code[SIZE_MAX]` for a cursor on the only byte of `a.nix`, `Code[0]` for the cursor at
the end of `b.nix`, and calls `get()` on the error `positionToOffset` returns for a line past
the text; the completion triggered by `.` does the same. -/
theorem onDecalrationTask_faults :
    let s : Server Unit := ((Server.fresh (δ := Unit) 0 ⟨⟨0, by decide⟩, ⟨true⟩, ⟨"nixfmt"⟩⟩ 0 0).onDocumentDidOpen
      ⟨⟨⟨"a.nix"⟩, some 1, [97]⟩⟩ .failed).onDocumentDidOpen ⟨⟨⟨"b.nix"⟩, some 1, []⟩⟩ .failed
    onDecalrationTask (fun _ _ => .ok 0) (fun _ => []) s ⟨⟨⟨"a.nix"⟩⟩, ⟨0, 0⟩⟩ =
        .error (.outOfBounds sizeMax) ∧
      onDecalrationTask (fun _ _ => .ok 0) (fun _ => []) s ⟨⟨⟨"b.nix"⟩⟩, ⟨0, 0⟩⟩ =
        .error (.outOfBounds 0) ∧
      onDecalrationTask (fun _ _ => .error "Line value out of range") (fun _ => []) s
        ⟨⟨⟨"a.nix"⟩⟩, ⟨1, 0⟩⟩ = .error .uncheckedGet ∧
      completionAttrPath (fun _ _ => .error "Line value out of range") s
        ⟨⟨⟨"a.nix"⟩⟩, ⟨1, 0⟩, ⟨"."⟩⟩ = .error .uncheckedGet :=
  ⟨rfl, rfl, rfl, rfl⟩

end Nixd
