import Nixd.Server.Document
import Mathlib.Data.String.Basic

/-!
# Versions in and out of the draft store

`Server::encodeVersion` prints the client's `int64_t` version in decimal, or gives the
empty string when there is none; `addDocument` hands that string to `DraftStore` and
decodes it again for the cleared diagnostics and for `ASTMgr.schedParse`. The round trip
gives back every `int64_t` and the absent version: the decimal text `Nat.toDigits` writes
holds digits only, is not empty, and `String.toNat?`'s fold reads the number back; a
negative number is its absolute value behind a `-`. Hence every `didOpen`, and every
`didChange` that reaches `addDocument`, clears the file's diagnostics with the client's
own version and schedules the parse with that version, `0` when there is none.
-/

namespace Nixd

variable {δ : Type}

/-! ## Decimal text -/

theorem digitChar_isDigit : ∀ k < 10, (Nat.digitChar k).isDigit := by decide

theorem digitChar_toNat : ∀ k < 10, (Nat.digitChar k).toNat - '0'.toNat = k := by decide

/-- One step of `Nat.toDigitsCore` in base ten: the last digit goes in front of the
accumulator. -/
theorem toDigitsCore_succ (f n : Nat) (ds : List Char) :
    Nat.toDigitsCore 10 (f + 1) n ds =
      if n / 10 = 0 then Nat.digitChar (n % 10) :: ds
      else Nat.toDigitsCore 10 f (n / 10) (Nat.digitChar (n % 10) :: ds) := rfl

theorem toDigitsCore_append (f n : Nat) (ds : List Char) :
    Nat.toDigitsCore 10 f n ds = Nat.toDigitsCore 10 f n [] ++ ds := by
  induction f generalizing n ds with
  | zero => rfl
  | succ f ih =>
      rw [toDigitsCore_succ, toDigitsCore_succ]
      split
      · rfl
      · rw [ih _ (_ :: ds), ih _ [_]]
        simp

/-- The last digit comes off the end. -/
theorem toDigitsCore_succ_nil (f n : Nat) :
    Nat.toDigitsCore 10 (f + 1) n [] =
      (if n / 10 = 0 then [] else Nat.toDigitsCore 10 f (n / 10) []) ++
        [Nat.digitChar (n % 10)] := by
  rw [toDigitsCore_succ]
  split
  · rfl
  · exact toDigitsCore_append f (n / 10) _

/-- With more fuel than `n`, `toDigitsCore` writes `n` in decimal: at least one character,
digits only, and `String.toNat?`'s fold reads `n` back. -/
theorem toDigitsCore_decimal : ∀ f n, n < f →
    Nat.toDigitsCore 10 f n [] ≠ [] ∧ (∀ c ∈ Nat.toDigitsCore 10 f n [], c.isDigit) ∧
      (Nat.toDigitsCore 10 f n []).foldl (fun n c => n * 10 + (c.toNat - '0'.toNat)) 0 = n
  | 0, n, h => absurd h (Nat.not_lt_zero n)
  | f + 1, n, h => by
      have hk : n % 10 < 10 := Nat.mod_lt n (by decide)
      have hhigh : (∀ c ∈ (if n / 10 = 0 then [] else Nat.toDigitsCore 10 f (n / 10) []),
            c.isDigit) ∧
          (if n / 10 = 0 then [] else Nat.toDigitsCore 10 f (n / 10) []).foldl
            (fun n c => n * 10 + (c.toNat - '0'.toNat)) 0 = n / 10 := by
        split
        · simp [*]
        · exact (toDigitsCore_decimal f (n / 10) (by omega)).2
      rw [toDigitsCore_succ_nil]
      refine ⟨by simp, fun c hc => ?_, ?_⟩
      · rcases List.mem_append.1 hc with hc | hc
        · exact hhigh.1 c hc
        · rw [List.mem_singleton.1 hc]
          exact digitChar_isDigit _ hk
      · rw [List.foldl_append, hhigh.2, List.foldl_cons, List.foldl_nil,
          digitChar_toNat _ hk]
        omega

/-- `String.toNat?` reads back the decimal text of every natural number. -/
theorem toNat?_toString (n : Nat) : (toString n).toNat? = some n := by
  obtain ⟨hne, hdig, hval⟩ := toDigitsCore_decimal (n + 1) n (Nat.lt_succ_self n)
  have hs : toString n = ⟨Nat.toDigitsCore 10 (n + 1) n []⟩ := rfl
  have he : (⟨Nat.toDigitsCore 10 (n + 1) n []⟩ : String).isEmpty = false :=
    Bool.eq_false_iff.2 fun h => hne (congrArg String.data ((String.isEmpty_iff _).1 h))
  rw [hs, String.toNat?, String.isNat, String.all_eq, String.foldl_eq,
    if_pos (by simpa [he] using hdig), hval]

theorem get_zero_mk (c : Char) (cs : List Char) : (⟨c :: cs⟩ : String).get 0 = c := by
  simpa using String.get_of_valid [] (c :: cs)

/-- `String.toInt?` reads back the decimal text of every integer. -/
theorem toInt?_toString (v : Int) : (toString v).toInt? = some v := by
  cases v with
  | ofNat n =>
      obtain ⟨hne, hdig, -⟩ := toDigitsCore_decimal (n + 1) n (Nat.lt_succ_self n)
      obtain ⟨c, cs, hc⟩ := List.exists_cons_of_ne_nil hne
      have hs : toString (Int.ofNat n) = toString n := rfl
      have hminus : (toString n).get 0 ≠ '-' := by
        have h0 : toString n = ⟨c :: cs⟩ := by rw [← hc]; rfl
        rw [h0, get_zero_mk]
        rintro rfl
        exact absurd (hdig '-' (by simp [hc])) (by decide)
      rw [hs]
      simp only [String.toInt?, if_neg hminus, toNat?_toString]
      rfl
  | negSucc n =>
      obtain ⟨-, hdig, hval⟩ := toDigitsCore_decimal (n + 2) (n + 1) (by omega)
      have hs : toString (Int.negSucc n) = ⟨'-' :: Nat.toDigitsCore 10 (n + 2) (n + 1) []⟩ := rfl
      have hsub := (String.validFor_toSubstring
        ⟨'-' :: Nat.toDigitsCore 10 (n + 2) (n + 1) []⟩).drop 1
      simp only [List.take_one, List.drop_one, List.head?_cons, Option.toList_some,
        List.tail_cons] at hsub
      rw [hs, String.toInt?, if_pos (get_zero_mk _ _), Substring.toNat?, Substring.isNat,
        hsub.all, hsub.foldl, if_pos (by simpa using hdig), hval]
      rfl

/-! ## The version round trip -/

/-- Decoding the encoded version gives it back, for every `int64_t` and for none. -/
theorem decodeVersion_encodeVersion (v : Option Int) (hv : ∀ x ∈ v, -2 ^ 63 ≤ x ∧ x < 2 ^ 63) :
    decodeVersion (encodeVersion v) = v := by
  cases v with
  | none => rfl
  | some x =>
      have he : (toString x).isEmpty = false := by
        cases h : (toString x).isEmpty
        · rfl
        · have := toInt?_toString x
          rw [(String.isEmpty_iff _).1 h] at this
          cases this
      simpa [decodeVersion, encodeVersion, he, toInt?_toString] using hv x rfl

namespace Server

/-- A `didOpen` clears the file's diagnostics with the client's version and schedules the
parse of its text with that version, `0` when there is none. -/
theorem onDocumentDidOpen_version (s : Server δ) (params : DidOpenTextDocumentParams)
    (fork : ForkOutcome) (hv : ∀ x ∈ params.textDocument.version, -2 ^ 63 ≤ x ∧ x < 2 ^ 63) :
    (s.onDocumentDidOpen params fork).published =
        s.published ++ [⟨params.textDocument.uri, [], params.textDocument.version⟩] ∧
      (s.onDocumentDidOpen params fork).parses = s.parses ++
        [⟨params.textDocument.text, params.textDocument.uri.file,
          params.textDocument.version.getD 0⟩] := by
  simp [onDocumentDidOpen, decodeVersion_encodeVersion _ hv]

/-- A `didChange` either sends and schedules nothing (no draft, or a change that fails) or
reaches `addDocument` with the new text, which clears the file's diagnostics with the
client's version and schedules the parse with that version, `0` when there is none. -/
theorem onDocumentDidChange_version (applyChange : Bytes → TextDocumentContentChangeEvent → Option Bytes)
    (s : Server δ) (params : DidChangeTextDocumentParams) (fork : ForkOutcome)
    (hv : ∀ x ∈ params.textDocument.version, -2 ^ 63 ≤ x ∧ x < 2 ^ 63) :
    ((s.onDocumentDidChange applyChange params fork).published = s.published ∧
        (s.onDocumentDidChange applyChange params fork).parses = s.parses) ∨
      ∃ newCode, ((s.getDraft params.textDocument.uri.file).bind fun code =>
          applyChanges applyChange code params.contentChanges) = some newCode ∧
        (s.onDocumentDidChange applyChange params fork).published =
          s.published ++ [⟨params.textDocument.uri, [], params.textDocument.version⟩] ∧
        (s.onDocumentDidChange applyChange params fork).parses = s.parses ++
          [⟨newCode, params.textDocument.uri.file, params.textDocument.version.getD 0⟩] := by
  unfold onDocumentDidChange
  dsimp only
  cases hd : s.getDraft params.textDocument.uri.file with
  | none => exact .inl ⟨rfl, rfl⟩
  | some code =>
      cases ha : applyChanges applyChange code params.contentChanges with
      | none => exact .inl (by simp [ha])
      | some newCode =>
          exact .inr ⟨newCode, by simp [ha], by simp [ha, decodeVersion_encodeVersion _ hv]⟩

/-- Every `int64_t` version, and the absent one, comes back from `encodeVersion` then
`decodeVersion`; so each `didOpen`, and each `didChange` that reaches `addDocument`, clears
the file's diagnostics with the client's own version and schedules the parse with it, `0`
when there is none. -/
theorem addDocument_uses_client_version :
    (∀ v : Option Int, (∀ x ∈ v, -2 ^ 63 ≤ x ∧ x < 2 ^ 63) →
      decodeVersion (encodeVersion v) = v) ∧
    (∀ (s : Server δ) (params : DidOpenTextDocumentParams) (fork : ForkOutcome),
      (∀ x ∈ params.textDocument.version, -2 ^ 63 ≤ x ∧ x < 2 ^ 63) →
      (s.onDocumentDidOpen params fork).published =
          s.published ++ [⟨params.textDocument.uri, [], params.textDocument.version⟩] ∧
        (s.onDocumentDidOpen params fork).parses = s.parses ++
          [⟨params.textDocument.text, params.textDocument.uri.file,
            params.textDocument.version.getD 0⟩]) ∧
    ∀ (applyChange : Bytes → TextDocumentContentChangeEvent → Option Bytes) (s : Server δ)
      (params : DidChangeTextDocumentParams) (fork : ForkOutcome),
      (∀ x ∈ params.textDocument.version, -2 ^ 63 ≤ x ∧ x < 2 ^ 63) →
      ((s.onDocumentDidChange applyChange params fork).published = s.published ∧
          (s.onDocumentDidChange applyChange params fork).parses = s.parses) ∨
        ∃ newCode, ((s.getDraft params.textDocument.uri.file).bind fun code =>
            applyChanges applyChange code params.contentChanges) = some newCode ∧
          (s.onDocumentDidChange applyChange params fork).published =
            s.published ++ [⟨params.textDocument.uri, [], params.textDocument.version⟩] ∧
          (s.onDocumentDidChange applyChange params fork).parses = s.parses ++
            [⟨newCode, params.textDocument.uri.file, params.textDocument.version.getD 0⟩] :=
  ⟨decodeVersion_encodeVersion, onDocumentDidOpen_version, onDocumentDidChange_version⟩

theorem addDocument_uses_client_version_int64_extremes :
    decodeVersion (encodeVersion (some (-2 ^ 63))) = some (-2 ^ 63) ∧
      decodeVersion (encodeVersion (some (2 ^ 63 - 1))) = some (2 ^ 63 - 1) ∧
      decodeVersion (encodeVersion none) = none :=
  ⟨(@addDocument_uses_client_version Unit).1 _ (by simp),
    (@addDocument_uses_client_version Unit).1 _ (by simp),
    (@addDocument_uses_client_version Unit).1 _ (by simp)⟩

end Server

end Nixd
