/-
# NovaRuntime.Sql.Like — LIKE and the regular expression it is turned into

`likePieces` reads a pattern as LIKE has it. `pat_to_regex` writes a regular expression, one `Atom`
after the other, and each atom means the piece it was written for (`patToRegexChars_eq`). The exception
is a backslash before a character of the regex syntax: the source escapes the backslash and writes the
character as it is, so that it keeps its meaning in the regex (`SafeEscapes`).

`RegexLaws` is what the documentation of the package says of expressions made of such atoms, between
`^` and `$`, where `.` stands for every character. An expression past its size limit is an error.
-/
import NovaRuntime.Library.Wildcards
import NovaRuntime.Sql.Evaluate

namespace NovaRuntime.Sql

open NovaRuntime.Library

set_option autoImplicit false

/-! ## Patterns -/

/-- **What a LIKE pattern means**: `%` is any sequence, `_` any one character, a backslash before one of
these or before another backslash is that character, and everything else is itself. -/
def likePieces : Text → List (Piece Char)
  | [] => []
  | '%' :: rest => .many :: likePieces rest
  | '_' :: rest => .one :: likePieces rest
  | '\\' :: c :: rest =>
    if c = '%' ∨ c = '_' ∨ c = '\\' then .exactly c :: likePieces rest
    else .exactly '\\' :: .exactly c :: likePieces rest
  | c :: rest => .exactly c :: likePieces rest

example : likePieces "a\\%_".toList = [.exactly 'a', .exactly '%', .one] := by decide

/-- LIKE matches the texts of the pattern, and no text makes it fail. -/
def LikeExact (X : Extern) (p : Text) : Prop :=
  ∀ s, evalLike X (.string s) (.string p) false = .ok (.boolean (matchesPieces (likePieces p) s))

/-! ## Regular expressions -/

/-- The characters that a regular expression does not take for themselves. -/
def syntaxChars : Text := "\\.+*?^$()[\x7b|".toList

/-- The characters that may be escaped. -/
def metaChars : Text := "\\.+*?^$()[]\x7b\x7d|".toList

/-- A part of a regular expression: `.`, `.*`, or one character, as it is or escaped. -/
inductive Atom where
  | dot
  | dotStar
  | plain (c : Char) (itself : c ∉ syntaxChars)
  | escaped (c : Char) (isMeta : c ∈ metaChars)

namespace Atom

def render : Atom → Text
  | .dot => ['.']
  | .dotStar => ['.', '*']
  | .plain c _ => [c]
  | .escaped c _ => ['\\', c]

def meaning : Atom → Piece Char
  | .dot => .one
  | .dotStar => .many
  | .plain c _ | .escaped c _ => .exactly c

end Atom

/-- The expression of `pat_to_regex` around some atoms. -/
def anchored (atoms : List Atom) : Text := "^(?s)".toList ++ atoms.flatMap Atom.render ++ ['$']

/-- **What is documented of the package `regex`** for expressions of this form: one that is not too large
is matched as its atoms mean it, one that is too large is an error. -/
structure RegexLaws (X : Extern) (tooLarge : Text → Prop) : Prop where
  small : ∀ atoms s, ¬ tooLarge (anchored atoms) →
    X.isMatch (anchored atoms) s = .ok (matchesPieces (atoms.map Atom.meaning) s)
  large : ∀ atoms s, tooLarge (anchored atoms) → ∃ e, X.isMatch (anchored atoms) s = .error e

/-! ## From patterns to expressions -/

/-- No backslash stands before a character of the regex syntax, other than a backslash. -/
def SafeEscapes : Text → Prop
  | '\\' :: c :: rest => (c = '\\' ∨ c ∉ syntaxChars) ∧ SafeEscapes rest
  | _ :: rest => SafeEscapes rest
  | [] => True

section Characters

variable {c : Char} {rest : Text}

theorem not_backslash (noEscape : ∀ d later, c = '\\' → rest = d :: later → False)
    (notLast : c = '\\' → rest = [] → False) : c ≠ '\\' := by
  rintro rfl
  cases rest with
  | nil => exact notLast rfl rfl
  | cons d later => exact noEscape d later rfl rfl

theorem likePieces_cons (notMany : c ≠ '%') (notOne : c ≠ '_') (notBackslash : c ≠ '\\') :
    likePieces (c :: rest) = .exactly c :: likePieces rest := by
  rw [likePieces]
  all_goals simp_all

theorem safeEscapes_cons (notBackslash : c ≠ '\\') : SafeEscapes (c :: rest) ↔ SafeEscapes rest := by
  rw [SafeEscapes]
  simp_all

/-- What the source does not escape is not of the regex syntax. -/
theorem ordinary_itself (notBackslash : c ≠ '\\') (ordinary : c ∉ ".+*?^$()[]\x7b\x7d|".toList) : c ∉ syntaxChars := by
  have special : syntaxChars = ['\\', '.', '+', '*', '?', '^', '$', '(', ')', '[', '\x7b', '|'] :=
    String.toList_ofList
  have escaped : ".+*?^$()[]\x7b\x7d|".toList =
      ['.', '+', '*', '?', '^', '$', '(', ')', '[', ']', '\x7b', '\x7d', '|'] := String.toList_ofList
  rw [special, List.mem_cons]
  rw [escaped] at ordinary
  rintro (rfl | member)
  · exact notBackslash rfl
  · exact ordinary (List.Sublist.subset (by decide) member)

end Characters

/-- **Each atom means the piece it is written for.** -/
theorem patToRegexChars_eq {p : Text} (safe : SafeEscapes p) :
    ∃ atoms : List Atom, patToRegexChars p = atoms.flatMap Atom.render ∧
      atoms.map Atom.meaning = likePieces p := by
  fun_induction patToRegexChars p with
  | case1 => exact ⟨[], rfl, rfl⟩
  | case2 rest ih =>
    obtain ⟨atoms, written, meant⟩ := ih (by simpa [SafeEscapes] using safe)
    exact ⟨.dotStar :: atoms, by simp [Atom.render, written], by simp [Atom.meaning, meant, likePieces]⟩
  | case3 rest ih =>
    obtain ⟨atoms, written, meant⟩ := ih (by simpa [SafeEscapes] using safe)
    exact ⟨.dot :: atoms, by simp [Atom.render, written], by simp [Atom.meaning, meant, likePieces]⟩
  | case4 rest ih =>
    obtain ⟨atoms, written, meant⟩ := ih (by simpa [SafeEscapes] using safe.2)
    exact ⟨.plain '%' (by decide) :: atoms, by simp [Atom.render, written], by simp [Atom.meaning, meant, likePieces]⟩
  | case5 rest ih =>
    obtain ⟨atoms, written, meant⟩ := ih (by simpa [SafeEscapes] using safe.2)
    exact ⟨.plain '_' (by decide) :: atoms, by simp [Atom.render, written], by simp [Atom.meaning, meant, likePieces]⟩
  | case6 rest _ _ ih =>
    obtain ⟨atoms, written, meant⟩ := ih (by simpa [SafeEscapes] using safe.2)
    exact ⟨.escaped '\\' (by decide) :: atoms, by simp [Atom.render, written], by simp [Atom.meaning, meant, likePieces]⟩
  | case7 c rest notMany notOne notBackslash ih =>
    -- the backslash is escaped, and the character after it stands as it is
    obtain ⟨atoms, written, meant⟩ := ih safe.2
    have itself : c ∉ syntaxChars := safe.1.resolve_left notBackslash
    refine ⟨.escaped '\\' (by decide) :: .plain c itself :: atoms, by simp [Atom.render, written], ?_⟩
    simp [Atom.meaning, meant, likePieces, notBackslash]
    exact ⟨notMany, notOne⟩
  | case8 => exact ⟨[.escaped '\\' (by decide)], rfl, rfl⟩
  | case9 c rest notMany notOne _ _ noEscape notLast special ih =>
    have notBackslash := not_backslash noEscape notLast
    obtain ⟨atoms, written, meant⟩ := ih ((safeEscapes_cons notBackslash).mp safe)
    have isMeta : c ∈ metaChars := .tail _ special
    exact ⟨.escaped c isMeta :: atoms, by simp [Atom.render, written],
      by simp [Atom.meaning, meant, likePieces_cons notMany notOne notBackslash]⟩
  | case10 c rest notMany notOne _ _ noEscape notLast ordinary ih =>
    have notBackslash := not_backslash noEscape notLast
    obtain ⟨atoms, written, meant⟩ := ih ((safeEscapes_cons notBackslash).mp safe)
    exact ⟨.plain c (ordinary_itself notBackslash ordinary) :: atoms, by simp [Atom.render, written],
      by simp [Atom.meaning, meant, likePieces_cons notMany notOne notBackslash]⟩

/-! ## The theorem -/

section Calls

variable {X : Extern} {p s : Text}

theorem evalLike_of_ok {matched : Bool} (ran : X.isMatch (patToRegex p) s = .ok matched) :
    evalLike X (.string s) (.string p) false = .ok (.boolean matched) := by
  simp [evalLike, ran]

theorem evalLike_of_error {e : Text} (ran : X.isMatch (patToRegex p) s = .error e) :
    evalLike X (.string s) (.string p) false = .err (.internal ("invalid LIKE pattern: ".toList ++ e)) := by
  simp [evalLike, ran]

end Calls

/-- **A pattern whose escapes are safe is matched as LIKE has it, exactly if its expression is not past
the size limit of the package.** -/
theorem likeExact_iff {X : Extern} {tooLarge : Text → Prop} (regex : RegexLaws X tooLarge) {p : Text}
    (safe : SafeEscapes p) : LikeExact X p ↔ ¬ tooLarge (patToRegex p) := by
  obtain ⟨atoms, written, meant⟩ := patToRegexChars_eq safe
  have expression : patToRegex p = anchored atoms := by rw [patToRegex, written, anchored]
  constructor
  · intro exactly large
    rw [expression] at large
    obtain ⟨e, failed⟩ := regex.large atoms [] large
    have ended := exactly []
    rw [evalLike_of_error (expression ▸ failed)] at ended
    cases ended
  · intro fits s
    rw [expression] at fits
    have ran := regex.small atoms s fits
    rw [meant, ← expression] at ran
    exact evalLike_of_ok ran

/-! ## An engine for these expressions -/

/-- The pieces an expression is made of, after its start. -/
def readAtoms : Text → Option (List (Piece Char))
  | [] => none
  | ['$'] => some []
  | '.' :: '*' :: rest => (readAtoms rest).map (.many :: ·)
  | '.' :: rest => (readAtoms rest).map (.one :: ·)
  | '\\' :: c :: rest => if c ∈ metaChars then (readAtoms rest).map (.exactly c :: ·) else none
  | c :: rest => if c ∈ syntaxChars then none else (readAtoms rest).map (.exactly c :: ·)

/-- `Regex::new` and `is_match` on anchored expressions. -/
def matchAnchored (expression text : Text) : Except Text Bool :=
  if expression.take 5 = "^(?s)".toList then
    match readAtoms (expression.drop 5) with
    | some pieces => .ok (matchesPieces pieces text)
    | none => .error "not supported".toList
  else .error "not supported".toList

def Extern.regex : Extern := { Extern.ascii with isMatch := matchAnchored }

/-- No atom starts with a star. -/
theorem flatMap_render_ne_star (atoms : List Atom) (later : Text) :
    atoms.flatMap Atom.render ++ ['$'] ≠ '*' :: later := by
  cases atoms with
  | nil => simp
  | cons atom atoms =>
    cases atom with
    | dot | dotStar | escaped c isMeta => simp [Atom.render]
    | plain c itself =>
      have notStar : c ≠ '*' := by
        rintro rfl
        exact itself (by decide)
      simp [Atom.render, notStar]

theorem readAtoms_render (atoms : List Atom) :
    readAtoms (atoms.flatMap Atom.render ++ ['$']) = some (atoms.map Atom.meaning) := by
  induction atoms with
  | nil => rfl
  | cons atom atoms ih =>
    rw [List.flatMap_cons, List.append_assoc, List.map_cons]
    cases atom with
    | dot =>
      have noStar := flatMap_render_ne_star atoms
      simp only [Atom.render, List.singleton_append]
      rw [readAtoms, ih]
      · rfl
      · exact fun later same => noStar later same
    | dotStar =>
      simp only [Atom.render, List.cons_append, List.nil_append]
      rw [readAtoms, ih]
      rfl
    | plain c itself =>
      have notDollar : c ≠ '$' := by
        rintro rfl
        exact itself (by decide)
      have notDot : c ≠ '.' := by
        rintro rfl
        exact itself (by decide)
      have notBackslash : c ≠ '\\' := by
        rintro rfl
        exact itself (by decide)
      simp only [Atom.render, List.singleton_append]
      rw [readAtoms, if_neg itself, ih]
      · rfl
      all_goals simp_all
    | escaped c isMeta =>
      simp only [Atom.render, List.cons_append, List.nil_append]
      rw [readAtoms, if_pos isMeta, ih]
      rfl

theorem Extern.regex_laws : RegexLaws Extern.regex fun _ => False where
  small := fun atoms s _ => by
    have pieces := readAtoms_render atoms
    show matchAnchored (anchored atoms) s = _
    have start : (anchored atoms).take 5 = "^(?s)".toList := by simp [anchored]
    have rest : (anchored atoms).drop 5 = atoms.flatMap Atom.render ++ ['$'] := by simp [anchored]
    rw [matchAnchored, if_pos start, rest, pieces]
  large := fun _ _ impossible => impossible.elim

/-- The pattern `5\%_`. -/
theorem likeExact_sample : LikeExact Extern.regex ['5', '\\', '%', '_'] ↔ ¬ False :=
  likeExact_iff Extern.regex_laws ⟨.inr (by decide), trivial⟩

/-- The pattern `\.` matches a backslash and any character. -/
theorem escaped_dot_matches_any :
    evalLike Extern.regex (.string "\\x".toList) (.string "\\.".toList) false = .ok (.boolean true) ∧
      ¬ LikeExact Extern.regex "\\.".toList := by
  have matched : evalLike Extern.regex (.string "\\x".toList) (.string "\\.".toList) false =
      .ok (.boolean true) := by decide +kernel
  refine ⟨matched, fun exactly => ?_⟩
  have asked := exactly "\\x".toList
  rw [matched] at asked
  revert asked
  decide +kernel

end NovaRuntime.Sql
