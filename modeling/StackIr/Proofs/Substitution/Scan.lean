import StackIr.Proofs.Failure
import StackIr.Substitution.Text

/-! # What splitting does

    `Scans` is the relation between a substitution string and its tokens, with one rule for
    each way in which a string can start.  Splitting follows the rules and nothing else, so a
    statement about tokens is proved rule by rule and never opens `scan`. -/

namespace StackIr.Substitution

open Alphabet

variable {α : Type} [Alphabet α]

/-! ## Characters -/

theorem dollar_ne_leftBrace : (dollar : α) ≠ leftBrace := by
  have h := distinct (α := α)
  simp only [List.nodup_cons, List.mem_cons, not_or] at h
  exact h.1.1

theorem dollar_ne_rightBrace : (dollar : α) ≠ rightBrace := by
  have h := distinct (α := α)
  simp only [List.nodup_cons, List.mem_cons, not_or] at h
  exact h.1.2.2.1

theorem leftBrace_ne_rightBrace : (leftBrace : α) ≠ rightBrace := by
  have h := distinct (α := α)
  simp only [List.nodup_cons, List.mem_cons, not_or] at h
  exact h.2.1.2.1

theorem rightBrace_ne_bang : (rightBrace : α) ≠ bang := by
  have h := distinct (α := α)
  simp only [List.nodup_cons, List.mem_cons, not_or] at h
  exact Ne.symm h.2.2.1.1

/-! ## Openings and closings -/

variable [DecidableEq α]

@[simp] theorem afterOpening?_eq_some_iff {input rest : List α} :
    afterOpening? input = some rest ↔ input = dollar :: leftBrace :: rest := by
  rcases input with _ | ⟨d, _ | ⟨b, tail⟩⟩
  · simp [afterOpening?]
  · simp [afterOpening?]
  · simp only [afterOpening?, List.cons.injEq]
    split
    · rename_i hopen
      simp [hopen]
    · rename_i hopen
      constructor
      · intro h
        cases h
      · rintro ⟨hd, hb, -⟩
        exact absurd ⟨hd, hb⟩ hopen

@[simp] theorem afterOpening?_cons_eq_none_iff {c : α} {rest : List α} :
    afterOpening? (c :: rest) = none ↔ ¬ (c = dollar ∧ rest.head? = some leftBrace) := by
  cases rest with
  | nil => simp [afterOpening?]
  | cons b tail => simp [afterOpening?]

@[simp] theorem afterBang?_eq_some_iff {input rest : List α} :
    afterBang? input = some rest ↔ input = bang :: rest := by
  cases input with
  | nil => simp [afterBang?]
  | cons c tail => simp [afterBang?]

@[simp] theorem afterBang?_eq_none_iff {input : List α} :
    afterBang? input = none ↔ input.head? ≠ some bang := by
  cases input with
  | nil => simp [afterBang?]
  | cons c tail => simp [afterBang?]

@[simp] theorem closing?_eq_none_iff {input : List α} :
    closing? input = none ↔ rightBrace ∉ input := by
  induction input with
  | nil => simp [closing?]
  | cons c rest ih =>
    rw [closing?]
    by_cases hc : c = rightBrace
    · simp [hc]
    · simp [hc, ih, Ne.symm hc]

/-- A placeholder ends at its first right brace. -/
theorem closing?_eq_some_iff {input body after : List α} :
    closing? input = some (body, after) ↔
      input = body ++ rightBrace :: after ∧ rightBrace ∉ body := by
  induction input generalizing body with
  | nil => simp [closing?]
  | cons c rest ih =>
    rw [closing?]
    by_cases hc : c = rightBrace
    · rw [if_pos hc]
      cases body with
      | nil => simp [hc, eq_comm]
      | cons b body =>
        -- a body cannot go on past the right brace that the input starts with
        simp only [Option.some.injEq, Prod.mk.injEq, reduceCtorEq, false_and, List.cons_append,
          List.cons.injEq, List.mem_cons, not_or, false_iff]
        rintro ⟨⟨hb, -⟩, hne, -⟩
        exact hne (hc.symm.trans hb)
    · rw [if_neg hc]
      cases body with
      | nil => simp [hc]
      | cons b body =>
        simp only [Option.map_eq_some_iff, Prod.exists, Prod.mk.injEq, List.cons.injEq,
          List.cons_append, List.mem_cons, not_or]
        constructor
        · rintro ⟨body', after', hclosing, ⟨rfl, rfl⟩, rfl⟩
          obtain ⟨hrest, hbody⟩ := ih.1 hclosing
          exact ⟨⟨rfl, hrest⟩, Ne.symm hc, hbody⟩
        · rintro ⟨⟨hb, hrest⟩, -, hbody⟩
          exact ⟨body, after, ih.2 ⟨hrest, hbody⟩, ⟨hb, rfl⟩, rfl⟩

/-- The name of a variable does not start with a bang; an empty one is followed by a right
    brace. -/
theorem afterBang?_append_eq_none_iff {body after : List α} :
    afterBang? (body ++ rightBrace :: after) = none ↔ body.head? ≠ some bang := by
  rw [afterBang?_eq_none_iff]
  cases body with
  | nil => simp [rightBrace_ne_bang]
  | cons b body => simp

/-- What was opened and closed is a placeholder. -/
theorem eq_placeholder_append {input inside body after : List α}
    (hopen : afterOpening? input = some inside) (hclose : closing? inside = some (body, after)) :
    input = placeholder body ++ after ∧ rightBrace ∉ body := by
  obtain ⟨rfl, hbody⟩ := closing?_eq_some_iff.1 hclose
  refine ⟨?_, hbody⟩
  rw [afterOpening?_eq_some_iff.1 hopen]
  simp [placeholder]

theorem eq_escapedPlaceholder_append {input inside escaped body after : List α}
    (hopen : afterOpening? input = some inside) (hbang : afterBang? inside = some escaped)
    (hclose : closing? escaped = some (body, after)) :
    input = escapedPlaceholder body ++ after ∧ rightBrace ∉ body := by
  obtain ⟨rfl, hbody⟩ := closing?_eq_some_iff.1 hclose
  refine ⟨?_, hbody⟩
  rw [afterOpening?_eq_some_iff.1 hopen, afterBang?_eq_some_iff.1 hbang]
  simp [escapedPlaceholder]

/-! ## Rules -/

/-- A string and its tokens. -/
inductive Scans : List α → List (Token (List α)) → Prop
  | nil : Scans [] []
  /-- A character that opens no placeholder. -/
  | plain {c : α} {rest : List α} {tokens : List (Token (List α))}
      (hplain : ¬ (c = dollar ∧ rest.head? = some leftBrace)) (h : Scans rest tokens) :
      Scans (c :: rest) (consLiteral [c] tokens)
  | escaped {body after : List α} {tokens : List (Token (List α))} (hbody : rightBrace ∉ body)
      (h : Scans after tokens) :
      Scans (escapedPlaceholder body ++ after) (consLiteral (placeholder body) tokens)
  | var {name after : List α} {tokens : List (Token (List α))} (hname : rightBrace ∉ name)
      (hbang : name.head? ≠ some bang) (h : Scans after tokens) :
      Scans (placeholder name ++ after) (.var name :: tokens)

/-! ## Splitting follows the rules -/

theorem scans_of_scan {input : List α} {tokens : List (Token (List α))}
    (h : scan input = .ok tokens) : Scans input tokens := by
  fun_induction scan input generalizing tokens with
  | case1 =>
    cases h
    exact .nil
  | case2 c rest hopen ih =>
    -- one more character of text
    obtain ⟨tail, hrest, rfl⟩ := map_eq_ok_iff.1 h
    exact .plain (afterOpening?_cons_eq_none_iff.1 hopen) (ih hrest)
  | case3 =>
    -- an escaped group without an end
    cases h
  | case4 c rest inside hopen escaped hbang body after hclose ih =>
    -- an escaped group, which becomes text as a whole
    obtain ⟨tail, hafter, rfl⟩ := map_eq_ok_iff.1 h
    obtain ⟨hinput, hbody⟩ := eq_escapedPlaceholder_append hopen hbang hclose
    rw [hinput]
    exact .escaped hbody (ih hafter)
  | case5 =>
    -- a variable without an end
    cases h
  | case6 c rest inside hopen hbang body after hclose ih =>
    obtain ⟨tail, hafter, rfl⟩ := map_eq_ok_iff.1 h
    obtain ⟨hinput, hbody⟩ := eq_placeholder_append hopen hclose
    rw [(closing?_eq_some_iff.1 hclose).1] at hbang
    rw [hinput]
    exact .var hbody (afterBang?_append_eq_none_iff.1 hbang) (ih hafter)

theorem scan_plain {c : α} {rest : List α}
    (hplain : ¬ (c = dollar ∧ rest.head? = some leftBrace)) :
    scan (c :: rest) = (scan rest).map (consLiteral [c]) := by
  -- the branches of `scan` keep the equations of their tests, so these are settled first
  have hopen : afterOpening? (c :: rest) = none := afterOpening?_cons_eq_none_iff.2 hplain
  rw [scan]
  grind

theorem scan_escaped {body : List α} (hbody : rightBrace ∉ body) (after : List α) :
    scan (escapedPlaceholder body ++ after) =
      (scan after).map (consLiteral (placeholder body)) := by
  have hinput : escapedPlaceholder body ++ after =
      dollar :: leftBrace :: bang :: (body ++ rightBrace :: after) := by
    simp [escapedPlaceholder]
  have hopen : afterOpening? (dollar :: leftBrace :: bang :: (body ++ rightBrace :: after)) =
      some (bang :: (body ++ rightBrace :: after)) :=
    afterOpening?_eq_some_iff.2 rfl
  have hbang : afterBang? (bang :: (body ++ rightBrace :: after)) =
      some (body ++ rightBrace :: after) :=
    afterBang?_eq_some_iff.2 rfl
  have hclose : closing? (body ++ rightBrace :: after) = some (body, after) :=
    closing?_eq_some_iff.2 ⟨rfl, hbody⟩
  rw [hinput, scan]
  grind

theorem scan_variable {name : List α} (hname : rightBrace ∉ name)
    (hbang : name.head? ≠ some bang) (after : List α) :
    scan (placeholder name ++ after) = (scan after).map (.var name :: ·) := by
  have hinput : placeholder name ++ after =
      dollar :: leftBrace :: (name ++ rightBrace :: after) := by
    simp [placeholder]
  have hopen : afterOpening? (dollar :: leftBrace :: (name ++ rightBrace :: after)) =
      some (name ++ rightBrace :: after) :=
    afterOpening?_eq_some_iff.2 rfl
  have hbang' : afterBang? (name ++ rightBrace :: after) = none :=
    afterBang?_append_eq_none_iff.2 hbang
  have hclose : closing? (name ++ rightBrace :: after) = some (name, after) :=
    closing?_eq_some_iff.2 ⟨rfl, hname⟩
  rw [hinput, scan]
  grind

theorem scan_of_scans {input : List α} {tokens : List (Token (List α))}
    (h : Scans input tokens) : scan input = .ok tokens := by
  induction h with
  | nil => rw [scan]
  | plain hplain _ ih =>
    rw [scan_plain hplain, ih]
    rfl
  | escaped hbody _ ih =>
    rw [scan_escaped hbody, ih]
    rfl
  | var hname hbang _ ih =>
    rw [scan_variable hname hbang, ih]
    rfl

/-- The tokens of a string are those that the rules give, and no others. -/
theorem scan_eq_ok_iff {input : List α} {tokens : List (Token (List α))} :
    scan input = .ok tokens ↔ Scans input tokens :=
  ⟨scans_of_scan, scan_of_scans⟩

/-- A string of bytes is split by the same rules. -/
theorem scanBytes_eq_ok_iff {input : List UInt8} {tokens : List (Token (List UInt8))} :
    scanBytes input = .ok tokens ↔ Scans input tokens :=
  mapError_eq_ok_iff.trans scan_eq_ok_iff

end StackIr.Substitution
