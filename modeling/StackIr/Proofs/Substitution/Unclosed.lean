import StackIr.Proofs.Substitution.RoundTrip

/-! # Where splitting fails

    A string cannot be split exactly if one of its openings has no right brace anywhere after
    it, and the failure is at the first such opening.

    The splitter looks at one group after the other and takes an opening inside a group for a
    part of the group's body.  It misses nothing by that: a group that is closed ends with a
    right brace, which also stands after every opening inside it.  So all that has been split
    off is closed, and the first group without an end is the first opening without one. -/

namespace StackIr.Substitution

open Alphabet

variable {α : Type} [Alphabet α]

/-! ## Openings without an end -/

/-- An opening at a place of a text that has no right brace after it. -/
def UnclosedAt (text : List α) (place : Nat) : Prop :=
  ∃ after, text.drop place = dollar :: leftBrace :: after ∧ rightBrace ∉ after

theorem closed_iff_forall_not_unclosedAt {text : List α} :
    Closed text ↔ ∀ place, ¬ UnclosedAt text place := by
  constructor
  · intro h place ⟨after, hdrop, hafter⟩
    apply hafter
    apply h (text.take place)
    rw [← hdrop, List.take_append_drop]
  · intro h before after htext
    by_contra hafter
    refine h before.length ⟨after, ?_, hafter⟩
    rw [htext, List.drop_left]

theorem UnclosedAt.add_two_le {text : List α} {place : Nat} (h : UnclosedAt text place) :
    place + 2 ≤ text.length := by
  obtain ⟨after, hdrop, -⟩ := h
  have hlength := congrArg List.length hdrop
  simp only [List.length_drop, List.length_cons] at hlength
  omega

/-- Closed text hides no opening, not even one that what follows would complete. -/
theorem Closed.le_of_unclosedAt {before after : List α} {place : Nat} (h : Closed before)
    (hunclosed : UnclosedAt (before ++ dollar :: after) place) : before.length ≤ place := by
  by_contra hlt
  obtain ⟨rest, hdrop, hrest⟩ := hunclosed
  rw [List.drop_append_of_le_length (by omega)] at hdrop
  match htail : before.drop place with
  | [] =>
    have hlength := congrArg List.length htail
    simp only [List.length_drop, List.length_nil] at hlength
    omega
  | [c] =>
    -- the opening would begin with the last character and go on with a dollar
    rw [htail] at hdrop
    simp only [List.cons_append, List.nil_append, List.cons.injEq] at hdrop
    exact dollar_ne_leftBrace hdrop.2.1
  | c :: d :: tail =>
    -- an opening inside of the closed text has its right brace there
    rw [htail] at hdrop
    simp only [List.cons_append, List.cons.injEq] at hdrop
    obtain ⟨rfl, rfl, rfl⟩ := hdrop
    refine closed_iff_forall_not_unclosedAt.1 h place ⟨tail, htail, ?_⟩
    intro hmem
    exact hrest (List.mem_append_left _ hmem)

/-! ## Splitting -/

/-- A string that can be split is closed. -/
theorem Scans.closed {input : List α} {tokens : List (Token (List α))} (h : Scans input tokens) :
    Closed input := by
  induction h with
  | nil => exact closed_nil
  | plain hplain _ ih => exact closed_cons_iff.2 ⟨fun hopen => absurd hopen hplain, ih⟩
  | @escaped body _ _ _ _ ih =>
    have hclosed := ih.append_rightBrace (dollar :: leftBrace :: bang :: body)
    simpa [escapedPlaceholder] using hclosed
  | @var name _ _ _ _ _ ih => exact ih.placeholder_append name

variable [DecidableEq α]

/-- A failure is at an opening without an end, and all before it was split. -/
theorem scan_eq_error {input rest : List α} (h : scan input = .error rest) :
    ∃ before after, input = before ++ rest ∧ (∃ tokens, Scans before tokens) ∧
      rest = dollar :: leftBrace :: after ∧ rightBrace ∉ after := by
  fun_induction scan input with
  | case1 => cases h
  | case2 c tail hopen ih =>
    obtain ⟨before, after, rfl, ⟨tokens, hscans⟩, hrest⟩ := ih (map_eq_error_iff.1 h)
    refine ⟨c :: before, after, rfl, ⟨_, .plain ?_ hscans⟩, hrest⟩
    -- what was split after `c` starts as the whole text after it does
    rintro ⟨hc, hhead⟩
    apply afterOpening?_cons_eq_none_iff.1 hopen
    exact ⟨hc, by rw [List.head?_append, hhead, Option.some_or]⟩
  | case3 c tail inside hopen escaped hbang hclose =>
    -- the group starts the string, so nothing was split before it
    cases h
    rw [afterOpening?_eq_some_iff.1 hopen, afterBang?_eq_some_iff.1 hbang]
    refine ⟨[], bang :: escaped, rfl, ⟨[], .nil⟩, rfl, ?_⟩
    rw [List.mem_cons, not_or]
    exact ⟨rightBrace_ne_bang, closing?_eq_none_iff.1 hclose⟩
  | case4 c tail inside hopen escaped hbang body after hclose ih =>
    obtain ⟨before, after', rfl, ⟨tokens, hscans⟩, hrest⟩ := ih (map_eq_error_iff.1 h)
    obtain ⟨hinput, hbody⟩ := eq_escapedPlaceholder_append hopen hbang hclose
    refine ⟨escapedPlaceholder body ++ before, after', ?_, ⟨_, .escaped hbody hscans⟩, hrest⟩
    rw [hinput, List.append_assoc]
  | case5 c tail inside hopen hbang hclose =>
    cases h
    exact ⟨[], inside, rfl, ⟨[], .nil⟩, afterOpening?_eq_some_iff.1 hopen,
      closing?_eq_none_iff.1 hclose⟩
  | case6 c tail inside hopen hbang body after hclose ih =>
    obtain ⟨before, after', rfl, ⟨tokens, hscans⟩, hrest⟩ := ih (map_eq_error_iff.1 h)
    obtain ⟨hinput, hbody⟩ := eq_placeholder_append hopen hclose
    rw [(closing?_eq_some_iff.1 hclose).1] at hbang
    have hname : body.head? ≠ some bang := afterBang?_append_eq_none_iff.1 hbang
    refine ⟨placeholder body ++ before, after', ?_, ⟨_, .var hbody hname hscans⟩, hrest⟩
    rw [hinput, List.append_assoc]

/-! ## Strings of bytes -/

/-- What a failure says of the string: it gives the whole of it, and the place of its first
    opening without an end. -/
structure Unterminated.Locates (failure : Unterminated) (input : List UInt8) : Prop where
  whole : failure.input = input
  stop : failure.stop = input.length
  unclosed : UnclosedAt input failure.start
  first : ∀ place, UnclosedAt input place → failure.start ≤ place
  /-- What stands before the opening can be split. -/
  before : ∃ tokens, scanBytes (input.take failure.start) = .ok tokens
  /-- The text from the opening on, which the message shows, is there. -/
  inRange : failure.start + 2 ≤ failure.stop

theorem locates_of_scanBytes {input : List UInt8} {failure : Unterminated}
    (h : scanBytes input = .error failure) : failure.Locates input := by
  obtain ⟨rest, hscan, rfl⟩ := mapError_eq_error_iff.1 h
  obtain ⟨before, after, rfl, ⟨tokens, hscans⟩, rfl, hafter⟩ := scan_eq_error hscan
  have hstart : (before ++ dollar :: leftBrace :: after).length -
      (dollar :: leftBrace :: after : List UInt8).length = before.length := by
    simp
  have hunclosed : UnclosedAt (before ++ dollar :: leftBrace :: after) before.length :=
    ⟨after, List.drop_left, hafter⟩
  rw [hstart]
  refine ⟨rfl, rfl, hunclosed, ?_, ?_, hunclosed.add_two_le⟩
  · intro place hplace
    exact hscans.closed.le_of_unclosedAt hplace
  · rw [List.take_left]
    exact ⟨tokens, scanBytes_eq_ok_iff.2 hscans⟩

/-- Every string is split, or has an opening without an end and fails at the first of
    them. -/
theorem scanBytes_fails_iff_unclosed (input : List UInt8) :
    ((∃ tokens, scanBytes input = .ok tokens) ↔ ∀ place, ¬ UnclosedAt input place) ∧
      ((∃ failure, scanBytes input = .error failure) ↔ ∃ place, UnclosedAt input place) ∧
      ∀ failure, scanBytes input = .error failure → failure.Locates input := by
  have hclosed : ∀ tokens, scanBytes input = .ok tokens → ∀ place, ¬ UnclosedAt input place :=
    fun tokens h => closed_iff_forall_not_unclosedAt.1 (scanBytes_eq_ok_iff.1 h).closed
  refine ⟨⟨?_, ?_⟩, ⟨?_, ?_⟩, fun failure h => locates_of_scanBytes h⟩
  · intro ⟨tokens, h⟩
    exact hclosed tokens h
  · intro hnone
    cases h : scanBytes input with
    | ok tokens => exact ⟨tokens, rfl⟩
    | error failure => exact absurd (locates_of_scanBytes h).unclosed (hnone _)
  · intro ⟨failure, h⟩
    exact ⟨failure.start, (locates_of_scanBytes h).unclosed⟩
  · intro ⟨place, hplace⟩
    cases h : scanBytes input with
    | ok tokens => exact absurd hplace (hclosed tokens h place)
    | error failure => exact ⟨failure, rfl⟩

/-- A group that takes in an opening, and behind it an escaped opening and one more, neither
    of which is closed. -/
def unclosedGroup : List UInt8 :=
  [dollar, leftBrace, 97, dollar, leftBrace, 98, rightBrace, dollar, dollar, leftBrace, bang, 99,
    dollar, leftBrace]

theorem scanBytes_fails_unclosedGroup :
    scanBytes unclosedGroup = .error ⟨unclosedGroup, 8⟩ ∧
      (Unterminated.mk unclosedGroup 8).Locates unclosedGroup := by
  have h : scanBytes unclosedGroup = .error ⟨unclosedGroup, 8⟩ := by cbv
  exact ⟨h, (scanBytes_fails_iff_unclosed unclosedGroup).2.2 _ h⟩

end StackIr.Substitution
