import StackIr.Proofs.Substitution.Unclosed

/-! # Splitting a string that is put together

    The tokens of two strings that are written one after the other are the tokens of the one
    and then those of the other, and literal text on both sides of the seam is one token.  A
    failure in the second string is the failure of the whole, moved by the length of the first.

    A string that can be split has no group that is still open at its end, so the only thing
    that the seam can make is an opening of its own: a dollar before it and a left brace
    after it. -/

namespace StackIr.Substitution

open Alphabet

variable {α : Type}

/-! ## Joined tokens -/

/-- The tokens of one string and then those of another.  A literal that ends the first and one
    that starts the second are one literal. -/
def joinTokens (left right : List (Token (List α))) : List (Token (List α)) :=
  match left.getLast?, right with
  | some (.literal text), .literal next :: rest => left.dropLast ++ .literal (text ++ next) :: rest
  | _, _ => left ++ right

@[simp] theorem joinTokens_literal (text : List α) (right : List (Token (List α))) :
    joinTokens [.literal text] right = consLiteral text right := by
  match right with
  | [] => rfl
  | .literal next :: rest => rfl
  | .var name :: rest => rfl

/-- Only the last token before the seam is joined to what follows it. -/
theorem joinTokens_cons {left : List (Token (List α))} (hne : left ≠ []) (token : Token (List α))
    (right : List (Token (List α))) :
    joinTokens (token :: left) right = token :: joinTokens left right := by
  -- the last token stays the last one with another in front
  obtain ⟨init, last, rfl⟩ := (List.eq_nil_or_concat' left).resolve_left hne
  have hdrop : (token :: (init ++ [last])).dropLast = token :: init := by
    rw [← List.cons_append, List.dropLast_concat]
  have hlast : (token :: (init ++ [last])).getLast? = some last := by
    rw [← List.cons_append, List.getLast?_concat]
  unfold joinTokens
  rw [hlast, hdrop, List.getLast?_concat, List.dropLast_concat]
  split
  · rfl
  · rfl

@[simp] theorem joinTokens_var (name : List α) (left right : List (Token (List α))) :
    joinTokens (.var name :: left) right = .var name :: joinTokens left right := by
  cases left with
  | nil => rfl
  | cons token left => exact joinTokens_cons (List.cons_ne_nil _ _) _ _

theorem consLiteral_append (text next : List α) (tokens : List (Token (List α))) :
    consLiteral (text ++ next) tokens = consLiteral text (consLiteral next tokens) := by
  match tokens with
  | [] => rfl
  | .literal more :: rest => simp [consLiteral]
  | .var name :: rest => rfl

/-- Text in front of the first tokens stays there, also when the first tokens are all joined to
    the second ones. -/
theorem joinTokens_consLiteral (text : List α) (left right : List (Token (List α))) :
    joinTokens (consLiteral text left) right = consLiteral text (joinTokens left right) := by
  match left with
  | [] => exact joinTokens_literal text right
  | .var name :: rest =>
    show joinTokens (.literal text :: .var name :: rest) right = _
    rw [joinTokens_cons (List.cons_ne_nil _ _), joinTokens_var]
    rfl
  | [.literal next] =>
    rw [consLiteral, joinTokens_literal, joinTokens_literal, consLiteral_append]
  | .literal next :: token :: rest =>
    rw [consLiteral, joinTokens_cons (List.cons_ne_nil _ _), joinTokens_cons (List.cons_ne_nil _ _),
      consLiteral]

/-- What is put in front of the first tokens can be put there before or after they are
    joined to the second ones. -/
theorem map_joinTokens {ε : Type} {left : List (Token (List α))}
    {put : List (Token (List α)) → List (Token (List α))}
    (hput : ∀ right, joinTokens (put left) right = put (joinTokens left right))
    (x : Except ε (List (Token (List α)))) :
    (x.map (joinTokens left)).map put = x.map (joinTokens (put left)) := by
  cases x with
  | error failure => rfl
  | ok right => exact congrArg Except.ok (hput right).symm

/-! ## The seam -/

variable [Alphabet α]

/-- The last character of one string and the first of another make an opening. -/
def OpensAtSeam (before after : List α) : Prop :=
  before.getLast? = some dollar ∧ after.head? = some leftBrace

/-- Whether an opening is made depends on the end of the first string only. -/
theorem OpensAtSeam.append_left {before after : List α} (h : OpensAtSeam before after)
    (start : List α) : OpensAtSeam (start ++ before) after := by
  obtain ⟨hlast, hhead⟩ := h
  exact ⟨by rw [List.getLast?_append, hlast, Option.some_or], hhead⟩

variable [DecidableEq α]

/-- What follows a string that can be split is split as it is on its own. -/
theorem Scans.scan_append {input after : List α} {tokens : List (Token (List α))}
    (h : Scans input tokens) (hseam : ¬ OpensAtSeam input after) :
    scan (input ++ after) = (scan after).map (joinTokens tokens) := by
  induction h with
  | nil =>
    rw [List.nil_append]
    cases scan after with
    | error rest => rfl
    | ok right => rfl
  | @plain c rest tokens hplain _ ih =>
    have hrest : ¬ OpensAtSeam rest after := fun hopen => hseam (hopen.append_left [c])
    -- the character opens nothing inside the string, and at its end not with what follows
    have hplain' : ¬ (c = dollar ∧ (rest ++ after).head? = some leftBrace) := by
      rintro ⟨rfl, hhead⟩
      cases rest with
      | nil => exact hseam ⟨rfl, hhead⟩
      | cons b rest => exact hplain ⟨rfl, hhead⟩
    rw [List.cons_append, scan_plain hplain', ih hrest]
    exact map_joinTokens (joinTokens_consLiteral [c] tokens) _
  | @escaped body rest tokens hbody _ ih =>
    have hrest : ¬ OpensAtSeam rest after := fun hopen => hseam (hopen.append_left _)
    rw [List.append_assoc, scan_escaped hbody, ih hrest]
    exact map_joinTokens (joinTokens_consLiteral (placeholder body) tokens) _
  | @var name rest tokens hname hbang _ ih =>
    have hrest : ¬ OpensAtSeam rest after := fun hopen => hseam (hopen.append_left _)
    rw [List.append_assoc, scan_variable hname hbang, ih hrest]
    exact map_joinTokens (joinTokens_var name tokens) _

/-! ## Strings of bytes -/

/-- The tokens of a string that is put together are those of its parts, joined; and if the
    second part fails, the whole fails at the same place of it. -/
theorem scanBytes_append {before after : List UInt8} {left : List (Token (List UInt8))}
    (hbefore : scanBytes before = .ok left) (hseam : ¬ OpensAtSeam before after) :
    (∀ right, scanBytes after = .ok right →
      scanBytes (before ++ after) = .ok (joinTokens left right)) ∧
    ∀ failure, scanBytes after = .error failure →
      scanBytes (before ++ after) =
        .error ⟨before ++ after, before.length + failure.start⟩ := by
  have hscan := (scanBytes_eq_ok_iff.1 hbefore).scan_append hseam
  refine ⟨?_, ?_⟩
  · intro right hafter
    have hright : scan after = .ok right := mapError_eq_ok_iff.1 hafter
    refine mapError_eq_ok_iff.2 ?_
    rw [hscan, hright]
    rfl
  · intro failure hafter
    obtain ⟨rest, hrest, rfl⟩ := mapError_eq_error_iff.1 hafter
    obtain ⟨split, -, rfl, -⟩ := scan_eq_error hrest
    refine mapError_eq_error_iff.2 ⟨rest, ?_, ?_⟩
    · rw [hscan, hrest]
      rfl
    · -- the whole and the second part have the same text from the opening on
      simp only [List.length_append, Unterminated.mk.injEq, true_and]
      omega

/-- A dollar that would open a group with the left brace after it is literal on its own. -/
example : scanBytes [dollar] = .ok [.literal [dollar]] ∧
    scanBytes [leftBrace, 120, rightBrace] = .ok [.literal [leftBrace, 120, rightBrace]] ∧
    scanBytes ([dollar] ++ [leftBrace, 120, rightBrace]) = .ok [.var [120]] := by
  refine ⟨?_, ?_, ?_⟩
  · cbv
  · cbv
  · cbv

/-- A variable and an escaped group, and a dollar at the end. -/
def dollarEnd : List UInt8 :=
  [dollar, leftBrace, 97, rightBrace, dollar, leftBrace, bang, 98, rightBrace, dollar]

def dollarEndTokens : List (Token (List UInt8)) :=
  [.var [97], .literal [dollar, leftBrace, 98, rightBrace, dollar]]

/-- Before text the dollar and the text are one literal, also when the text is followed by an
    opening without an end; before a variable the tokens stay apart. -/
theorem scanBytes_append_dollarEnd :
    scanBytes (dollarEnd ++ [99, dollar, leftBrace, 100, rightBrace]) =
        .ok [.var [97], .literal [dollar, leftBrace, 98, rightBrace, dollar, 99], .var [100]] ∧
      scanBytes (dollarEnd ++ [dollar, leftBrace, 100, rightBrace]) =
        .ok [.var [97], .literal [dollar, leftBrace, 98, rightBrace, dollar], .var [100]] ∧
      scanBytes (dollarEnd ++ [99, dollar, leftBrace, 100]) =
        .error ⟨dollarEnd ++ [99, dollar, leftBrace, 100], 11⟩ := by
  have h : scanBytes dollarEnd = .ok dollarEndTokens := by cbv
  have hseam : ∀ c rest, c ≠ leftBrace → ¬ OpensAtSeam dollarEnd (c :: rest) :=
    fun c rest hc hopen => hc (Option.some.inj hopen.2)
  have htext := scanBytes_append h (hseam 99 [dollar, leftBrace, 100, rightBrace] (by decide))
  have hvariable := scanBytes_append h (hseam dollar [leftBrace, 100, rightBrace] (by decide))
  have hunclosed := scanBytes_append h (hseam 99 [dollar, leftBrace, 100] (by decide))
  refine ⟨?_, ?_, ?_⟩
  · exact htext.1 [.literal [99], .var [100]] (by cbv)
  · exact hvariable.1 [.var [100]] (by cbv)
  · exact hunclosed.2 ⟨[99, dollar, leftBrace, 100], 1⟩ (by cbv)

end StackIr.Substitution
