import Mathlib.Data.List.Chain
import StackIr.Proofs.Substitution.Scan

/-! # Splitting and writing are inverse

    Writing the tokens of a string gives the string back.  The tokens that a string can have
    are the canonical ones, and these are also the ones that survive being written and split
    again.

    Escaped groups make this delicate.  They become literal text and are joined to the text
    around them, and the writer has to find the same groups again in the joined text.  It
    does, because joining opens no group: a dollar is never joined to a left brace. -/

namespace StackIr.Substitution

open Alphabet

variable {α : Type}

/-! ## Joined text -/

/-- Text in front of tokens, unless it is empty. -/
def prependText : List α → List (Token (List α)) → List (Token (List α))
  | [], tokens => tokens
  | c :: rest, tokens => .literal (c :: rest) :: tokens

theorem consLiteral_prependText {tokens : List (Token (List α))}
    (hapart : ∀ next ∈ tokens.head?, next.literal? = none) (text rest : List α) :
    consLiteral text (prependText rest tokens) = .literal (text ++ rest) :: tokens := by
  cases rest with
  | cons c rest => rfl
  | nil =>
    rw [List.append_nil]
    match tokens, hapart with
    | [], _ => rfl
    | .var name :: tail, _ => rfl
    | .literal next :: tail, hapart => cases hapart (.literal next) rfl

/-! ## Closed text -/

variable [Alphabet α]

/-- Every opening in a text has a right brace somewhere after it. -/
def Closed (text : List α) : Prop :=
  ∀ before after, text = before ++ dollar :: leftBrace :: after → rightBrace ∈ after

theorem closed_nil : Closed ([] : List α) := by
  intro before after h
  simp at h

theorem closed_cons_iff {c : α} {rest : List α} :
    Closed (c :: rest) ↔
      (c = dollar ∧ rest.head? = some leftBrace → rightBrace ∈ rest) ∧ Closed rest := by
  constructor
  · intro h
    refine ⟨?_, ?_⟩
    · rintro ⟨rfl, hhead⟩
      obtain ⟨after, rfl⟩ := List.head?_eq_some_iff.1 hhead
      exact List.mem_cons_of_mem _ (h [] after rfl)
    · intro before after hrest
      exact h (c :: before) after (by rw [hrest, List.cons_append])
  · intro ⟨hfirst, hrest⟩ before after htext
    cases before with
    | nil =>
      cases htext
      have hmem := hfirst ⟨rfl, rfl⟩
      exact (List.mem_cons.1 hmem).resolve_left leftBrace_ne_rightBrace.symm
    | cons b before =>
      cases htext
      exact hrest before after rfl

/-- Whatever stands before a right brace opens only groups that are closed. -/
theorem Closed.append_rightBrace {after : List α} (h : Closed after) (before : List α) :
    Closed (before ++ rightBrace :: after) := by
  induction before with
  | nil =>
    refine closed_cons_iff.2 ⟨?_, h⟩
    intro ⟨hdollar, _⟩
    exact absurd hdollar.symm dollar_ne_rightBrace
  | cons c before ih =>
    refine closed_cons_iff.2 ⟨?_, ih⟩
    intro _
    simp

theorem Closed.placeholder_append {after : List α} (h : Closed after) (body : List α) :
    Closed (placeholder body ++ after) := by
  have hsplit : placeholder body ++ after =
      (dollar :: leftBrace :: body) ++ rightBrace :: after := by
    simp [placeholder]
  rw [hsplit]
  exact h.append_rightBrace _

/-! ## Canonical tokens -/

/-- Literal text is there and is closed.  A name has no right brace, which would end its
    placeholder, and does not start with a bang, which would make it literal. -/
def Token.Sound : Token (List α) → Prop
  | .literal text => text ≠ [] ∧ Closed text
  | .var name => rightBrace ∉ name ∧ name.head? ≠ some bang

/-- Tokens that are sound and have no two literals next to each other. -/
structure Canonical (tokens : List (Token (List α))) : Prop where
  sound : ∀ token ∈ tokens, token.Sound
  apart : tokens.IsChain fun a b => a.literal? = none ∨ b.literal? = none

theorem canonical_nil : Canonical ([] : List (Token (List α))) where
  sound := by simp
  apart := List.isChain_nil

theorem canonical_cons_iff {token : Token (List α)} {tokens : List (Token (List α))} :
    Canonical (token :: tokens) ↔
      token.Sound ∧ (∀ next ∈ tokens.head?, token.literal? = none ∨ next.literal? = none) ∧
        Canonical tokens := by
  constructor
  · intro ⟨hsound, hapart⟩
    obtain ⟨hfirst, hrest⟩ := List.forall_mem_cons.1 hsound
    obtain ⟨hnext, hchain⟩ := List.isChain_cons.1 hapart
    exact ⟨hfirst, hnext, hrest, hchain⟩
  · intro ⟨hfirst, hnext, hrest, hchain⟩
    exact ⟨List.forall_mem_cons.2 ⟨hfirst, hrest⟩, List.isChain_cons.2 ⟨hnext, hchain⟩⟩

theorem canonical_cons_var_iff {name : List α} {tokens : List (Token (List α))} :
    Canonical (.var name :: tokens) ↔
      (rightBrace ∉ name ∧ name.head? ≠ some bang) ∧ Canonical tokens := by
  simp [canonical_cons_iff, Token.Sound, Token.literal?]

theorem canonical_cons_literal_iff {text : List α} {tokens : List (Token (List α))} :
    Canonical (.literal text :: tokens) ↔
      (text ≠ [] ∧ Closed text) ∧ (∀ next ∈ tokens.head?, next.literal? = none) ∧
        Canonical tokens := by
  simp [canonical_cons_iff, Token.Sound, Token.literal?]

/-- Text in front of canonical tokens, joined to the literal that they may start with. -/
theorem Canonical.consLiteral {text : List α} {tokens : List (Token (List α))}
    (h : Canonical tokens) (hne : text ≠ []) (hclosed : Closed text)
    (hjoined : ∀ next tail, tokens = .literal next :: tail → Closed (text ++ next)) :
    Canonical (consLiteral text tokens) := by
  match tokens with
  | [] => exact canonical_cons_literal_iff.2 ⟨⟨hne, hclosed⟩, by simp, h⟩
  | .var name :: tail =>
    exact canonical_cons_literal_iff.2 ⟨⟨hne, hclosed⟩, by simp [Token.literal?], h⟩
  | .literal next :: tail =>
    obtain ⟨-, hapart, htail⟩ := canonical_cons_literal_iff.1 h
    have hne' : text ++ next ≠ [] := by simp [hne]
    exact canonical_cons_literal_iff.2 ⟨⟨hne', hjoined next tail rfl⟩, hapart, htail⟩

variable [DecidableEq α]

/-! ## Escaping -/

theorem escape_plain {c : α} {rest : List α}
    (hplain : ¬ (c = dollar ∧ rest.head? = some leftBrace)) :
    escape (c :: rest) = c :: escape rest := by
  have hopen : afterOpening? (c :: rest) = none := afterOpening?_cons_eq_none_iff.2 hplain
  rw [escape]
  grind

/-- A closed group is escaped as a whole. -/
theorem escape_placeholder {body : List α} (hbody : rightBrace ∉ body) (after : List α) :
    escape (placeholder body ++ after) = escapedPlaceholder body ++ escape after := by
  have htext : placeholder body ++ after =
      dollar :: leftBrace :: (body ++ rightBrace :: after) := by
    simp [placeholder]
  have hopen : afterOpening? (dollar :: leftBrace :: (body ++ rightBrace :: after)) =
      some (body ++ rightBrace :: after) :=
    afterOpening?_eq_some_iff.2 rfl
  have hclose : closing? (body ++ rightBrace :: after) = some (body, after) :=
    closing?_eq_some_iff.2 ⟨rfl, hbody⟩
  rw [htext, escape]
  grind

@[simp] theorem escape_singleton (c : α) : escape [c] = [c] := by
  rw [escape_plain (by simp), escape]

/-- Escaping keeps the first character, so it neither opens a group nor hides one. -/
@[simp] theorem head?_escape (text : List α) : (escape text).head? = text.head? := by
  fun_cases escape text with
  | case1 => rfl
  | case2 c rest hopen => rfl
  | case3 c rest inside hopen hclose => rfl
  | case4 c rest inside hopen body after hclose =>
    rw [afterOpening?_eq_some_iff.1 hopen]
    rfl

/-! ## Writing -/

@[simp] theorem format_cons (token : Token (List α)) (tokens : List (Token (List α))) :
    format (token :: tokens) = token.format ++ format tokens :=
  rfl

theorem head?_format_literal {text : List α} {c : α} (h : text.head? = some c)
    (tokens : List (Token (List α))) : (format (.literal text :: tokens)).head? = some c := by
  rw [format_cons, Token.format, List.head?_append, head?_escape, h]
  rfl

/-- A character that opens no group is written as it is in front of any tokens. -/
theorem format_consLiteral_plain {c : α} {tokens : List (Token (List α))}
    (hplain : ¬ (c = dollar ∧ (format tokens).head? = some leftBrace)) :
    format (consLiteral [c] tokens) = c :: format tokens := by
  cases tokens with
  | nil => simp [consLiteral, format, Token.format]
  | cons token tail =>
    cases token with
    | var name => simp [consLiteral, format, Token.format]
    | literal next =>
      -- what is written behind `c` starts as the literal does
      have hnext : ¬ (c = dollar ∧ next.head? = some leftBrace) := by
        rintro ⟨hc, hhead⟩
        exact hplain ⟨hc, head?_format_literal hhead tail⟩
      rw [consLiteral, format_cons, Token.format, List.singleton_append, escape_plain hnext,
        List.cons_append, format_cons, Token.format]

/-- A closed group is written escaped in front of any tokens. -/
theorem format_consLiteral_placeholder {body : List α} (hbody : rightBrace ∉ body)
    (tokens : List (Token (List α))) :
    format (consLiteral (placeholder body) tokens) = escapedPlaceholder body ++ format tokens := by
  have hescape : escape (placeholder body) = escapedPlaceholder body := by
    have h := escape_placeholder hbody []
    rwa [List.append_nil, escape, List.append_nil] at h
  cases tokens with
  | nil => simp [consLiteral, format, Token.format, hescape]
  | cons token tail =>
    cases token with
    | var name => simp [consLiteral, format, Token.format, hescape]
    | literal next =>
      rw [consLiteral, format_cons, Token.format, escape_placeholder hbody, List.append_assoc,
        format_cons, Token.format]

/-! ## From a string to its tokens and back -/

/-- Writing the tokens of a string gives the string back. -/
theorem Scans.format_eq {input : List α} {tokens : List (Token (List α))}
    (h : Scans input tokens) : format tokens = input := by
  induction h with
  | nil => rfl
  | plain hplain _ ih =>
    subst ih
    exact format_consLiteral_plain hplain
  | escaped hbody _ ih =>
    subst ih
    exact format_consLiteral_placeholder hbody _
  | var hname hbang _ ih =>
    subst ih
    rfl

/-- The tokens of a string are canonical. -/
theorem Scans.canonical {input : List α} {tokens : List (Token (List α))}
    (h : Scans input tokens) : Canonical tokens := by
  induction h with
  | nil => exact canonical_nil
  | @plain c rest tokens hplain hrest ih =>
    refine ih.consLiteral (by simp) ?_ ?_
    · exact closed_cons_iff.2 ⟨by simp, closed_nil⟩
    · rintro next tail rfl
      -- the text that is joined starts as the rest of the string does
      have hnext : ¬ (c = dollar ∧ next.head? = some leftBrace) := by
        intro ⟨hc, hhead⟩
        rw [← hrest.format_eq] at hplain
        exact hplain ⟨hc, head?_format_literal hhead tail⟩
      have hclosed : Closed next := (canonical_cons_literal_iff.1 ih).1.2
      exact closed_cons_iff.2 ⟨fun hopen => absurd hopen hnext, hclosed⟩
  | @escaped body after tokens hbody _ ih =>
    refine ih.consLiteral (by simp [placeholder]) ?_ ?_
    · simpa using closed_nil.placeholder_append body
    · rintro next tail rfl
      have hclosed : Closed next := (canonical_cons_literal_iff.1 ih).1.2
      exact hclosed.placeholder_append body
  | var hname hbang _ ih => exact canonical_cons_var_iff.2 ⟨⟨hname, hbang⟩, ih⟩

/-! ## From tokens to a string and back -/

/-- Closed text is split off again as it was written, in front of a string that starts neither
    with literal text nor with a left brace that a dollar before it would turn into an
    opening. -/
theorem Scans.escape_append {text input : List α} {tokens : List (Token (List α))}
    (h : Scans input tokens) (hapart : ∀ next ∈ tokens.head?, next.literal? = none)
    (hstart : input.head? ≠ some leftBrace) (hclosed : Closed text) :
    Scans (escape text ++ input) (prependText text tokens) := by
  -- along the groups that `escape` finds, which are those that `Scans` has to find again
  fun_induction escape text with
  | case1 => exact h
  | case2 c rest hopen ih =>
    -- a dollar that ends the text must not meet a left brace in what follows it
    have hplain : ¬ (c = dollar ∧ (escape rest ++ input).head? = some leftBrace) := by
      intro ⟨hc, hhead⟩
      rw [List.head?_append, head?_escape, Option.or_eq_some_iff] at hhead
      rcases hhead with hrest | ⟨_, hinput⟩
      · exact afterOpening?_cons_eq_none_iff.1 hopen ⟨hc, hrest⟩
      · exact hstart hinput
    have hscans := Scans.plain hplain (ih (closed_cons_iff.1 hclosed).2)
    rwa [consLiteral_prependText hapart] at hscans
  | case3 c rest inside hopen hclose =>
    -- the group that starts the text has a right brace after it
    have htext : c :: rest = [] ++ dollar :: leftBrace :: inside :=
      afterOpening?_eq_some_iff.1 hopen
    exact absurd (hclosed [] inside htext) (closing?_eq_none_iff.1 hclose)
  | case4 c rest inside hopen body after hclose ih =>
    obtain ⟨htext, hbody⟩ := eq_placeholder_append hopen hclose
    -- an opening behind the group is an opening of the whole text
    have hafter : Closed after := by
      intro before rest' hrest
      refine hclosed (placeholder body ++ before) rest' ?_
      rw [htext, hrest, List.append_assoc]
    have hscans := Scans.escaped hbody (ih hafter)
    rw [consLiteral_prependText hapart, ← htext] at hscans
    rw [List.append_assoc]
    exact hscans

/-- What is written after a literal of canonical tokens does not start with a left brace. -/
theorem head?_format_ne_leftBrace {tokens : List (Token (List α))}
    (hapart : ∀ next ∈ tokens.head?, next.literal? = none) :
    (format tokens).head? ≠ some leftBrace := by
  match tokens, hapart with
  | [], _ => simp [format]
  | .var name :: tail, _ => simpa [format, Token.format, placeholder] using dollar_ne_leftBrace
  | .literal next :: tail, hapart => cases hapart (.literal next) rfl

/-- Canonical tokens are those of the string that they are written as. -/
theorem Canonical.scans {tokens : List (Token (List α))} (h : Canonical tokens) :
    Scans (format tokens) tokens := by
  induction tokens with
  | nil => exact .nil
  | cons token tokens ih =>
    cases token with
    | var name =>
      obtain ⟨⟨hname, hbang⟩, htail⟩ := canonical_cons_var_iff.1 h
      exact .var hname hbang (ih htail)
    | literal text =>
      obtain ⟨⟨hne, hclosed⟩, hapart, htail⟩ := canonical_cons_literal_iff.1 h
      have hscans := (ih htail).escape_append hapart (head?_format_ne_leftBrace hapart) hclosed
      cases text with
      | nil => exact absurd rfl hne
      | cons c rest => exact hscans

/-! ## Strings of bytes -/

/-- Splitting and writing are inverse on the strings that can be split: each is what its
    tokens are written as, so its tokens survive, and no other string has them. -/
theorem format_leftInverse_scanBytes :
    (∀ input tokens, scanBytes input = .ok tokens →
      format tokens = input ∧ scanBytes (format tokens) = .ok tokens) ∧
      ∀ input other tokens, scanBytes input = .ok tokens → scanBytes other = .ok tokens →
        input = other := by
  refine ⟨?_, ?_⟩
  · intro input tokens h
    have hwritten : format tokens = input := (scanBytes_eq_ok_iff.1 h).format_eq
    exact ⟨hwritten, hwritten.symm ▸ h⟩
  · intro input other tokens h hother
    calc input = format tokens := (scanBytes_eq_ok_iff.1 h).format_eq.symm
      _ = other := (scanBytes_eq_ok_iff.1 hother).format_eq

/-- A dollar before an escaped group that holds an opening and is followed by a right brace,
    and then a variable. -/
def nestedGroup : List UInt8 :=
  [dollar, dollar, leftBrace, bang, 97, dollar, leftBrace, 98, rightBrace, rightBrace,
    dollar, leftBrace, 99, rightBrace]

/-- All text before the variable of `nestedGroup` is one literal. -/
def nestedGroupTokens : List (Token (List UInt8)) :=
  [.literal [dollar, dollar, leftBrace, 97, dollar, leftBrace, 98, rightBrace, rightBrace],
    .var [99]]

theorem format_leftInverse_scanBytes_nestedGroup :
    scanBytes nestedGroup = .ok nestedGroupTokens ∧ format nestedGroupTokens = nestedGroup ∧
      ∀ other, scanBytes other = .ok nestedGroupTokens → other = nestedGroup := by
  have h : scanBytes nestedGroup = .ok nestedGroupTokens := by cbv
  obtain ⟨hinverse, hinjective⟩ := format_leftInverse_scanBytes
  refine ⟨h, (hinverse nestedGroup nestedGroupTokens h).1, ?_⟩
  intro other hother
  exact hinjective other nestedGroup nestedGroupTokens hother h

/-- Tokens survive being written and split again exactly if they are canonical, and the
    canonical tokens are all that a string can have. -/
theorem scanBytes_format_iff_canonical (tokens : List (Token (List UInt8))) :
    (scanBytes (format tokens) = .ok tokens ↔ Canonical tokens) ∧
      ((∃ input, scanBytes input = .ok tokens) ↔ Canonical tokens) := by
  have hsurvives : Canonical tokens → scanBytes (format tokens) = .ok tokens :=
    fun h => scanBytes_eq_ok_iff.2 h.scans
  have hcanonical : ∀ input, scanBytes input = .ok tokens → Canonical tokens :=
    fun input h => (scanBytes_eq_ok_iff.1 h).canonical
  refine ⟨⟨hcanonical _, hsurvives⟩, ⟨?_, ?_⟩⟩
  · intro ⟨input, h⟩
    exact hcanonical input h
  · intro h
    exact ⟨format tokens, hsurvives h⟩

/-- Text with an opening that is not closed takes in the variable after it. -/
example : scanBytes (format [.literal [dollar, leftBrace], .var [120]]) =
    .ok [.var [dollar, leftBrace, 120]] := by
  cbv

end StackIr.Substitution
