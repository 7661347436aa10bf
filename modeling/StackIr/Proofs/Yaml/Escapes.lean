import StackIr.Json.Basic
import StackIr.Proofs.Yaml.Quoted
import StackIr.Yaml.Presentation
import Mathlib.Data.Nat.Digits.Defs

/-! # Escapes

    A JSON string is also a scalar in double quotes, and so is what the printer writes in
    double quotes.  Both write a character as itself or by an escape that stands for it. -/

namespace StackIr.Yaml

/-! ## Hexadecimal numbers -/

theorem digitsFrom?_append (base sofar : Nat) (cs ds : List Char) :
    Decimal.digitsFrom? base sofar (cs ++ ds) =
      (Decimal.digitsFrom? base sofar cs).bind fun n => Decimal.digitsFrom? base n ds := by
  induction cs generalizing sofar with
  | nil => rfl
  | cons c cs ih =>
    rw [List.cons_append, Decimal.digitsFrom?, Decimal.digitsFrom?]
    split
    · split
      · exact ih _
      · rfl
    · rfl

theorem digitsFrom?_singleton (base sofar : Nat) {d : Nat} {c : Char}
    (hc : Decimal.digitValue? c = some d) (hd : d < base) :
    Decimal.digitsFrom? base sofar [c] = some (sofar * base + d) := by
  simp [Decimal.digitsFrom?, hc, hd]

theorem digits?_of_digitsFrom? {base n : Nat} {cs : List Char} (hne : cs ≠ [])
    (h : Decimal.digitsFrom? base 0 cs = some n) : Decimal.digits? base cs = some n := by
  obtain ⟨c, cs, rfl⟩ := List.exists_cons_of_ne_nil hne
  exact h

theorem digitValue?_hexDigit : ∀ d < 16, Decimal.digitValue? (Text.hexDigit d) = some d := by
  decide

theorem digitValue?_upper : ∀ d < 16,
    Decimal.digitValue? (Nat.digitChar d).toUpper = some d := by
  decide

theorem digitsFrom?_hex (width n : Nat) :
    Decimal.digitsFrom? 16 0 (Text.hex width n) = some (n % 16 ^ width) := by
  induction width generalizing n with
  | zero => simp [Text.hex, Decimal.digitsFrom?, Nat.mod_one]
  | succ width ih =>
    have hlast := digitsFrom?_singleton 16 (n / 16 % 16 ^ width)
      (digitValue?_hexDigit (n % 16) (Nat.mod_lt _ (by decide))) (Nat.mod_lt _ (by decide))
    rw [Text.hex, digitsFrom?_append, ih, Option.bind_some, hlast, Nat.pow_succ, Nat.mul_comm (16 ^ width),
      Nat.mod_mul]
    congr 1
    omega

theorem digitsFrom?_toDigits (n : Nat) :
    Decimal.digitsFrom? 16 0 ((Nat.toDigits 16 n).map Char.toUpper) = some n := by
  induction n using Nat.strongRecOn with
  | ind n ih =>
    by_cases hn : n < 16
    · rw [Nat.toDigits_of_lt_base hn]
      simpa using digitsFrom?_singleton 16 0 (digitValue?_upper n hn) hn
    · have hlt : n / 16 < n := by omega
      have hlast := digitsFrom?_singleton 16 (n / 16)
        (digitValue?_upper (n % 16) (Nat.mod_lt _ (by decide))) (Nat.mod_lt _ (by decide))
      rw [Nat.toDigits_of_base_le (by decide) (by omega), List.map_append, digitsFrom?_append,
        ih _ hlt, Option.bind_some, List.map_singleton, hlast]
      congr 1
      omega

theorem digitsFrom?_zeros (k : Nat) (cs : List Char) :
    Decimal.digitsFrom? 16 0 (List.replicate k '0' ++ cs) = Decimal.digitsFrom? 16 0 cs := by
  induction k with
  | zero => rfl
  | succ k ih =>
    have hzero := digitsFrom?_append 16 0 ['0'] (List.replicate k '0' ++ cs)
    rw [List.replicate_succ, List.cons_append, ← List.singleton_append, hzero]
    exact ih

theorem eq_hexDigit_of_mem_hex {width n : Nat} :
    ∀ x ∈ Text.hex width n, ∃ d < 16, x = Text.hexDigit d := by
  induction width generalizing n with
  | zero => simp [Text.hex]
  | succ width ih =>
    intro x hx
    rw [Text.hex, List.mem_append] at hx
    rcases hx with hx | hx
    · exact ih x hx
    · exact ⟨n % 16, Nat.mod_lt _ (by decide), List.mem_singleton.1 hx⟩

@[simp] theorem length_hex (width n : Nat) : (Text.hex width n).length = width := by
  induction width generalizing n with
  | zero => rfl
  | succ width ih => simp [Text.hex, ih]

theorem length_upperHex {width n : Nat} (hwidth : 0 < width) (h : n < 16 ^ width) :
    (Presentation.upperHex width n).length = width := by
  have hle := (Nat.length_toDigits_le_iff (b := 16) (n := n) (by decide) hwidth).2 h
  simp only [Presentation.upperHex, List.length_append, List.length_replicate, List.length_map]
  omega

theorem digits?_upperHex {width n : Nat} :
    Decimal.digits? 16 (Presentation.upperHex width n) = some n := by
  refine digits?_of_digitsFrom? ?_ ?_
  · simp [Presentation.upperHex, Nat.toDigits_ne_nil]
  · rw [Presentation.upperHex, digitsFrom?_zeros, digitsFrom?_toDigits]

namespace Quoted

/-! ## Escapes by number -/

/-- The letters before a number, with the digits of the number. -/
theorem isEscape_number {letter : Char} {width : Nat} {digits : List Char} {c : Char}
    (hsimple : simpleEscape? letter = none) (hwidth : escapeWidth? letter = some width)
    (hletter : Graphic letter) (hlength : digits.length = width)
    (hdigits : Decimal.digits? 16 digits = some c.toNat)
    (hgraphic : ∀ x ∈ digits, Graphic x) : IsEscape (letter :: digits) c where
  nonempty := by simp
  graphic := List.forall_mem_cons.2 ⟨hletter, hgraphic⟩
  reads := by
    intro rest
    have htake : (digits ++ rest).take width = digits := by
      rw [← hlength]
      simp
    have hvalid : c.toNat.isValidChar := c.valid
    simp [escape?, hsimple, hwidth, htake, hlength, hdigits, hvalid]

theorem graphic_hexDigit : ∀ d < 16, Graphic (Text.hexDigit d) := by
  decide

theorem graphic_upper : ∀ d < 16, Graphic (Nat.digitChar d).toUpper := by
  decide

theorem graphic_of_mem_hex {width n : Nat} : ∀ x ∈ Text.hex width n, Graphic x := by
  intro x hx
  obtain ⟨d, hd, rfl⟩ := eq_hexDigit_of_mem_hex x hx
  exact graphic_hexDigit d hd

theorem graphic_of_mem_toDigits (n : Nat) :
    ∀ x ∈ (Nat.toDigits 16 n).map Char.toUpper, Graphic x := by
  induction n using Nat.strongRecOn with
  | ind n ih =>
    intro x hx
    by_cases hn : n < 16
    · rw [Nat.toDigits_of_lt_base hn] at hx
      obtain rfl : x = (Nat.digitChar n).toUpper := by simpa using hx
      exact graphic_upper n hn
    · rw [Nat.toDigits_of_base_le (by decide) (by omega), List.map_append, List.mem_append] at hx
      rcases hx with hx | hx
      · exact ih _ (by omega) x hx
      · obtain rfl : x = (Nat.digitChar (n % 16)).toUpper := by simpa using hx
        exact graphic_upper _ (Nat.mod_lt _ (by decide))

theorem graphic_of_mem_upperHex {width n : Nat} :
    ∀ x ∈ Presentation.upperHex width n, Graphic x := by
  intro x hx
  rw [Presentation.upperHex, List.mem_append] at hx
  rcases hx with hx | hx
  · rw [List.eq_of_mem_replicate hx]
    decide
  · exact graphic_of_mem_toDigits n x hx

/-- A letter that stands for a character. -/
theorem isEscape_letter {letter c : Char} (h : simpleEscape? letter = some c)
    (hgraphic : Graphic letter) : IsEscape [letter] c where
  nonempty := by simp
  graphic := by simpa using hgraphic
  reads := by intro rest; simp [escape?, h]

/-! ## Bodies in double quotes -/

/-- How a character is spelled between double quotes: as itself or by an escape. -/
def Spells (piece : List Char) (c : Char) : Prop :=
  (piece = [c] ∧ isBreak c = false ∧ c ≠ '"' ∧ c ≠ '\\') ∨ ∃ e, piece = '\\' :: e ∧ IsEscape e c

theorem Spells.chars {piece : List Char} {c : Char} (h : Spells piece c) :
    ∀ x ∈ piece, (x = c ∧ isBreak c = false) ∨ Graphic x := by
  intro x hx
  rcases h with ⟨rfl, hbreak, _⟩ | ⟨e, rfl, he⟩
  · exact .inl ⟨List.mem_singleton.1 hx, hbreak⟩
  · rcases List.mem_cons.1 hx with rfl | hx
    · exact .inr (by decide)
    · exact .inr (he.graphic x hx)

theorem Spells.not_break {piece : List Char} {c : Char} (h : Spells piece c) :
    ∀ x ∈ piece, isBreak x = false := by
  intro x hx
  rcases h.chars x hx with ⟨rfl, hbreak⟩ | hgraphic
  · exact hbreak
  · exact hgraphic.not_break

/-- Whether the line separators of a text are kept where it stands between quotes.  A blank
    before or after one would be lost, and a marker after one would end the document. -/
def keepsSeparators : List Char → Bool
  | [] => true
  | c :: rest =>
    !(isBlank c && rest.head?.any isSeparator) &&
      !(isSeparator c && (rest.head?.any isBlank || startsMarker rest)) && keepsSeparators rest

theorem keepsSeparators_cons_iff {c : Char} {rest : List Char} :
    keepsSeparators (c :: rest) = true ↔
      (isBlank c = true → ∀ x ∈ rest.head?, isSeparator x = false) ∧
        (isSeparator c = true →
          (∀ x ∈ rest.head?, isBlank x = false) ∧ startsMarker rest = false) ∧
        keepsSeparators rest = true := by
  rw [keepsSeparators]
  cases isBlank c <;> cases isSeparator c <;> cases rest.head? <;> simp [and_assoc]

theorem keepsSeparators_of_append {xs ys : List Char} (h : keepsSeparators (xs ++ ys) = true) :
    keepsSeparators ys = true := by
  induction xs with
  | nil => exact h
  | cons x xs ih => exact ih (keepsSeparators_cons_iff.1 h).2.2

theorem isSeparator_of_not_break {c : Char} (h : isBreak c = false) : isSeparator c = false := by
  cases hc : isSeparator c
  · rfl
  · rw [isBreak_of_isOwnBreak (by simp [isOwnBreak, hc])] at h
    cases h

/-- In a single line there is nothing to keep. -/
theorem keepsSeparators_of_not_break {cs : List Char} (h : ∀ x ∈ cs, isBreak x = false) :
    keepsSeparators cs = true := by
  induction cs with
  | nil => rfl
  | cons c cs ih =>
    obtain ⟨hc, hcs⟩ := List.forall_mem_cons.1 h
    rw [keepsSeparators_cons_iff, isSeparator_of_not_break hc]
    exact ⟨fun _ x hx => isSeparator_of_not_break (hcs x (List.mem_of_head? hx)), nofun, ih hcs⟩

/-- Pieces that each spell a character, and separators as themselves where they are kept. -/
theorem body_of_kept {α : Type} {text : α → List Char} {char : α → Char} {pieces : List α}
    (h : ∀ p ∈ pieces, Spells (text p) (char p) ∨
      text p = [char p] ∧ isSeparator (char p) = true)
    (hkept : keepsSeparators (pieces.flatMap text) = true) :
    Body .double (pieces.map char) (pieces.flatMap text) := by
  induction pieces with
  | nil => exact .nil
  | cons p pieces ih =>
    obtain ⟨hp, hpieces⟩ := List.forall_mem_cons.1 h
    rw [List.flatMap_cons] at hkept
    have hbody := ih hpieces (keepsSeparators_of_append hkept)
    rw [List.map_cons, List.flatMap_cons]
    rcases hp with (⟨hpiece, hbreak, hquote, hescape⟩ | ⟨e, hpiece, he⟩) | ⟨hpiece, hseparator⟩
    · rw [hpiece, List.singleton_append] at hkept ⊢
      cases hblank : isBlank (char p)
      · exact .char hblank hbreak hquote (fun _ => hescape) hbody
      · refine .blank hblank ?_ hbody
        intro x hx
        -- what comes next is no separator, and no other break is written as itself
        have hnext : isSeparator x = false := (keepsSeparators_cons_iff.1 hkept).1 hblank x hx
        obtain ⟨q, hq, hxq⟩ := List.mem_flatMap.1 (List.mem_of_head? hx)
        rcases hpieces q hq with hspells | ⟨hself, hown⟩
        · exact hspells.not_break x hxq
        · rw [hself, List.mem_singleton] at hxq
          rw [← hxq, hnext] at hown
          cases hown
    · rw [hpiece, List.cons_append]
      exact .escape rfl he hbody
    · rw [hpiece, List.singleton_append] at hkept ⊢
      obtain ⟨hblank, hmarker⟩ := (keepsSeparators_cons_iff.1 hkept).2.1 hseparator
      exact hbody.separator hseparator hblank hmarker

/-- Pieces that each spell a character. -/
theorem body_of_pieces {α : Type} {text : α → List Char} {char : α → Char} {pieces : List α}
    (h : ∀ p ∈ pieces, Spells (text p) (char p)) :
    Body .double (pieces.map char) (pieces.flatMap text) := by
  refine body_of_kept (fun p hp => .inl (h p hp)) (keepsSeparators_of_not_break ?_)
  intro x hx
  obtain ⟨p, hp, hxp⟩ := List.mem_flatMap.1 hx
  exact (h p hp).not_break x hxp

theorem body_of_spells {f : Char → List Char} {cs : List Char} (h : ∀ c ∈ cs, Spells (f c) c) :
    Body .double cs (cs.flatMap f) := by
  have hbody : Body .double (cs.map id) (cs.flatMap f) := body_of_pieces h
  rwa [List.map_id] at hbody

theorem spells_ite {p : Prop} [Decidable p] {piece piece' : List Char} {c : Char}
    (h : p → Spells piece c) (h' : ¬ p → Spells piece' c) :
    Spells (if p then piece else piece') c := by
  by_cases hp : p
  · rw [if_pos hp]
    exact h hp
  · rw [if_neg hp]
    exact h' hp

/-- JSON escapes are escapes here.  The one character that JSON writes as itself and that
    would be read as a break is the next line. -/
theorem spells_escapeChar (e : Json.Escaping) {c : Char} (hc : c.toNat ≠ 0x85) :
    Spells (Json.escapeChar e c) c := by
  have hunicode : c.toNat < 0x10000 → Spells (Json.unicodeEscape c) c := by
    intro hlt
    have hdigits : Decimal.digits? 16 (Text.hex 4 c.toNat) = some c.toNat := by
      refine digits?_of_digitsFrom? ?_ ?_
      · intro h
        have := length_hex 4 c.toNat
        simp [h] at this
      · rw [digitsFrom?_hex, Nat.mod_eq_of_lt (by simpa using hlt)]
    exact .inr ⟨_, rfl, isEscape_number (by decide) (by decide) (by decide) (length_hex 4 _) hdigits
      graphic_of_mem_hex⟩
  have hletter : ∀ {letter d : Char}, c = d → simpleEscape? letter = some d →
      Graphic letter → Spells ['\\', letter] c :=
    fun hd h hgraphic => .inr ⟨_, rfl, isEscape_letter (hd ▸ h) hgraphic⟩
  unfold Json.escapeChar
  refine spells_ite (fun h => hletter h (by decide) (by decide)) fun hquote => ?_
  refine spells_ite (fun h => hletter h (by decide) (by decide)) fun hbackslash => ?_
  refine spells_ite (fun h => hletter h (by decide) (by decide)) fun _ => ?_
  refine spells_ite (fun h => hletter h (by decide) (by decide)) fun _ => ?_
  refine spells_ite (fun h => hletter h (by decide) (by decide)) fun hfeed => ?_
  refine spells_ite (fun h => hletter h (by decide) (by decide)) fun hreturn => ?_
  refine spells_ite (fun h => hletter h (by decide) (by decide)) fun _ => ?_
  refine spells_ite (fun h => hunicode (by omega)) fun _ => ?_
  refine spells_ite (fun h => hunicode ?_) fun _ => ?_
  · have hmarkup : c = '<' ∨ c = '>' ∨ c = '&' := by
      simp only [Bool.and_eq_true, Bool.or_eq_true, decide_eq_true_eq] at h
      tauto
    rcases hmarkup with rfl | rfl | rfl <;> decide
  refine spells_ite (fun h => hunicode ?_) fun hseparator => .inl ⟨rfl, ?_, hquote, hbackslash⟩
  · simp only [Bool.or_eq_true, decide_eq_true_eq] at h
    omega
  · -- what is left is no break: the feeds, the separators and the next line are excluded
    simp only [Bool.or_eq_true, decide_eq_true_eq, not_or] at hseparator
    simp [isBreak, hfeed, hreturn, hc, hseparator.1, hseparator.2]

theorem spells_escape (c : Char) : Spells (Presentation.escape c) c := by
  have hchar : ∀ {n : Nat}, c.toNat = n → c = Char.ofNat n := fun h => by rw [← h]; simp
  have hnumber : ∀ {letter : Char} {width : Nat}, simpleEscape? letter = none →
      escapeWidth? letter = some width → Graphic letter → 0 < width →
      c.toNat < 16 ^ width → Spells ('\\' :: letter :: Presentation.upperHex width c.toNat) c :=
    fun hs hw hl hpos hlt => .inr ⟨_, rfl, isEscape_number hs hw hl (length_upperHex hpos hlt)
      digits?_upperHex graphic_of_mem_upperHex⟩
  have hletter : ∀ {letter : Char} {n : Nat}, c.toNat = n →
      simpleEscape? letter = some (Char.ofNat n) → Graphic letter → Spells ['\\', letter] c :=
    fun hn h hgraphic => .inr ⟨_, rfl, isEscape_letter (by rw [hchar hn]; exact h) hgraphic⟩
  unfold Presentation.escape
  split
  case h_16 n _ _ _ _ _ _ _ _ _ _ _ _ _ _ _ =>
    have hmax : c.toNat < 0x110000 := by
      have hvalid : c.toNat.isValidChar := c.valid
      rcases hvalid with h | h <;> omega
    -- a number of two, four or eight digits
    split
    · exact hnumber (by decide) (by decide) (by decide) (by decide) (by omega)
    · split
      · exact hnumber (by decide) (by decide) (by decide) (by decide) (by omega)
      · exact hnumber (by decide) (by decide) (by decide) (by decide) (by omega)
  all_goals exact hletter (by assumption) (by decide) (by decide)

/-- A character in double quotes, escaped if asked. -/
theorem spells_put (marked : Bool) (c : Char) :
    Spells (if marked || !Presentation.isPrintable c || isBreak c || c == '"' || c == '\\' then
      Presentation.escape c else [c]) c := by
  split_ifs with h
  · exact spells_escape c
  · simp only [Bool.or_eq_true, Bool.not_eq_true', beq_iff_eq, not_or] at h
    exact .inl ⟨rfl, by simpa using h.1.1.2, h.1.2, h.2⟩

/-- What the printer writes in double quotes is a scalar in double quotes. -/
theorem body_doubleQuoted (cs : List Char) :
    Body .double cs (Presentation.doubleQuoted cs) :=
  body_of_spells fun c _ => spells_put _ c

end Quoted

end StackIr.Yaml
