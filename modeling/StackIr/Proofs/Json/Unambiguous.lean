import StackIr.Json.Basic
import StackIr.Proofs.Rendering.Legible
import StackIr.Proofs.Text.Utf8
import StackIr.Proofs.Yaml.Escapes

/-! # Compact text is unambiguous

    What a document says can be told from its compact text, except that a number does not tell
    whether it is a whole number or a floating point number.  `shape` leaves just that out: null,
    booleans and numbers are words.

    No text of a document is the beginning of another one, unless both are words and the other
    goes on with more characters of words.  So the statements are about texts with something
    after them that does not go on with the word (`Stops`).  Strings and keys end with the quote
    that is not escaped, items and members at the comma or the bracket. -/

namespace StackIr.Json

/-! ## Shapes -/

/-- What can be told from the compact text of a document. -/
inductive Shape where
  | word (w : List Char)
  | string (s : String)
  | array (items : List Shape)
  | object (members : List (String × Shape))

mutual

/-- The shape of a document. -/
def shape : Json → Shape
  | .null => .word "null".toList
  | .bool b => .word (if b then "true".toList else "false".toList)
  | .int i => .word (intText i)
  | .float x => .word (Decimal.Layout.json.render x).toList
  | .string s => .string s
  | .array items => .array (shapeItems items)
  | .object members => .object (shapeMembers members)

def shapeItems : List Json → List Shape
  | [] => []
  | item :: items => shape item :: shapeItems items

def shapeMembers : List (String × Json) → List (String × Shape)
  | [] => []
  | (key, value) :: members => (key, shape value) :: shapeMembers members

end

/-! ## Strings -/

section strings

open Yaml Yaml.Quoted

variable {e : Escaping} {c c' : Char} {s s' : String} {rest rest' : List Char}

/-- A character is written as itself, or as a backslash and an escape that is read as it. -/
theorem escapeChar_cases (e : Escaping) (c : Char) :
    (escapeChar e c = [c] ∧ c ≠ '"' ∧ c ≠ '\\') ∨
      ∃ spelled, escapeChar e c = '\\' :: spelled ∧ IsEscape spelled c := by
  -- only this one is written as itself although the reader takes it for a line break
  by_cases hc : c.toNat = 0x85
  · obtain rfl : c = '\u0085' := by
      rw [← Char.ofNat_toNat c, hc]
    refine .inl ⟨?_, by decide, by decide⟩
    cases e with
    | mk markup => cases markup <;> rfl
  · rcases spells_escapeChar e hc with ⟨hself, -, hquote, hescape⟩ | hspelled
    · exact .inl ⟨hself, hquote, hescape⟩
    · exact .inr hspelled

theorem escapeChar_append_ne (h : escapeChar e c ++ rest = '"' :: rest') : False := by
  rcases escapeChar_cases e c with ⟨hself, hquote, -⟩ | ⟨spelled, hspelled, -⟩
  · rw [hself] at h
    exact hquote (List.cons.inj h).1
  · rw [hspelled] at h
    exact absurd (List.cons.inj h).1 (by decide)

/-- The first character of an escaped text can be told. -/
theorem escapeChar_append_inj (h : escapeChar e c ++ rest = escapeChar e c' ++ rest') :
    c = c' ∧ rest = rest' := by
  rcases escapeChar_cases e c with ⟨hself, -, hescape⟩ | ⟨spelled, hspelled, hreads⟩ <;>
    rcases escapeChar_cases e c' with ⟨hself', -, hescape'⟩ | ⟨spelled', hspelled', hreads'⟩
  · rw [hself, hself'] at h
    exact List.cons.inj h
  · rw [hself, hspelled'] at h
    exact absurd (List.cons.inj h).1 hescape
  · rw [hspelled, hself'] at h
    exact absurd (List.cons.inj h).1.symm hescape'
  · rw [hspelled, hspelled'] at h
    -- both are escapes, and reading the text gives one character and one length
    have htails : spelled ++ rest = spelled' ++ rest' := (List.cons.inj h).2
    have hread := hreads.reads rest
    rw [htails, hreads'.reads rest'] at hread
    obtain ⟨rfl, hlength⟩ := Prod.mk.inj (Option.some.inj hread)
    exact ⟨rfl, (List.append_inj htails (Nat.succ.inj hlength).symm).2⟩

theorem flatMap_escapeChar_append_inj {cs cs' : List Char}
    (h : cs.flatMap (escapeChar e) ++ '"' :: rest = cs'.flatMap (escapeChar e) ++ '"' :: rest') :
    cs = cs' ∧ rest = rest' := by
  induction cs generalizing cs' with
  | nil =>
    cases cs' with
    | nil => exact ⟨rfl, (List.cons.inj h).2⟩
    | cons c' cs' =>
      rw [List.flatMap_cons, List.append_assoc] at h
      exact (escapeChar_append_ne h.symm).elim
  | cons c cs ih =>
    rw [List.flatMap_cons, List.append_assoc] at h
    cases cs' with
    | nil => exact (escapeChar_append_ne h).elim
    | cons c' cs' =>
      rw [List.flatMap_cons, List.append_assoc] at h
      obtain ⟨rfl, htails⟩ := escapeChar_append_inj h
      obtain ⟨rfl, hrest⟩ := ih htails
      exact ⟨rfl, hrest⟩

/-- A string ends at its own closing quote. -/
theorem stringText_append_inj (h : stringText e s ++ rest = stringText e s' ++ rest') :
    s = s' ∧ rest = rest' := by
  simp only [stringText, List.cons_append, List.append_assoc, List.nil_append] at h
  obtain ⟨hchars, hrest⟩ := flatMap_escapeChar_append_inj (List.cons.inj h).2
  exact ⟨String.toList_inj.1 hchars, hrest⟩

end strings

/-! ## Words -/

/-- Text that does not go on with a word. -/
def Stops (rest : List Char) : Prop :=
  ∀ c ∈ rest.head?, isWordChar c = false

theorem stops_cons {c : Char} {rest : List Char} (h : isWordChar c = false) :
    Stops (c :: rest) := by
  simpa [Stops] using h

/-- A word ends where its characters end. -/
theorem word_append_inj {w w' rest rest' : List Char} (hw : ∀ c ∈ w, isWordChar c = true)
    (hw' : ∀ c ∈ w', isWordChar c = true) (hrest : Stops rest) (hrest' : Stops rest')
    (h : w ++ rest = w' ++ rest') : w = w' ∧ rest = rest' := by
  have hword : w = w' := by
    rw [← takeWhile_append_eq hw hrest, h, takeWhile_append_eq hw' hrest']
  subst hword
  exact ⟨rfl, List.append_cancel_left h⟩

theorem intText_injective : Function.Injective intText := by
  have hdigits : ∀ {n m : Nat}, Nat.toDigits 10 n = Nat.toDigits 10 m → n = m := by
    intro n m h
    rw [← Nat.ofDigitChars_ten_toDigits (n := n), h, Nat.ofDigitChars_ten_toDigits]
  -- no digit is a dash, so a number with a sign is not one without
  have hsign : ∀ {n m : Nat}, '-' :: Nat.toDigits 10 n ≠ Nat.toDigits 10 m := by
    intro n m h
    have := isDigit_of_mem_toDigits '-' (h ▸ List.mem_cons_self ..)
    exact absurd this (by decide)
  intro i j h
  unfold intText at h
  split at h <;> split at h
  · have := hdigits (List.cons.inj h).2
    omega
  · exact absurd h hsign
  · exact absurd h.symm hsign
  · have := hdigits h
    omega

/-! ## Documents -/

section documents

variable {e : Escaping} {j : Json} {rest rest' : List Char}

/-- The character that opens a document, unless the document is a word. -/
def opening? : Json → Option Char
  | .string _ => some '"'
  | .array _ => some '['
  | .object _ => some '\x7b'
  | _ => none

theorem isWordChar_of_mem_render (x : Binary64) :
    (Decimal.Layout.json.render x).toList ≠ [] ∧
      ∀ c ∈ (Decimal.Layout.json.render x).toList, isWordChar c = true := by
  by_cases hfinite : x.isFinite = true
  · obtain ⟨hchars, c, rest, hstart, -⟩ := isWord_render hfinite
    exact ⟨by rw [hstart]; exact List.cons_ne_nil _ _, hchars⟩
  · -- what is not finite is one of three words
    unfold Decimal.Layout.render
    split
    · exact ⟨by decide, List.all_iff_forall_prop.1 (by decide)⟩
    · rename_i negative _
      cases negative
      · exact ⟨by decide, List.all_iff_forall_prop.1 (by decide)⟩
      · exact ⟨by decide, List.all_iff_forall_prop.1 (by decide)⟩
    · rename_i hmeaning
      simp [Binary64.isFinite, hmeaning] at hfinite

/-- Documents without an opening character are words. -/
theorem word_of_opening? (h : opening? j = none) :
    ∃ w, w ≠ [] ∧ (∀ c ∈ w, isWordChar c = true) ∧ compact e j = w ∧ shape j = .word w := by
  have hword : ∀ {w : List Char}, IsWord w → w ≠ [] ∧ ∀ c ∈ w, isWordChar c = true := by
    rintro w ⟨hchars, c, rest, rfl, -⟩
    exact ⟨List.cons_ne_nil _ _, hchars⟩
  cases j with
  | null => exact ⟨_, (hword isWord_null).1, (hword isWord_null).2, by rw [compact], by rw [shape]⟩
  | bool b =>
    refine ⟨_, (hword (isWord_bool b)).1, (hword (isWord_bool b)).2, ?_, by rw [shape]⟩
    cases b
    · rw [compact, if_neg (by decide)]
    · rw [compact, if_pos rfl]
  | int i =>
    exact ⟨_, (hword (isWord_intText i)).1, (hword (isWord_intText i)).2, by rw [compact],
      by rw [shape]⟩
  | float x =>
    exact ⟨_, (isWordChar_of_mem_render x).1, (isWordChar_of_mem_render x).2, by rw [compact],
      by rw [shape]⟩
  | string s => cases h
  | array items => cases h
  | object members => cases h

/-- What a text starts with tells the opening character. -/
theorem head?_compact_append (e : Escaping) (j : Json) (rest : List Char) :
    (compact e j ++ rest).head?.filter (fun c => !isWordChar c) = opening? j := by
  cases hopening : opening? j with
  | none =>
    obtain ⟨w, hne, hchars, hcompact, -⟩ := word_of_opening? (e := e) hopening
    obtain ⟨c, more, rfl⟩ := List.exists_cons_of_ne_nil hne
    have hc : isWordChar c = true := hchars c (List.mem_cons_self ..)
    simp [hcompact, hc]
  | some c =>
    cases j with
    | string s => cases hopening; rw [compact, stringText]; rfl
    | array items => cases hopening; rw [compact]; rfl
    | object members => cases hopening; rw [compact]; rfl
    | _ => cases hopening

theorem compact_append_ne {c : Char} (hword : isWordChar c = false)
    (hopening : c ∉ ['"', '[', '\x7b']) (h : compact e j ++ rest = c :: rest') : False := by
  have hhead := head?_compact_append e j rest
  rw [h, List.head?_cons, Option.filter_some, if_pos (by rw [hword]; rfl)] at hhead
  cases j with
  | string s => cases hhead; exact hopening (by decide)
  | array items => cases hhead; exact hopening (by decide)
  | object members => cases hhead; exact hopening (by decide)
  | _ => cases hhead

/-- The text of the items after the first. -/
def itemsAfter (e : Escaping) : List Json → List Char
  | [] => []
  | item :: items => ',' :: (compact e item ++ itemsAfter e items)

/-- The text of the members after the first. -/
def membersAfter (e : Escaping) : List (String × Json) → List Char
  | [] => []
  | (key, value) :: members =>
    ',' :: (stringText e key ++ ':' :: (compact e value ++ membersAfter e members))

theorem compactItems_cons (e : Escaping) (item : Json) (items : List Json) :
    compactItems e (item :: items) = compact e item ++ itemsAfter e items := by
  induction items generalizing item with
  | nil => rw [compactItems, itemsAfter, List.append_nil]
  | cons next items ih =>
    rw [compactItems, itemsAfter, ih]
    exact List.cons_ne_nil _ _

theorem compactMembers_cons (e : Escaping) (key : String) (value : Json)
    (members : List (String × Json)) :
    compactMembers e ((key, value) :: members) =
      stringText e key ++ ':' :: (compact e value ++ membersAfter e members) := by
  induction members generalizing key value with
  | nil => rw [compactMembers, membersAfter, List.append_nil]
  | cons next members ih =>
    obtain ⟨nextKey, nextValue⟩ := next
    rw [compactMembers, membersAfter, ih]
    exact List.cons_ne_nil _ _

theorem stops_itemsAfter (items : List Json) (rest : List Char) :
    Stops (itemsAfter e items ++ ']' :: rest) := by
  cases items with
  | nil => exact stops_cons (by decide)
  | cons item items =>
    rw [itemsAfter]
    exact stops_cons (by decide)

theorem stops_membersAfter (members : List (String × Json)) (rest : List Char) :
    Stops (membersAfter e members ++ '\x7d' :: rest) := by
  cases members with
  | nil => exact stops_cons (by decide)
  | cons member members =>
    rw [membersAfter]
    exact stops_cons (by decide)

/-- With a comma before the first item, all items are alike. -/
theorem itemsAfter_of_compactItems {items items' : List Json}
    (h : compactItems e items ++ ']' :: rest = compactItems e items' ++ ']' :: rest') :
    itemsAfter e items ++ ']' :: rest = itemsAfter e items' ++ ']' :: rest' := by
  cases items with
  | nil =>
    cases items' with
    | nil => exact h
    | cons item' items' =>
      rw [compactItems_cons, List.append_assoc] at h
      exact (compact_append_ne (by decide) (by decide) h.symm).elim
  | cons item items =>
    cases items' with
    | nil =>
      rw [compactItems_cons, List.append_assoc] at h
      exact (compact_append_ne (by decide) (by decide) h).elim
    | cons item' items' =>
      rw [compactItems_cons, compactItems_cons] at h
      rw [itemsAfter, itemsAfter, List.cons_append, List.cons_append, h]

theorem membersAfter_of_compactMembers {members members' : List (String × Json)}
    (h : compactMembers e members ++ '\x7d' :: rest =
      compactMembers e members' ++ '\x7d' :: rest') :
    membersAfter e members ++ '\x7d' :: rest = membersAfter e members' ++ '\x7d' :: rest' := by
  cases members with
  | nil =>
    cases members' with
    | nil => exact h
    | cons member' members' =>
      rw [compactMembers_cons] at h
      exact absurd (List.cons.inj h).1 (by decide)
  | cons member members =>
    cases members' with
    | nil =>
      rw [compactMembers_cons] at h
      exact absurd (List.cons.inj h).1 (by decide)
    | cons member' members' =>
      rw [compactMembers_cons, compactMembers_cons] at h
      rw [membersAfter, membersAfter, List.cons_append, List.cons_append, h]

mutual

/-- The text of a document ends where something else begins, and tells its shape. -/
theorem compact_append_inj (j j' : Json) {rest rest' : List Char} (hrest : Stops rest)
    (hrest' : Stops rest') (h : compact e j ++ rest = compact e j' ++ rest') :
    shape j = shape j' ∧ rest = rest' := by
  -- the first character tells which case both documents are in
  have hopening : opening? j = opening? j' := by
    rw [← head?_compact_append e j rest, h, head?_compact_append]
  cases hj : opening? j with
  | none =>
    obtain ⟨w, -, hchars, hcompact, hshape⟩ := word_of_opening? (e := e) hj
    obtain ⟨w', -, hchars', hcompact', hshape'⟩ := word_of_opening? (e := e) (hopening ▸ hj)
    rw [hcompact, hcompact'] at h
    obtain ⟨rfl, hrests⟩ := word_append_inj hchars hchars' hrest hrest' h
    exact ⟨by rw [hshape, hshape'], hrests⟩
  | some c =>
    cases j with
    | string s =>
      cases j' with
      | string s' =>
        rw [compact, compact] at h
        obtain ⟨rfl, hrests⟩ := stringText_append_inj h
        exact ⟨rfl, hrests⟩
      | _ => cases hopening
    | array items =>
      cases j' with
      | array items' =>
        simp only [compact, List.cons_append, List.append_assoc, List.nil_append] at h
        obtain ⟨hitems, hrests⟩ := itemsAfter_append_inj items items'
          (itemsAfter_of_compactItems (List.cons.inj h).2)
        exact ⟨by rw [shape, shape, hitems], hrests⟩
      | _ => cases hopening
    | object members =>
      cases j' with
      | object members' =>
        simp only [compact, List.cons_append, List.append_assoc, List.nil_append] at h
        obtain ⟨hmembers, hrests⟩ := membersAfter_append_inj members members'
          (membersAfter_of_compactMembers (List.cons.inj h).2)
        exact ⟨by rw [shape, shape, hmembers], hrests⟩
      | _ => cases hopening
    | _ => cases hj

theorem itemsAfter_append_inj (items items' : List Json) {rest rest' : List Char}
    (h : itemsAfter e items ++ ']' :: rest = itemsAfter e items' ++ ']' :: rest') :
    shapeItems items = shapeItems items' ∧ rest = rest' := by
  cases items with
  | nil =>
    cases items' with
    | nil => exact ⟨rfl, (List.cons.inj h).2⟩
    | cons item' items' =>
      rw [itemsAfter, itemsAfter] at h
      exact absurd (List.cons.inj h).1 (by decide)
  | cons item items =>
    cases items' with
    | nil =>
      rw [itemsAfter, itemsAfter] at h
      exact absurd (List.cons.inj h).1 (by decide)
    | cons item' items' =>
      rw [itemsAfter, itemsAfter, List.cons_append, List.cons_append, List.append_assoc,
        List.append_assoc] at h
      obtain ⟨hitem, hafter⟩ := compact_append_inj item item' (stops_itemsAfter items rest)
        (stops_itemsAfter items' rest') (List.cons.inj h).2
      obtain ⟨hitems, hrests⟩ := itemsAfter_append_inj items items' hafter
      exact ⟨by rw [shapeItems, shapeItems, hitem, hitems], hrests⟩

theorem membersAfter_append_inj (members members' : List (String × Json)) {rest rest' : List Char}
    (h : membersAfter e members ++ '\x7d' :: rest = membersAfter e members' ++ '\x7d' :: rest') :
    shapeMembers members = shapeMembers members' ∧ rest = rest' := by
  cases members with
  | nil =>
    cases members' with
    | nil => exact ⟨rfl, (List.cons.inj h).2⟩
    | cons member' members' =>
      rw [membersAfter, membersAfter] at h
      exact absurd (List.cons.inj h).1 (by decide)
  | cons member members =>
    cases members' with
    | nil =>
      rw [membersAfter, membersAfter] at h
      exact absurd (List.cons.inj h).1 (by decide)
    | cons member' members' =>
      simp only [membersAfter, List.cons_append, List.append_assoc] at h
      obtain ⟨hkey, hvalues⟩ := stringText_append_inj (List.cons.inj h).2
      obtain ⟨hvalue, hafter⟩ := compact_append_inj member.2 member'.2
        (stops_membersAfter members rest) (stops_membersAfter members' rest')
        (List.cons.inj hvalues).2
      obtain ⟨hmembers, hrests⟩ := membersAfter_append_inj members members' hafter
      exact ⟨by rw [shapeMembers, shapeMembers, hkey, hvalue, hmembers], hrests⟩

end

/-- The compact text of a document tells its shape. -/
theorem shape_eq_of_compact_eq {j j' : Json} (h : compact e j = compact e j') :
    shape j = shape j' := by
  have hnil : Stops [] := fun _ hc => by simp at hc
  have happend : compact e j ++ [] = compact e j' ++ [] := by rw [h]
  exact (compact_append_inj j j' hnil hnil happend).1

/-- Documents with the same bytes have the same shape. -/
theorem shape_eq_of_text_eq {j j' : Json} {refusal refusal' : Option Refusal}
    {text text' : String} (hj : textUnless refusal (compact e j) = .ok text)
    (hj' : textUnless refusal' (compact e j') = .ok text')
    (h : Text.Utf8.encode text = Text.Utf8.encode text') : shape j = shape j' := by
  have hchars := Text.Utf8.encode_injective h
  rw [(textUnless_eq_ok_iff.1 hj).2, (textUnless_eq_ok_iff.1 hj').2] at hchars
  exact shape_eq_of_compact_eq (String.ofList_inj.1 hchars)

end documents

end StackIr.Json
