import StackIr.Failure
import StackIr.Proofs.Text.Cut

/-! # The message of several failures can be read back

    The message of several failures is a heading and a list with a bullet for each of them.  The
    messages in the list are any texts: they have lines and bullets of their own, and may be lists
    like the one they stand in.

    What keeps them apart is what follows a line break.  In front of a bullet it is a tab and a
    star.  Inside a message it is a tab and a blank, whatever the message has there, because every
    line break of the message is written with blanks after it.  So a message ends where the first
    line break with a star behind it is, and the list gives back its messages. -/

namespace StackIr

namespace Failure

/-! ## Messages below a bullet -/

/-- A character of a message that is set below a bullet. -/
def hangChar (c : Char) : List Char :=
  if c = '\n' then ['\n', '\t', ' ', ' '] else [c]

@[simp] theorem toList_hang (s : String) : (hang s).toList = s.toList.flatMap hangChar :=
  String.toList_ofList

theorem hangChar_lineBreak : hangChar '\n' = ['\n', '\t', ' ', ' '] :=
  rfl

theorem hangChar_of_ne {c : Char} (h : c ≠ '\n') : hangChar c = [c] :=
  if_neg h

theorem hangChar_append_inj {c d : Char} {rest rest' : List Char}
    (h : hangChar c ++ rest = hangChar d ++ rest') : c = d ∧ rest = rest' := by
  by_cases hc : c = '\n' <;> by_cases hd : d = '\n'
  · subst hc hd
    exact ⟨rfl, List.append_cancel_left h⟩
  · subst hc
    rw [hangChar_lineBreak, hangChar_of_ne hd] at h
    exact absurd (List.cons.inj h).1.symm hd
  · subst hd
    rw [hangChar_lineBreak, hangChar_of_ne hc] at h
    exact absurd (List.cons.inj h).1 hc
  · rw [hangChar_of_ne hc, hangChar_of_ne hd] at h
    exact List.cons.inj h

/-! ## Lists of messages -/

/-- The characters of a list of messages. -/
def bullets (messages : List String) : List Char :=
  messages.flatMap fun m => '\n' :: '\t' :: '*' :: ' ' :: m.toList.flatMap hangChar

@[simp] theorem bullets_cons (m : String) (messages : List String) :
    bullets (m :: messages) =
      '\n' :: '\t' :: '*' :: ' ' :: (m.toList.flatMap hangChar ++ bullets messages) := by
  simp [bullets]

/-- No bullet starts where a message goes on. -/
theorem hangChar_append_ne_bullets (c : Char) (rest : List Char) (messages : List String) :
    hangChar c ++ rest ≠ bullets messages := by
  intro h
  cases messages with
  | nil =>
    -- a character is never left out
    have hempty : hangChar c = [] := (List.append_eq_nil_iff.1 h).1
    rw [hangChar] at hempty
    split at hempty <;> cases hempty
  | cons m messages =>
    rw [bullets_cons] at h
    by_cases hc : c = '\n'
    · -- the third character is a blank on the left and a star on the right
      subst hc
      simp [hangChar_lineBreak] at h
    · rw [hangChar_of_ne hc] at h
      exact hc (List.cons.inj h).1

/-- A message ends where the next bullet is. -/
theorem flatMap_hangChar_append_inj {cs ds : List Char} {messages messages' : List String}
    (h : cs.flatMap hangChar ++ bullets messages = ds.flatMap hangChar ++ bullets messages') :
    cs = ds ∧ bullets messages = bullets messages' := by
  -- along both messages at once: a message may itself hold what looks like a bullet
  induction cs generalizing ds with
  | nil =>
    cases ds with
    | nil => exact ⟨rfl, h⟩
    | cons d ds =>
      rw [List.flatMap_cons, List.append_assoc] at h
      exact absurd h.symm (hangChar_append_ne_bullets d _ messages)
  | cons c cs ih =>
    rw [List.flatMap_cons, List.append_assoc] at h
    cases ds with
    | nil => exact absurd h (hangChar_append_ne_bullets c _ messages')
    | cons d ds =>
      rw [List.flatMap_cons, List.append_assoc] at h
      obtain ⟨rfl, hrest⟩ := hangChar_append_inj h
      obtain ⟨rfl, hlists⟩ := ih hrest
      exact ⟨rfl, hlists⟩

theorem bullets_injective : Function.Injective bullets := by
  intro messages
  induction messages with
  | nil =>
    intro messages' h
    cases messages' with
    | nil => rfl
    | cons m' messages' =>
      rw [bullets_cons] at h
      cases h
  | cons m messages ih =>
    intro messages' h
    rw [bullets_cons] at h
    cases messages' with
    | nil => cases h
    | cons m' messages' =>
      rw [bullets_cons] at h
      simp only [List.cons.injEq, true_and] at h
      obtain ⟨hfirst, hrest⟩ := flatMap_hangChar_append_inj h
      rw [String.toList_inj.1 hfirst, ih hrest]

/-! ## Headings -/

/-- The characters of the heading of a list of `count` messages. -/
def heading (count : Nat) : List Char :=
  (Nat.repr count ++ " errors occurred:").toList

theorem lineBreak_not_mem_heading (count : Nat) : '\n' ∉ heading count := by
  rw [heading, String.toList_append, List.mem_append, Nat.toList_repr]
  rintro (hdigit | htext)
  · exact absurd (Nat.isDigit_of_mem_toDigits (by decide) (by decide) hdigit) (by decide)
  · exact absurd htext (by decide)

/-- A heading ends with the first line break. -/
theorem heading_append_inj {count count' : Nat} {rest rest' : List Char}
    (h : heading count ++ '\n' :: rest = heading count' ++ '\n' :: rest') : rest = rest' := by
  -- both texts are cut at their first line break, which is not in a heading
  have hcut : Text.cutChars ['\n'] (heading count ++ '\n' :: rest) = some (heading count, rest) :=
    Text.cutChars_eq_some_iff.2 ⟨rfl, lineBreak_not_mem_heading count⟩
  have hcut' : Text.cutChars ['\n'] (heading count ++ '\n' :: rest) =
      some (heading count', rest') :=
    Text.cutChars_eq_some_iff.2 ⟨h, lineBreak_not_mem_heading count'⟩
  rw [hcut] at hcut'
  exact (Prod.mk.inj (Option.some.inj hcut')).2

theorem toList_severalMessage {messages : List String} (h : 2 ≤ messages.length) :
    (severalMessage messages).toList = heading messages.length ++ bullets messages := by
  match messages, h with
  | m :: m' :: rest, _ =>
    rw [severalMessage]
    · rw [String.toList_append, String.toList_join, List.flatMap_map, heading, bullets]
      simp
    · intro hempty
      cases hempty
    · intro only hsingle
      cases hsingle

/-- A list of two or more messages can be read back from its text. -/
theorem severalMessage_inj {messages messages' : List String} (h : 2 ≤ messages.length)
    (h' : 2 ≤ messages'.length) (heq : severalMessage messages = severalMessage messages') :
    messages = messages' := by
  have htext := congrArg String.toList heq
  rw [toList_severalMessage h, toList_severalMessage h'] at htext
  obtain ⟨m, rest, rfl⟩ := List.exists_cons_of_length_pos (Nat.zero_lt_of_lt h)
  obtain ⟨m', rest', rfl⟩ := List.exists_cons_of_length_pos (Nat.zero_lt_of_lt h')
  apply bullets_injective
  rw [bullets_cons, bullets_cons] at htext ⊢
  rw [heading_append_inj htext]

/-! ## Failures -/

theorem messages_eq_map (fs : List Failure) : messages fs = fs.map message := by
  induction fs with
  | nil => rfl
  | cons f fs ih => rw [messages, ih, List.map_cons]

end Failure

namespace Failures

theorem message_eq_severalMessage (fs : Failures) :
    fs.message = Failure.severalMessage (fs.map Failure.message) := by
  rw [message, Failure.message, Failure.messages_eq_map]

/-- Two collections of at least two failures have the same message exactly if they have as many
    members and the same messages in the same order. -/
theorem message_eq_iff_members {fs gs : Failures} (hfs : 2 ≤ fs.length) (hgs : 2 ≤ gs.length) :
    fs.message = gs.message ↔
      fs.length = gs.length ∧ fs.map Failure.message = gs.map Failure.message := by
  rw [message_eq_severalMessage, message_eq_severalMessage]
  constructor
  · intro h
    have hsame := Failure.severalMessage_inj (by rwa [List.length_map]) (by rwa [List.length_map]) h
    have hlength := congrArg List.length hsame
    rw [List.length_map, List.length_map] at hlength
    exact ⟨hlength, hsame⟩
  · rintro ⟨-, hsame⟩
    rw [hsame]

/-- A collection in a collection, with a message that looks like another bullet. -/
def nested : Failures :=
  [.several [.other "a", .other "b\n\t* c"], .other "d"]

/-- The same messages, spelled out. -/
def spelledOut : Failures :=
  [.other "2 errors occurred:\n\t* a\n\t* b\n\t  \t* c", .other "d"]

theorem message_eq_iff_members_nested :
    2 ≤ nested.length ∧ 2 ≤ spelledOut.length ∧ nested.message = spelledOut.message ∧
      nested.length = spelledOut.length ∧
        nested.map Failure.message = spelledOut.map Failure.message := by
  have htext : nested.message = spelledOut.message := by decide +kernel
  exact ⟨by decide, by decide, htext, (message_eq_iff_members (by decide) (by decide)).1 htext⟩

end Failures

end StackIr
