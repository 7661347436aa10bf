import StackIr.Yaml.Token.Queue
import Mathlib.Data.List.Basic

/-! # Tokens without comments

    As long as no comment is read, handing out tokens does not change them: the tokens of a
    queue are those handed out and those that wait, in order. -/

namespace StackIr.Yaml.TokenQueue

/-- A queue that has seen no comment and counts its tokens. -/
structure Clean (q : TokenQueue) : Prop where
  comments : q.comments = []
  bare : ∀ t ∈ q.out ++ q.waiting, t.comments = []
  released : q.released = q.out.length
  count : q.count = q.out.length + q.waiting.length

/-- The tokens in order. -/
def tokens (q : TokenQueue) : List Token :=
  q.out.reverse ++ q.waiting.reverse

def kinds (q : TokenQueue) : List TokenKind :=
  q.tokens.map Token.kind

theorem clean_empty : Clean {} :=
  ⟨rfl, by simp, rfl, rfl⟩

theorem Clean.length_tokens {q : TokenQueue} (h : q.Clean) : q.tokens.length = q.count := by
  rw [tokens, List.length_append, List.length_reverse, List.length_reverse, h.count]

theorem Clean.length_kinds {q : TokenQueue} (h : q.Clean) : q.kinds.length = q.count := by
  rw [kinds, List.length_map, h.length_tokens]

theorem Clean.released_le {q : TokenQueue} (h : q.Clean) : q.released ≤ q.count := by
  rw [h.released, h.count]
  omega

/-! ## Adding tokens -/

theorem Clean.push {q : TokenQueue} (h : q.Clean) (mark : Mark) (kind : TokenKind) :
    (q.push { mark := mark, kind := kind }).Clean where
  comments := h.comments
  bare := by
    intro t ht
    have ht' : t ∈ q.out ∨ t = { mark := mark, kind := kind } ∨ t ∈ q.waiting := by
      simpa [TokenQueue.push] using ht
    rcases ht' with ht | rfl | ht
    · exact h.bare t (by simp [ht])
    · rfl
    · exact h.bare t (by simp [ht])
  released := h.released
  count := by
    have := h.count
    simp [TokenQueue.push]
    omega

@[simp] theorem kinds_push (q : TokenQueue) (t : Token) :
    (q.push t).kinds = q.kinds ++ [t.kind] := by
  simp [kinds, tokens, push]

theorem Clean.pushAt {q : TokenQueue} (h : q.Clean) {number : Nat} (hnumber : q.released ≤ number)
    (mark : Mark) (kind : TokenKind) :
    (q.pushAt number { mark := mark, kind := kind }).Clean := by
  have hcount := h.count
  have hreleased := h.released
  have hplace : q.count - number ≤ q.waiting.length := by omega
  rw [TokenQueue.pushAt, if_neg (by omega)]
  refine ⟨h.comments, ?_, h.released, ?_⟩
  · intro t ht
    rw [List.mem_append, List.mem_insertIdx hplace] at ht
    rcases ht with ht | rfl | ht
    · exact h.bare t (by simp [ht])
    · rfl
    · exact h.bare t (by simp [ht])
  · show q.count + 1 = q.out.length + (q.waiting.insertIdx (q.count - number) _).length
    rw [List.length_insertIdx_of_le_length hplace]
    omega

/-- A token that is put at a place stands there. -/
theorem Clean.kinds_pushAt {q : TokenQueue} (h : q.Clean) {before after : List TokenKind}
    (hkinds : q.kinds = before ++ after) (hreleased : q.released ≤ before.length) (t : Token) :
    (q.pushAt before.length t).kinds = before ++ t.kind :: after := by
  have hlength : before.length + after.length = q.count := by
    rw [← List.length_append, ← hkinds, h.length_kinds]
  have hcount := h.count
  have hout := h.released
  -- What stands before the place is what was handed out and the first of those that wait.
  have hsplit : (q.out.reverse ++ (q.waiting.drop (q.count - before.length)).reverse).map Token.kind ++
      (q.waiting.take (q.count - before.length)).reverse.map Token.kind = before ++ after := by
    rw [← hkinds, kinds, tokens, ← List.map_append, List.append_assoc, ← List.reverse_append,
      List.take_append_drop]
  obtain ⟨hbefore, hafter⟩ := List.append_inj hsplit (by
    simp only [List.length_map, List.length_append, List.length_reverse, List.length_drop]
    omega)
  have hinsert : q.waiting.insertIdx (q.count - before.length) t =
      q.waiting.take (q.count - before.length) ++
        t :: q.waiting.drop (q.count - before.length) := by
    have hadd := List.modifyTailIdx_add (List.cons t) 0
      (q.waiting.take (q.count - before.length)) (q.waiting.drop (q.count - before.length))
    rwa [List.take_append_drop, List.length_take_of_le (by omega)] at hadd
  rw [TokenQueue.pushAt, if_neg (by omega), hinsert, kinds, tokens]
  simp only [List.reverse_append, List.reverse_cons, List.append_assoc, List.map_append,
    List.map_cons, List.map_nil] at hbefore hafter ⊢
  rw [hafter, ← List.append_assoc, hbefore]
  rfl

/-! ## Handing out tokens -/

theorem foldl_handOut {ts : List Token} (hts : ∀ t ∈ ts, t.comments = []) :
    ∀ (q : TokenQueue), q.comments = [] →
      ts.foldl handOut q =
        { q with out := ts.reverse ++ q.out, released := q.released + ts.length } := by
  induction ts with
  | nil =>
    intro q hq
    simp
  | cons t ts ih =>
    intro q hq
    have ht : ({ t with comments := [] } : Token) = t := by
      have := hts t (by simp)
      cases t
      simp_all
    have hstep : q.handOut t = { q with out := t :: q.out, released := q.released + 1 } := by
      rw [handOut, hq]
      simp only [takeComments, ht]
    have htail := ih (fun u hu => hts u (by simp [hu]))
      { q with out := t :: q.out, released := q.released + 1 } hq
    rw [List.foldl_cons, hstep, htail]
    simp
    omega

theorem Clean.release_eq {q : TokenQueue} (h : q.Clean) (n : Nat) :
    q.release n =
      { q with
        out := (q.waiting.reverse.take (n - q.released)).reverse ++ q.out
        released := q.released + (q.waiting.reverse.take (n - q.released)).length
        waiting := (q.waiting.reverse.drop (n - q.released)).reverse } := by
  have hbare : ∀ t ∈ q.waiting.reverse.take (n - q.released), t.comments = [] := by
    intro t ht
    have := List.mem_of_mem_take ht
    exact h.bare t (by simp_all)
  exact foldl_handOut hbare
    { q with waiting := (q.waiting.reverse.drop (n - q.released)).reverse } h.comments

theorem Clean.tokens_release {q : TokenQueue} (h : q.Clean) (n : Nat) :
    (q.release n).tokens = q.tokens := by
  rw [h.release_eq, tokens, tokens]
  simp only [List.reverse_append, List.reverse_reverse, List.append_assoc, List.take_append_drop]

theorem Clean.kinds_release {q : TokenQueue} (h : q.Clean) (n : Nat) :
    (q.release n).kinds = q.kinds := by
  rw [kinds, h.tokens_release, kinds]

theorem Clean.release {q : TokenQueue} (h : q.Clean) (n : Nat) : (q.release n).Clean := by
  rw [h.release_eq]
  refine ⟨h.comments, ?_, ?_, ?_⟩
  · intro t ht
    rcases List.mem_append.1 ht with ht | ht
    · rcases List.mem_append.1 ht with ht | ht
      · have := List.mem_of_mem_take (List.mem_reverse.1 ht)
        exact h.bare t (by simp_all)
      · exact h.bare t (by simp [ht])
    · have := List.mem_of_mem_drop (List.mem_reverse.1 ht)
      exact h.bare t (by simp_all)
  · have := h.released
    simp only [List.length_append, List.length_reverse]
    omega
  · have := h.count
    simp only [List.length_append, List.length_reverse, List.length_take, List.length_drop]
    omega

/-- Tokens are handed out up to a number. -/
theorem Clean.released_release_le {q : TokenQueue} (h : q.Clean) {n bound : Nat}
    (hn : n ≤ bound) (hq : q.released ≤ bound) : (q.release n).released ≤ bound := by
  rw [h.release_eq]
  simp only [List.length_take]
  omega

/-- In the end all tokens are handed out as they were added. -/
theorem Clean.all_eq {q : TokenQueue} (h : q.Clean) : q.all = q.tokens := by
  have hcount := h.count
  have hreleased := h.released
  rw [TokenQueue.all, h.release_eq, tokens]
  simp only [List.reverse_append, List.reverse_reverse]
  rw [List.take_of_length_le (by simp; omega)]

end StackIr.Yaml.TokenQueue
