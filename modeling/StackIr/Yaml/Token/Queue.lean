import StackIr.Yaml.Token

/-! # Tokens on their way

    Tokens are handed out in order, and each takes the comments with it that belong to its
    place or an earlier one. -/

namespace StackIr.Yaml

/-- The tokens that were read. -/
structure TokenQueue where
  /-- The tokens that have been handed out, last first, and their number. -/
  out : List Token := []
  released : Nat := 0
  /-- The tokens that have not, last first. -/
  waiting : List Token := []
  /-- The number of all tokens. -/
  count : Nat := 0
  /-- The comments that no token has taken, first first. -/
  comments : List Comment := []

namespace TokenQueue

/-- Adds a token. -/
def push (t : Token) (q : TokenQueue) : TokenQueue :=
  { q with waiting := t :: q.waiting, count := q.count + 1 }

/-- Adds a token before those that came after the first `number`, or at the end if one of
    those has been handed out. -/
def pushAt (number : Nat) (t : Token) (q : TokenQueue) : TokenQueue :=
  if number < q.released then q.push t
  else
    { q with waiting := q.waiting.insertIdx (q.count - number) t, count := q.count + 1 }

/-- The last token, if there is one. -/
def last? (q : TokenQueue) : Option Token :=
  q.waiting.head?.or q.out.head?

/-- The last token but for a comma. -/
def lastBeforeComma? (q : TokenQueue) : Option Token :=
  match q.waiting ++ q.out.take 2 with
  | a :: b :: _ => if a.kind = .flowEntry then some b else some a
  | tokens => tokens.head?

def addComment (c : Comment) (q : TokenQueue) : TokenQueue :=
  { q with comments := q.comments ++ [c] }

/-- The comments that a token takes, and those that it leaves.  The end of a block takes no
    comment on what follows it. -/
def takeComments (t : Token) : List Comment → List Comment × List Comment
  | [] => ([], [])
  | c :: rest =>
    if c.since ≤ t.mark.index && !(c.place = .head && t.kind = .blockEnd) then
      let (taken, left) := takeComments t rest
      (c :: taken, left)
    else ([], c :: rest)

/-- Hands out a token. -/
def handOut (q : TokenQueue) (t : Token) : TokenQueue :=
  let (taken, left) := takeComments t q.comments
  { q with
    out := { t with comments := taken } :: q.out
    released := q.released + 1
    comments := left }

/-- Hands out tokens until their number is `number`. -/
def release (number : Nat) (q : TokenQueue) : TokenQueue :=
  let tokens := q.waiting.reverse
  let n := number - q.released
  (tokens.take n).foldl handOut { q with waiting := (tokens.drop n).reverse }

/-- All tokens in order. -/
def all (q : TokenQueue) : List Token :=
  (q.release q.count).out.reverse

end TokenQueue

end StackIr.Yaml
