/-! # Loggers derived from one another

    A logger with more fields is derived from one there is.  Each has something of its own, and
    all of them share what they write to and what they remember.  A `Family` is such a state: the
    shared part, and the own part of every member in the order in which they were derived.

    Members are derived and used in any order.  Deriving leaves the shared part as it is, so that
    it only depends on the requests that were made and on the own parts of those who made them
    (`map_shared_run`). -/

namespace StackIr.Log

/-- What loggers that were derived from one another share, and what each has of its own. -/
structure Family (Shared Own : Type) where
  shared : Shared
  members : List Own

namespace Family

/-- What can be done with a family.  Members are known by their numbers, from the first on. -/
inductive Step (Own Request : Type) where
  /-- A member is derived from another. -/
  | derive (parent : Nat) (change : Own → Own)
  /-- A member makes a request. -/
  | use (member : Nat) (request : Request)

variable {Shared Own Request : Type} {m : Type → Type} [Monad m]

/-- The family after a step.  A number that no member has does nothing. -/
def step (act : Own → Shared → Request → m Shared) (f : Family Shared Own) :
    Step Own Request → m (Family Shared Own)
  | .derive parent change =>
    pure { f with members := f.members ++ (f.members[parent]?.map change).toList }
  | .use member request =>
    match f.members[member]? with
    | none => pure f
    | some own => do
      let shared ← act own f.shared request
      return { f with shared := shared }

/-- The family after some steps. -/
def run (act : Own → Shared → Request → m Shared) (f : Family Shared Own)
    (steps : List (Step Own Request)) : m (Family Shared Own) :=
  steps.foldlM (step act) f

/-- The requests of some steps in order, each with the own part of the member that made it. -/
def requests : List Own → List (Step Own Request) → List (Own × Request)
  | _, [] => []
  | members, .derive parent change :: rest =>
    requests (members ++ (members[parent]?.map change).toList) rest
  | members, .use member request :: rest =>
    members[member]?.toList.map (·, request) ++ requests members rest

/-- The shared part is what the requests make of it, one after the other. -/
theorem map_shared_run [LawfulMonad m] (act : Own → Shared → Request → m Shared)
    (f : Family Shared Own) (steps : List (Step Own Request)) :
    shared <$> run act f steps =
      (requests f.members steps).foldlM (fun shared (own, request) => act own shared request)
        f.shared := by
  induction steps generalizing f with
  | nil => simp [run, requests]
  | cons s rest ih =>
    rw [run, List.foldlM_cons, map_bind]
    cases s with
    | derive parent change =>
      -- a derived member leaves the shared part alone
      rw [step, pure_bind]
      exact ih _
    | use member request =>
      cases hmember : f.members[member]? with
      | none =>
        simp only [step, hmember, pure_bind, requests, Option.toList_none, List.map_nil,
          List.nil_append]
        exact ih f
      | some own =>
        simp only [step, hmember, requests, Option.toList_some, List.map_cons, List.map_nil,
          List.singleton_append, List.foldlM_cons, bind_assoc, pure_bind]
        congr 1
        funext shared
        exact ih { f with shared := shared }

end Family

end StackIr.Log
