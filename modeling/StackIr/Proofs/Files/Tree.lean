import StackIr.Files.Tree
import StackIr.Proofs.Failure
import StackIr.Proofs.OrderedMap
import StackIr.Proofs.Text.Path

/-! # Places in file trees

    Where a path leads does not depend on the tree: if it leads anywhere, it leads to one place
    (`Place.ofPath`), and cleaning a path does not change this place.  A file with a plain name
    below a directory is therefore right below the place of the directory (`ofPath_join`).

    Each operation on a tree is described by what stands at every place afterwards. -/

namespace StackIr.Files

open Text.Path (IsElement IsName Straight)

/-! ## Where a path leads -/

namespace Place

variable {p : Place} {name path : String} {absolute : Bool} {sofar es : List String}

/-- The place that a name leads to from another. -/
def enter (p : Place) (name : String) : Place :=
  if name = "." then p
  else if name = ".." then p.parent
  else if name = "/" then ["/"]
  else p ++ [name]

/-- The place that a path leads to, if it leads anywhere. -/
def ofPath (path : String) : Place :=
  (Tree.names path).foldl enter []

/-- Where the names of a path start. -/
def start (absolute : Bool) : Place :=
  if absolute then ["/"] else []

@[simp] theorem enter_self (p : Place) : p.enter "." = p := rfl

@[simp] theorem enter_parent (p : Place) : p.enter ".." = p.parent := rfl

theorem enter_name (p : Place) (h : IsName name) : p.enter name = p ++ [name] := by
  rw [enter, if_neg h.ne_self, if_neg h.ne_parent, if_neg h.ne_slash]

theorem ofPath_eq (path : String) :
    ofPath path = (Text.Path.elements path).foldl enter (start (Text.Path.isAbsolute path)) := by
  have hstart : (if Text.Path.isAbsolute path then ["/"] else []).foldl enter [] =
      start (Text.Path.isAbsolute path) := by
    cases Text.Path.isAbsolute path <;> rfl
  rw [ofPath, Tree.names, List.foldl_append, List.foldl_append, hstart]
  split
  · rw [List.foldl_cons, List.foldl_nil, enter_self]
  · rw [List.foldl_nil]

/-! ### Straight ways -/

/-- Above parents there is one more. -/
theorem parent_of_parents (hall : ∀ e ∈ sofar, e = "..") :
    (start false ++ sofar.reverse).parent = start false ++ (".." :: sofar).reverse := by
  have hroot : start false ++ sofar.reverse ≠ ["/"] := by
    intro heq
    have hmem : "/" ∈ sofar := by
      rw [← List.mem_reverse]
      show "/" ∈ start false ++ sofar.reverse
      rw [heq]
      exact List.mem_singleton.2 rfl
    exact absurd (hall "/" hmem) (by decide)
  have hparents : (start false ++ sofar.reverse).all (· = "..") = true := by
    simpa [start] using hall
  rw [parent, if_neg hroot, if_pos hparents, List.reverse_cons, List.append_assoc]

/-- Above a name is what it was entered from. -/
theorem parent_of_name {last : String} (hlast : IsName last) :
    (start absolute ++ (last :: sofar).reverse).parent = start absolute ++ sofar.reverse := by
  rw [List.reverse_cons, ← List.append_assoc]
  have hroot : start absolute ++ sofar.reverse ++ [last] ≠ ["/"] := by
    intro heq
    have hmem : last ∈ ["/"] := heq ▸ List.mem_append_right _ (List.mem_singleton.2 rfl)
    exact hlast.ne_slash (List.mem_singleton.1 hmem)
  have hparents : ¬ (start absolute ++ sofar.reverse ++ [last]).all (· = "..") = true := by
    intro hall
    have hparent := List.all_eq_true.1 hall last (List.mem_append_right _ (List.mem_singleton.2 rfl))
    exact hlast.ne_parent (by simpa using hparent)
  rw [parent, if_neg hroot, if_neg hparents, List.dropLast_concat]

theorem foldl_enter_walk (h : Straight absolute sofar) (hes : ∀ e ∈ es, IsElement e) :
    es.foldl enter (start absolute ++ sofar.reverse) =
      start absolute ++ (Text.Path.walk absolute sofar es).reverse := by
  -- along `walk`: the elements so far are the place that was reached
  fun_induction Text.Path.walk absolute sofar es with
  | case1 sofar => rw [List.foldl_nil]
  | case2 sofar rest ih =>
    rw [List.foldl_cons, enter_self]
    exact ih h (List.forall_mem_cons.1 hes).2
  | case3 rest hne ih =>
    rw [List.foldl_cons, enter_parent]
    cases absolute with
    | false =>
      rw [parent_of_parents (by simp)]
      exact ih (.parent rfl .nil (by simp)) (List.forall_mem_cons.1 hes).2
    | true => exact ih .nil (List.forall_mem_cons.1 hes).2
  | case4 rest above hne ih =>
    rw [List.foldl_cons, enter_parent]
    cases h with
    | parent habsolute habove hall =>
      subst habsolute
      have hparents : ∀ e ∈ ".." :: above, e = ".." := by simpa using hall
      rw [parent_of_parents hparents]
      exact ih (.parent rfl (.parent rfl habove hall) hparents) (List.forall_mem_cons.1 hes).2
    | name hname _ => exact absurd rfl hname.ne_parent
  | case5 rest last above hlast hne ih =>
    rw [List.foldl_cons, enter_parent]
    cases h with
    | parent _ _ _ => exact absurd rfl hlast
    | name hname habove =>
      rw [parent_of_name hname]
      exact ih habove (List.forall_mem_cons.1 hes).2
  | case6 sofar e rest hself hparent ih =>
    have he : IsName e := ⟨hes e (List.mem_cons_self ..), hself, hparent⟩
    rw [List.foldl_cons, enter_name _ he, List.append_assoc, ← List.reverse_cons]
    exact ih (.name he h) (List.forall_mem_cons.1 hes).2

theorem foldl_enter_straight (h : Straight absolute sofar) :
    sofar.reverse.foldl enter (start absolute) = start absolute ++ sofar.reverse := by
  induction h with
  | nil => rw [List.reverse_nil, List.foldl_nil, List.append_nil]
  | parent habsolute _ hall ih =>
    subst habsolute
    rw [List.reverse_cons, List.foldl_append, ih, List.foldl_cons, List.foldl_nil, enter_parent,
      parent_of_parents hall, List.reverse_cons]
  | name he _ ih =>
    rw [List.reverse_cons, List.foldl_append, ih, List.foldl_cons, List.foldl_nil, enter_name _ he,
      List.append_assoc]

/-- A path leads where the elements that are left of it do. -/
theorem ofPath_eq_straightened (path : String) :
    ofPath path = start (Text.Path.isAbsolute path) ++ Text.Path.straightened path := by
  have helements : ∀ e ∈ Text.Path.elements path, IsElement e := by
    intro e he
    exact Text.Path.isElement_of_mem_elements he
  have hwalk := foldl_enter_walk (.nil : Straight (Text.Path.isAbsolute path) []) helements
  rw [List.reverse_nil, List.append_nil] at hwalk
  rw [ofPath_eq, hwalk, Text.Path.straightened]

/-- Cleaning a path does not change where it leads. -/
@[simp] theorem ofPath_clean (path : String) : ofPath (Text.Path.clean path) = ofPath path := by
  have hstraight := foldl_enter_straight (Text.Path.straight_straightened path)
  rw [List.reverse_reverse] at hstraight
  rw [ofPath_eq, Text.Path.isAbsolute_clean, ofPath_eq_straightened, ← hstraight]
  -- a path that leads nowhere is cleaned to a point, which leads nowhere either
  rcases Text.Path.elements_clean path with helements | ⟨hnil, helements⟩
  · rw [helements]
  · rw [helements, hnil, List.foldl_cons, List.foldl_nil, List.foldl_nil, enter_self]

/-- A file with a plain name stands right below its directory. -/
theorem ofPath_join (directory : String) (h : IsName name) :
    ofPath (Text.Path.join directory name) = ofPath directory ++ [name] := by
  rw [Text.Path.join]
  by_cases hdirectory : directory = ""
  · subst hdirectory
    rw [if_pos rfl, if_neg h.ne_empty, ofPath_clean, ofPath_eq, h.elements_eq, h.isAbsolute_eq,
      List.foldl_cons, List.foldl_nil, enter_name _ h]
    rfl
  · rw [if_neg hdirectory, if_neg h.ne_empty, ofPath_clean, ofPath_eq, Text.Path.elements_append,
      h.elements_eq, String.append_assoc, Text.Path.isAbsolute_append hdirectory, List.foldl_append,
      ← ofPath_eq, List.foldl_cons, List.foldl_nil, enter_name _ h]

end Place

/-! ## What stands where -/

namespace Tree

variable {t t' : Tree} {p q place : Place} {item : Item} {path : String} {bytes old : List UInt8}

@[simp] theorem lookup_putAt (items : List (Place × Item)) :
    (putAt p item items).lookup q = if q = p then some item else items.lookup q := by
  induction items with
  | nil => exact lookup_cons_eq_ite q p item []
  | cons first rest ih =>
    obtain ⟨p', old⟩ := first
    rw [putAt, lookup_cons_eq_ite q p' old rest]
    by_cases hp : p' = p
    · subst hp
      rw [if_pos rfl, lookup_cons_eq_ite]
      split <;> rfl
    · rw [if_neg hp, lookup_cons_eq_ite, ih]
      by_cases hq : q = p
      · subst hq
        rw [if_neg (Ne.symm hp), if_pos rfl, if_pos rfl]
      · rw [if_neg hq, if_neg hq]

/-- What is put at a place stands there, and nothing else changes.  The places that always exist
    are left out. -/
theorem item?_put (hp : t.item? p ≠ some .directory) (item : Item) (q : Place) :
    (t.put p item).item? q = if q = p then some item else t.item? q := by
  have houtside : ¬ p.isOutside = true := by
    intro houtside
    exact hp (if_pos houtside)
  unfold item? put
  -- the places outside always exist, so `p` is none of them
  by_cases hq : q.isOutside = true
  · have hne : q ≠ p := by
      rintro rfl
      exact houtside hq
    rw [if_pos hq, if_neg hne, if_pos hq]
  · rw [if_neg hq, lookup_putAt]
    by_cases hqp : q = p
    · rw [if_pos hqp, if_pos hqp]
    · rw [if_neg hqp, if_neg hqp, if_neg hq]

/-! ### Following paths -/

/-- Every name but the last has to lead to a directory, and it is the place alone that says which
    one it leads to. -/
theorem follow_cons (t : Tree) (p : Place) (name : String) (rest : List String) :
    t.follow p (name :: rest) =
      match t.item? p with
      | none => .error .notFound
      | some (.file _) => .error .notDirectory
      | some .directory => t.follow (p.enter name) rest := by
  rw [follow]
  cases t.item? p with
  | none => rfl
  | some item =>
    cases item with
    | file bytes => rfl
    | directory =>
      unfold Place.enter
      simp only
      split
      · rfl
      split
      · rfl
      split
      · rfl
      · rfl

theorem follow_eq_ok {names : List String} (h : t.follow p names = .ok place) :
    place = names.foldl Place.enter p := by
  induction names generalizing p with
  | nil =>
    cases h
    rfl
  | cons name rest ih =>
    rw [follow_cons] at h
    split at h
    · cases h
    · cases h
    · exact ih h

theorem locate_eq_ok (h : t.locate path = .ok place) : place = Place.ofPath path := by
  rw [locate] at h
  split at h
  · cases h
  · exact follow_eq_ok h

/-- A tree has the directories of another. -/
def HasDirectoriesOf (t t' : Tree) : Prop :=
  ∀ p, t.item? p = some .directory → t'.item? p = some .directory

theorem HasDirectoriesOf.follow (h : t.HasDirectoriesOf t') {names : List String}
    (hfollow : t.follow p names = .ok place) : t'.follow p names = .ok place := by
  induction names generalizing p with
  | nil => exact hfollow
  | cons name rest ih =>
    rw [follow_cons] at hfollow ⊢
    split at hfollow
    · cases hfollow
    · cases hfollow
    · rename_i hitem
      rw [h p hitem]
      exact ih hfollow

/-- A path that leads somewhere still does so with more directories. -/
theorem HasDirectoriesOf.locate (h : t.HasDirectoriesOf t') (hlocate : t.locate path = .ok place) :
    t'.locate path = .ok place := by
  rw [Tree.locate] at hlocate ⊢
  split at hlocate
  · cases hlocate
  · rename_i hpath
    rw [if_neg hpath]
    exact h.follow hlocate

/-- A path still leads where it did if a directory or a file is put at a place that is no
    directory. -/
theorem hasDirectoriesOf_put (hp : t.item? p ≠ some .directory) (item : Item) :
    t.HasDirectoriesOf (t.put p item) := by
  intro q hq
  have hne : q ≠ p := by
    rintro rfl
    exact hp hq
  rw [item?_put hp, if_neg hne]
  exact hq

/-! ### Files -/

/-- A file that was made is empty and stands where its path leads. -/
theorem create_eq_ok (h : t.create path = .ok t') :
    t'.locate path = .ok (Place.ofPath path) ∧ t.HasDirectoriesOf t' ∧
      ∀ q, t'.item? q = if q = Place.ofPath path then some (.file []) else t.item? q := by
  rw [create] at h
  split at h
  · cases h
  · rename_i place hlocate
    have hplace := locate_eq_ok hlocate
    subst hplace
    split at h
    · cases h
    · rename_i hitem
      cases h
      have hdirectories := hasDirectoriesOf_put hitem (.file [])
      exact ⟨hdirectories.locate hlocate, hdirectories, item?_put hitem _⟩

/-- Bytes are added to the file that stands where the path leads. -/
theorem item?_append (hlocate : t.locate path = .ok place) (hitem : t.item? place = some (.file old))
    (bytes : List UInt8) :
    t.HasDirectoriesOf (t.append path bytes) ∧
      ∀ q, (t.append path bytes).item? q =
        if q = place then some (.file (old ++ bytes)) else t.item? q := by
  have hplace : t.item? place ≠ some .directory := by
    rw [hitem]
    intro heq
    cases heq
  have happend : t.append path bytes = t.put place (.file (old ++ bytes)) := by
    rw [append, hlocate]
    simp only [hitem]
  rw [happend]
  exact ⟨hasDirectoriesOf_put hplace _, item?_put hplace _⟩

theorem read_eq_ok (hlocate : t.locate path = .ok place)
    (hitem : t.item? place = some (.file bytes)) : t.read path = .ok bytes := by
  rw [read, find, hlocate]
  simp only [hitem]
  rfl

/-! ### Directories -/

/-- Directories may have been added; the files are the same. -/
structure SameFiles (t t' : Tree) : Prop where
  directories : t.HasDirectoriesOf t'
  files : ∀ p bytes, t'.item? p = some (.file bytes) ↔ t.item? p = some (.file bytes)

theorem SameFiles.refl (t : Tree) : t.SameFiles t :=
  ⟨fun _ h => h, fun _ _ => Iff.rfl⟩

theorem SameFiles.trans {t'' : Tree} (h : t.SameFiles t') (h' : t'.SameFiles t'') :
    t.SameFiles t'' :=
  ⟨fun p hp => h'.directories p (h.directories p hp),
    fun p bytes => (h'.files p bytes).trans (h.files p bytes)⟩

theorem makeDirectory_sameFiles (h : t.makeDirectory path = .ok t') : t.SameFiles t' := by
  rw [makeDirectory] at h
  split at h
  · cases h
  · rename_i place hlocate
    split at h
    · cases h
    · rename_i hitem
      cases h
      have hplace : t.item? place ≠ some .directory := by
        rw [hitem]
        intro heq
        cases heq
      refine ⟨hasDirectoriesOf_put hplace _, ?_⟩
      intro q bytes
      rw [item?_put hplace]
      by_cases hq : q = place
      · -- nothing stood there before, and a directory is no file
        rw [if_pos hq, hq, hitem]
        constructor
        · intro heq
          cases heq
        · intro heq
          cases heq
      · rw [if_neg hq]

theorem ensureDirectory_sameFiles (h : t.ensureDirectory path = .ok t') : t.SameFiles t' := by
  rw [ensureDirectory] at h
  split at h
  · cases h
    exact .refl t
  · cases h
  · exact makeDirectory_sameFiles h

/-- Making directories does not touch files. -/
theorem makeDirectories_sameFiles (h : t.makeDirectories path = .ok t') : t.SameFiles t' := by
  refine foldlM_preserves (P := t.SameFiles) ?_ (.refl t) h
  intro t₁ path' t₂ hsame hstep
  exact hsame.trans (ensureDirectory_sameFiles hstep)

end Tree

end StackIr.Files
