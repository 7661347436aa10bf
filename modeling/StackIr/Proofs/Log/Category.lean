import StackIr.Log.Category
import StackIr.Proofs.Files.Tree
import StackIr.Proofs.Log.Family
import StackIr.Proofs.Text.Cut

/-! # What category files hold

    Loggers that were derived from one another share the category files: which of them are open,
    and the tree they are in.  Opening a file empties it, so it must not be opened twice; that a
    file is open is known from its category, and this is kept along with what each file holds
    (`Keeps`).  Opening a file and adding a line to it preserve this, and so does any sequence of
    entries, whoever writes them.

    The file of a category stands right below the directory, as a category has no slash and no
    point. -/

namespace StackIr.Log

open Files (Place Tree)

/-! ## Categories -/

section category

variable {logger c : String}

/-- What stands after the first point of a name. -/
def AfterPoint (logger rest : String) : Prop :=
  (∃ first, '.' ∉ first.toList ∧ logger = first ++ "." ++ rest) ∨
    ('.' ∉ logger.toList ∧ rest = "")

/-- A name is cut at its first point. -/
theorem cut_point (logger : String) :
    '.' ∉ (Text.cut "." logger).1.toList ∧ AfterPoint logger (Text.cut "." logger).2 := by
  have hpoint : ".".toList = ['.'] := rfl
  rw [Text.cut]
  cases hcut : Text.cut? "." logger with
  | none =>
    have habsent := (Text.cut?_eq_none_iff hpoint).1 hcut
    exact ⟨habsent, .inr ⟨habsent, rfl⟩⟩
  | some sides =>
    obtain ⟨hlogger, hfirst⟩ := (Text.cut?_eq_some_iff hpoint).1 hcut
    exact ⟨hfirst, .inl ⟨sides.1, hfirst, hlogger⟩⟩

theorem category_eq (logger : String) :
    category logger =
      (String.ofList ((Text.trim (Text.cut "." logger).1).toList.map
        fun c => if c = '/' then '_' else c), (Text.cut "." logger).2) := by
  rw [category]

theorem afterPoint_category (logger : String) : AfterPoint logger (category logger).2 := by
  rw [category_eq]
  exact (cut_point logger).2

theorem mem_of_mem_trim {s : String} {c : Char} (h : c ∈ (Text.trim s).toList) : c ∈ s.toList := by
  rw [Text.trim, String.toList_ofList, Text.trimChars, List.mem_reverse] at h
  -- blanks are dropped from both ends, so what is left is a part of the name
  have hback := (List.dropWhile_suffix _).subset h
  exact (List.dropWhile_suffix _).subset (List.mem_reverse.1 hback)

/-- A category has neither a slash nor a point. -/
theorem not_mem_category (logger : String) :
    '/' ∉ (category logger).1.toList ∧ '.' ∉ (category logger).1.toList := by
  rw [category_eq]
  simp only [String.toList_ofList, List.mem_map, not_exists, not_and]
  constructor
  · -- a slash becomes another character, and no other character becomes a slash
    intro c _
    by_cases hc : c = '/'
    · rw [if_pos hc]
      decide
    · rw [if_neg hc]
      exact hc
  · intro c hmem
    by_cases hc : c = '/'
    · rw [if_pos hc]
      decide
    · rw [if_neg hc]
      rintro rfl
      exact (cut_point logger).1 (mem_of_mem_trim hmem)

/-- A category without a slash makes the name of a file. -/
theorem isName_file (h : '/' ∉ c.toList) : Text.Path.IsName (c ++ ".log") := by
  -- it is longer than the other texts in question
  have hne : ∀ s : String, s.length < 4 → c ++ ".log" ≠ s := by
    intro s hs heq
    have hlength : s.length = c.length + 4 := by
      rw [← heq, String.length_append]
      rfl
    omega
  refine ⟨⟨hne "" (by decide), ?_⟩, hne "." (by decide), hne ".." (by decide)⟩
  rw [String.toList_append, List.mem_append]
  rintro (hslash | hslash)
  · exact h hslash
  · exact absurd hslash (by decide)

end category

namespace CategoryFiles

variable {c c' : CategoryFiles} {old files files' : Tree} {content : String → List UInt8}
  {x directory : String}

/-! ## Places -/

/-- Where the file of a category stands: right below the directory. -/
def place (directory x : String) : Place :=
  Place.ofPath directory ++ [x ++ ".log"]

theorem ofPath_path (hx : '/' ∉ x.toList) : Place.ofPath (c.path x) = place c.directory x :=
  Place.ofPath_join c.directory (isName_file hx)

/-- No two categories share a file. -/
theorem place_injective (directory : String) : Function.Injective (place directory) := by
  intro x y heq
  -- the places differ in the last part only, and there before the common ending
  have hlast := List.append_cancel_left heq
  have hchars := congrArg String.toList (List.singleton_inj.1 hlast)
  rw [String.toList_append, String.toList_append] at hchars
  exact String.toList_inj.1 (List.append_cancel_right hchars)

/-! ## What is kept -/

/-- The open files have their contents and are found by their paths, and all other files are the
    old ones. -/
structure Keeps (c : CategoryFiles) (old files : Tree) (content : String → List UInt8) : Prop where
  located : ∀ x ∈ c.opened, files.locate (c.path x) = .ok (place c.directory x)
  holds : ∀ x ∈ c.opened, files.item? (place c.directory x) = some (.file (content x))
  others : ∀ p, (∀ x ∈ c.opened, p ≠ place c.directory x) →
    ∀ bytes, files.item? p = some (.file bytes) ↔ old.item? p = some (.file bytes)

theorem keeps_none (directory : String) (old : Tree) (content : String → List UInt8) :
    Keeps { directory := directory } old old content := by
  refine ⟨?_, ?_, ?_⟩
  · intro x hx
    cases hx
  · intro x hx
    cases hx
  · intro p _ bytes
    exact Iff.rfl

/-- More directories change nothing. -/
theorem Keeps.sameFiles (h : Keeps c old files content) (hsame : files.SameFiles files') :
    Keeps c old files' content := by
  refine ⟨?_, ?_, ?_⟩
  · intro x hx
    exact hsame.directories.locate (h.located x hx)
  · intro x hx
    exact (hsame.files _ _).2 (h.holds x hx)
  · intro p hp bytes
    exact (hsame.files p bytes).trans (h.others p hp bytes)

/-- A file that was not open is made empty, and the others are left alone. -/
theorem Keeps.create (h : Keeps c old files content) (hx : '/' ∉ x.toList) (hnew : x ∉ c.opened)
    (hempty : content x = []) (hcreate : files.create (c.path x) = .ok files') :
    Keeps { c with opened := x :: c.opened } old files' content := by
  obtain ⟨hlocate, hdirectories, hitem⟩ := Files.Tree.create_eq_ok hcreate
  rw [ofPath_path hx] at hlocate hitem
  -- another category has another place
  have hne : ∀ y ∈ c.opened, place c.directory y ≠ place c.directory x := by
    intro y hy heq
    exact hnew (place_injective _ heq ▸ hy)
  refine ⟨?_, ?_, ?_⟩
  · intro y hy
    rcases List.mem_cons.1 hy with rfl | hy
    · exact hlocate
    · exact hdirectories.locate (h.located y hy)
  · intro y hy
    rw [hitem]
    rcases List.mem_cons.1 hy with rfl | hy
    · rw [if_pos rfl, hempty]
    · rw [if_neg (hne y hy)]
      exact h.holds y hy
  · intro p hp bytes
    obtain ⟨hpx, hprest⟩ := List.forall_mem_cons.1 hp
    rw [hitem, if_neg hpx]
    exact h.others p hprest bytes

/-- Opening the file of a category leaves what is kept, and it is open then. -/
theorem Keeps.openFile (h : Keeps c old files content) (hx : '/' ∉ x.toList)
    (hempty : x ∉ c.opened → content x = []) (hopen : c.openFile files x = .ok (c', files')) :
    Keeps c' old files' content ∧ c'.directory = c.directory ∧
      ∀ y, y ∈ c'.opened ↔ y = x ∨ y ∈ c.opened := by
  rw [CategoryFiles.openFile] at hopen
  split at hopen
  · rename_i hmem
    cases hopen
    refine ⟨h, rfl, ?_⟩
    intro y
    constructor
    · exact .inr
    · rintro (rfl | hy)
      · exact List.contains_iff_mem.1 hmem
      · exact hy
  · rename_i hnew
    have hnew : x ∉ c.opened := mt List.contains_iff_mem.2 hnew
    obtain ⟨made, hmade, hrest⟩ := bind_eq_ok_iff.1 hopen
    obtain ⟨created, hcreated, hresult⟩ := bind_eq_ok_iff.1 hrest
    cases hresult
    refine ⟨?_, rfl, fun y => List.mem_cons⟩
    exact (h.sameFiles (Files.Tree.makeDirectories_sameFiles hmade)).create hx hnew (hempty hnew)
      hcreated

/-- Bytes go to the file of their category and nowhere else. -/
theorem Keeps.append (h : Keeps c old files content) (hx : x ∈ c.opened) (bytes : List UInt8) :
    Keeps c old (files.append (c.path x) bytes)
      fun y => if y = x then content y ++ bytes else content y := by
  obtain ⟨hdirectories, hitem⟩ := Files.Tree.item?_append (h.located x hx) (h.holds x hx) bytes
  refine ⟨?_, ?_, ?_⟩
  · intro y hy
    exact hdirectories.locate (h.located y hy)
  · intro y hy
    rw [hitem]
    by_cases hyx : y = x
    · subst hyx
      rw [if_pos rfl, if_pos rfl]
    · rw [if_neg (fun heq => hyx (place_injective _ heq)), if_neg hyx]
      exact h.holds y hy
  · intro p hp other
    rw [hitem, if_neg (hp x hx)]
    exact h.others p hp other

/-! ## Entries -/

/-- An entry as it stands in the file of its category. -/
def encoded (encode : Encoder) (e : Entry) : List UInt8 :=
  encode { e with logger := (category e.logger).2 }

/-- The categories of entries that have one. -/
def categories (entries : List Entry) : List String :=
  (entries.map fun e => (category e.logger).1).filter (· ≠ "")

/-- The entries of a category, one after the other. -/
def contentOf (encode : Encoder) (entries : List Entry) (x : String) : List UInt8 :=
  (entries.filter fun e => (category e.logger).1 = x).flatMap (encoded encode)

variable {encode : Encoder} {entries : List Entry} {e : Entry}

theorem contentOf_append (encode : Encoder) (entries : List Entry) (e : Entry) (x : String) :
    contentOf encode (entries ++ [e]) x =
      if x = (category e.logger).1 then contentOf encode entries x ++ encoded encode e
      else contentOf encode entries x := by
  unfold contentOf
  rw [List.filter_append, List.flatMap_append]
  by_cases hx : x = (category e.logger).1
  · simp [hx]
  · simp [hx, Ne.symm hx]

theorem mem_categories_append :
    x ∈ categories (entries ++ [e]) ↔
      x ∈ categories entries ∨ (x = (category e.logger).1 ∧ x ≠ "") := by
  simp only [categories, List.map_append, List.filter_append, List.mem_append, List.map_cons,
    List.map_nil, List.mem_filter, List.mem_singleton, decide_eq_true_eq]

/-- A category that no entry has is empty. -/
theorem contentOf_eq_nil (hx : x ≠ "") (h : x ∉ categories entries) :
    contentOf encode entries x = [] := by
  have hfilter : entries.filter (fun e => (category e.logger).1 = x) = [] := by
    rw [List.filter_eq_nil_iff]
    intro e he hcategory
    apply h
    rw [categories, List.mem_filter]
    exact ⟨List.mem_map.2 ⟨e, he, by simpa using hcategory⟩, by simpa using hx⟩
  rw [contentOf, hfilter, List.flatMap_nil]

/-- What is kept after some entries: their categories are open, and each has its entries. -/
structure KeepsEntries (encode : Encoder) (directory : String) (old : Tree)
    (entries : List Entry) (s : CategoryFiles × Tree) : Prop where
  directory : s.1.directory = directory
  opened : ∀ x, x ∈ s.1.opened ↔ x ∈ categories entries
  keeps : Keeps s.1 old s.2 (contentOf encode entries)

theorem keepsEntries_nil (encode : Encoder) (directory : String) (old : Tree) :
    KeepsEntries encode directory old [] ({ directory := directory }, old) :=
  ⟨rfl, fun _ => Iff.rfl, keeps_none directory old _⟩

/-- An entry without a category is dropped; otherwise its file is opened and it is added there. -/
theorem write_eq_ok {s : CategoryFiles × Tree} (h : c.write encode files e = .ok s) :
    ((category e.logger).1 = "" ∧ s = (c, files)) ∨
      ((category e.logger).1 ≠ "" ∧ ∃ c' files',
        c.openFile files (category e.logger).1 = .ok (c', files') ∧
          s = (c', files'.append (c'.path (category e.logger).1) (encoded encode e))) := by
  rw [CategoryFiles.write] at h
  simp only at h
  by_cases hx : (category e.logger).1 = ""
  · rw [if_pos hx] at h
    cases h
    exact .inl ⟨hx, rfl⟩
  · rw [if_neg hx] at h
    obtain ⟨⟨c', files'⟩, hopen, hresult⟩ := bind_eq_ok_iff.1 h
    refine .inr ⟨hx, c', files', hopen, ?_⟩
    -- storing the file changes nothing in the tree
    by_cases hlevel : e.level ≤ .error
    · rw [if_pos hlevel] at hresult
      exact (Except.ok.inj hresult).symm
    · rw [if_neg hlevel] at hresult
      exact (Except.ok.inj hresult).symm

/-- One more entry is added to the file of its category, or dropped if it has none. -/
theorem KeepsEntries.write {s s' : CategoryFiles × Tree}
    (h : KeepsEntries encode directory old entries s) (hwrite : s.1.write encode s.2 e = .ok s') :
    KeepsEntries encode directory old (entries ++ [e]) s' := by
  have hcontent : contentOf encode (entries ++ [e]) = fun x =>
      if x = (category e.logger).1 then contentOf encode entries x ++ encoded encode e
      else contentOf encode entries x := by
    funext x
    exact contentOf_append encode entries e x
  -- an entry without a category is dropped
  rcases write_eq_ok hwrite with ⟨hempty, rfl⟩ | ⟨hne, c', files', hopen, rfl⟩
  · -- no open file is that of the empty category
    have hopened : ∀ x ∈ s.1.opened, x ≠ "" := by
      intro x hx
      exact of_decide_eq_true (List.mem_filter.1 ((h.opened x).1 hx)).2
    refine ⟨h.directory, ?_, h.keeps.located, ?_, h.keeps.others⟩
    · intro x
      rw [h.opened, mem_categories_append, hempty]
      constructor
      · exact .inl
      · rintro (hx | ⟨hx, hx'⟩)
        · exact hx
        · exact absurd hx hx'
    · intro x hx
      rw [hcontent, hempty]
      simp only [if_neg (hopened x hx)]
      exact h.keeps.holds x hx
  · have hslash := (not_mem_category e.logger).1
    have hnew : (category e.logger).1 ∉ s.1.opened →
        contentOf encode entries (category e.logger).1 = [] := by
      intro hnot
      exact contentOf_eq_nil hne (mt (h.opened _).2 hnot)
    -- the file is open now, if it was not before, and then it is empty
    obtain ⟨hkeeps, hdirectory, hopened⟩ := h.keeps.openFile hslash hnew hopen
    refine ⟨hdirectory.trans h.directory, ?_, ?_⟩
    · intro x
      rw [hopened, h.opened, mem_categories_append, or_comm]
      constructor
      · rintro (hx | rfl)
        · exact .inl hx
        · exact .inr ⟨rfl, hne⟩
      · rintro (hx | ⟨hx, -⟩)
        · exact .inl hx
        · exact .inr hx
    · rw [hcontent]
      exact hkeeps.append ((hopened _).2 (.inl rfl)) (encoded encode e)

/-! ## Loggers that share the files -/

/-- A logger is derived with fields of its own, or an entry is written through one. -/
abbrev Step : Type :=
  Family.Step (List Field) Entry

/-- An entry of a logger carries the fields of the logger before its own. -/
def inContext (context : List Field) (e : Entry) : Entry :=
  { e with fields := context ++ e.fields }

/-- Writes an entry of a logger with some fields. -/
def writeIn (encode : Encoder) (context : List Field) (s : CategoryFiles × Tree) (e : Entry) :
    Except Files.Fault (CategoryFiles × Tree) :=
  s.1.write encode s.2 (inContext context e)

/-- The entries that were written, each with the fields of its logger.  The first logger has
    none. -/
def written (steps : List Step) : List Entry :=
  (Family.requests [[]] steps).map fun (context, e) => inContext context e

/-- Any entries of any loggers leave their categories open, and each with its entries. -/
theorem keepsEntries_run {steps : List Step} {f : Family (CategoryFiles × Tree) (List Field)}
    (h : Family.run (writeIn encode) ⟨({ directory := directory }, old), [[]]⟩ steps = .ok f) :
    KeepsEntries encode directory old (written steps) f.shared := by
  -- the files depend on the requests alone, so it is enough to follow those
  have hshared := Family.map_shared_run (writeIn encode)
    ⟨({ directory := directory }, old), [[]]⟩ steps
  rw [h] at hshared
  let P (done : List (List Field × Entry)) : CategoryFiles × Tree → Prop :=
    KeepsEntries encode directory old (done.map fun (context, e) => inContext context e)
  have hstart : P [] ({ directory := directory }, old) :=
    keepsEntries_nil encode directory old
  refine foldlM_extends (P := P) ?_ hstart hshared.symm
  intro done s request s' hdone hwrite
  show KeepsEntries _ _ _ _ _
  rw [List.map_append]
  exact hdone.write hwrite

/-- The category files of some entries are all that differs between the files of two trees.  There
    is one for each category, and it holds the entries of the category in order. -/
structure Separates (encode : Encoder) (directory : String) (old new : Tree)
    (entries : List Entry) : Prop where
  files : ∀ p bytes, new.item? p = some (.file bytes) ↔
    (∃ x ∈ categories entries, p = place directory x ∧ bytes = contentOf encode entries x) ∨
      ((∀ x ∈ categories entries, p ≠ place directory x) ∧ old.item? p = some (.file bytes))
  read : ∀ x ∈ categories entries,
    new.read (Text.Path.join directory (x ++ ".log")) = .ok (contentOf encode entries x)

theorem KeepsEntries.separates {s : CategoryFiles × Tree}
    (h : KeepsEntries encode directory old entries s) :
    Separates encode directory old s.2 entries := by
  obtain ⟨⟨d, opened⟩, files⟩ := s
  obtain rfl : d = directory := h.directory
  have hholds : ∀ x ∈ categories entries,
      files.item? (place d x) = some (.file (contentOf encode entries x)) := by
    intro x hx
    exact h.keeps.holds x ((h.opened x).2 hx)
  refine ⟨?_, ?_⟩
  · intro p bytes
    by_cases hp : ∃ x ∈ categories entries, p = place d x
    · obtain ⟨x, hx, rfl⟩ := hp
      rw [hholds x hx]
      constructor
      · intro heq
        cases heq
        exact .inl ⟨x, hx, rfl, rfl⟩
      · rintro (⟨y, -, hplace, rfl⟩ | ⟨hother, -⟩)
        · rw [place_injective d hplace]
        · exact absurd rfl (hother x hx)
    · have hother : ∀ x ∈ categories entries, p ≠ place d x := by
        intro x hx heq
        exact hp ⟨x, hx, heq⟩
      rw [h.keeps.others p fun x hx => hother x ((h.opened x).1 hx)]
      constructor
      · intro hold
        exact .inr ⟨hother, hold⟩
      · rintro (⟨x, hx, heq, -⟩ | ⟨-, hold⟩)
        · exact absurd heq (hother x hx)
        · exact hold
  · intro x hx
    exact Files.Tree.read_eq_ok (h.keeps.located x ((h.opened x).2 hx)) (hholds x hx)

/-- Entries that were written without a fault, by any loggers that share the files and in whatever
    form, are all in the files of their categories, each once and in order; those without a category
    are dropped, and all other files are as before.  Whatever the name of a logger, the category has
    neither a slash nor a point, its file is found right below the directory and is no other
    category's, and what is left of the name is what follows the first point. -/
theorem separates_of_run {steps : List Step} {f : Family (CategoryFiles × Tree) (List Field)}
    (h : Family.run (writeIn encode) ⟨({ directory := directory }, old), [[]]⟩ steps = .ok f) :
    Separates encode directory old f.shared.2 (written steps) ∧
      Function.Injective (place directory) ∧
      ∀ logger, '/' ∉ (category logger).1.toList ∧ '.' ∉ (category logger).1.toList ∧
        Place.ofPath (Text.Path.join directory ((category logger).1 ++ ".log")) =
          place directory (category logger).1 ∧
        AfterPoint logger (category logger).2 := by
  refine ⟨(keepsEntries_run h).separates, place_injective directory, ?_⟩
  intro logger
  obtain ⟨hslash, hpoint⟩ := not_mem_category logger
  exact ⟨hslash, hpoint, Place.ofPath_join directory (isName_file hslash), afterPoint_category logger⟩

/-- Two loggers that share the files, and entries of two categories in turn: one of them has a
    slash, and its file was there before.  One entry has no category. -/
theorem separates_of_run_interleaved :
    let entry (logger message : String) : Entry := ⟨⟨0⟩, .info, logger, message, []⟩
    let steps : List Step :=
      [.use 0 (entry "ir.outputs" "one"), .derive 0 (· ++ [.text "k" "v"]),
        .use 1 (entry "a/b" "two"), .use 0 (entry ".x" "none"), .use 1 (entry " ir " "three")]
    let old : Tree := ⟨[(["logs"], .directory), (["logs", "a_b.log"], .file [0x21])]⟩
    ∃ f, Family.run (writeIn .dated) ⟨({ directory := "logs/new/.." }, old), [[]]⟩ steps =
        .ok f ∧
      categories (written steps) = ["ir", "a_b", "ir"] ∧
      f.shared.2.read "logs/ir.log" = .ok (Text.Utf8.encode
        ("1970-01-01T00:00:00.000Z\tINFO\toutputs\tone\n" ++
          "1970-01-01T00:00:00.000Z\tINFO\tthree\t\x7b\"k\": \"v\"\x7d\n")) ∧
      f.shared.2.read "logs/a_b.log" = .ok (Text.Utf8.encode
        "1970-01-01T00:00:00.000Z\tINFO\ttwo\t\x7b\"k\": \"v\"\x7d\n") := by
  intro entry steps old
  have hok : (Family.run (writeIn .dated) ⟨({ directory := "logs/new/.." }, old), [[]]⟩
      steps).isOk = true := by decide +kernel
  have hcategories : categories (written steps) = ["ir", "a_b", "ir"] := by decide +kernel
  have hir : contentOf .dated (written steps) "ir" = Text.Utf8.encode
      ("1970-01-01T00:00:00.000Z\tINFO\toutputs\tone\n" ++
        "1970-01-01T00:00:00.000Z\tINFO\tthree\t\x7b\"k\": \"v\"\x7d\n") := by decide +kernel
  have hab : contentOf .dated (written steps) "a_b" = Text.Utf8.encode
      "1970-01-01T00:00:00.000Z\tINFO\ttwo\t\x7b\"k\": \"v\"\x7d\n" := by decide +kernel
  have hirPath : Text.Path.join "logs/new/.." ("ir" ++ ".log") = "logs/ir.log" := by decide +kernel
  have habPath : Text.Path.join "logs/new/.." ("a_b" ++ ".log") = "logs/a_b.log" := by
    decide +kernel
  clear_value steps old
  cases hrun : Family.run (writeIn .dated) ⟨({ directory := "logs/new/.." }, old), [[]]⟩ steps with
  | error fault =>
    rw [hrun] at hok
    cases hok
  | ok f =>
    obtain ⟨⟨-, hread⟩, -, -⟩ := separates_of_run hrun
    rw [hcategories] at hread
    refine ⟨f, rfl, hcategories, ?_, ?_⟩
    · rw [← hir, ← hirPath]
      exact hread "ir" (by decide)
    · rw [← hab, ← habPath]
      exact hread "a_b" (by decide)

end CategoryFiles

end StackIr.Log
