import Mathlib.Data.List.Pairwise
import Mathlib.Data.List.Sort
import StackIr.Proofs.Failure
import StackIr.Proofs.Text.Cut
import StackIr.Proofs.Text.Utf8
import StackIr.Ir.TypeName

/-! # Imports

    The imports that resource types need are collected one by one, each put into its place.  The
    result is strictly increasing, so it has no import twice, and it has those of the types and
    no others.  It therefore depends only on which types there are.

    What a type names is said with the leftmost separators in it (`TypeName.Names`), and a type
    is invalid if it does not name both an organization and a service. -/

namespace StackIr.Ir

/-! ## What a type names -/

namespace TypeName

variable {type organization service : String}

/-- The organization that a type names stands before its leftmost separator.  The service stands
    before the leftmost separator of what follows, or is all that follows. -/
def Names (type organization service : String) : Prop :=
  ∃ rest, Text.Leftmost separator type organization rest ∧
    ((∃ kind, Text.Leftmost separator rest service kind) ∨
      (service = rest ∧ ¬ ∃ before after, rest = before ++ separator ++ after))

/-- A type that names an organization and a service. -/
def Valid (type : String) : Prop :=
  ∃ organization service, Names type organization service ∧ organization ≠ "" ∧ service ≠ ""

/-- The part of a text before its leftmost separator, or all of it. -/
theorem cut_fst_eq_iff {rest : String} :
    (Text.cut separator rest).1 = service ↔
      (∃ kind, Text.Leftmost separator rest service kind) ∨
        (service = rest ∧ ¬ ∃ before after, rest = before ++ separator ++ after) := by
  simp only [← Text.cut?_eq_some_iff_leftmost, ← Text.cut?_eq_none_iff_absent, Text.cut]
  cases Text.cut? separator rest with
  | none => simp [eq_comm]
  | some sides => simp [Prod.ext_iff]

theorem names_iff :
    Names type organization service ↔
      ∃ rest, Text.cut? separator type = some (organization, rest) ∧
        (Text.cut separator rest).1 = service := by
  simp only [Names, Text.cut?_eq_some_iff_leftmost, cut_fst_eq_iff]

/-- A type names one organization and one service at most. -/
theorem Names.unique {organization' service' : String} (h : Names type organization service)
    (h' : Names type organization' service') : organization = organization' ∧ service = service' := by
  obtain ⟨rest, hrest, hservice⟩ := names_iff.1 h
  obtain ⟨rest', hrest', hservice'⟩ := names_iff.1 h'
  rw [hrest] at hrest'
  cases hrest'
  exact ⟨rfl, hservice.symm.trans hservice'⟩

/-- Reading a type cuts it at its leftmost separator, and what follows it at the next. -/
theorem parse?_eq_some_iff {t : TypeName} :
    parse? type = some t ↔ ∃ rest, Text.Leftmost separator type t.organization rest ∧
      Text.cut separator rest = (t.service, t.kind) ∧ t.organization ≠ "" ∧ t.service ≠ "" := by
  simp only [← Text.cut?_eq_some_iff_leftmost]
  cases hcut : Text.cut? separator type with
  | none => simp [parse?, hcut]
  | some sides =>
    obtain ⟨organization, rest⟩ := sides
    cases hrest : Text.cut separator rest with
    | mk service kind =>
      simp only [parse?, hcut, hrest, Option.bind_eq_bind, Option.bind_some, Bool.or_eq_true,
        decide_eq_true_eq, Option.ite_none_left_eq_some, not_or, Option.some.injEq]
      constructor
      · rintro ⟨⟨ho, hs⟩, rfl⟩
        exact ⟨rest, rfl, hrest, ho, hs⟩
      · rintro ⟨rest', heq, hparts, ho, hs⟩
        cases heq
        rw [hrest] at hparts
        obtain ⟨rfl, rfl⟩ := Prod.mk.inj hparts
        exact ⟨⟨ho, hs⟩, rfl⟩

/-- Parsing gives what a type names, unless a part is empty. -/
theorem exists_parse?_iff :
    (∃ t, parse? type = some t ∧ t.organization = organization ∧ t.service = service) ↔
      Names type organization service ∧ organization ≠ "" ∧ service ≠ "" := by
  simp only [parse?_eq_some_iff, Names, ← cut_fst_eq_iff]
  constructor
  · rintro ⟨t, ⟨rest, htype, hrest, ho, hs⟩, rfl, rfl⟩
    exact ⟨⟨rest, htype, congrArg Prod.fst hrest⟩, ho, hs⟩
  · rintro ⟨⟨rest, htype, rfl⟩, ho, hs⟩
    -- the kind is what the second cut leaves
    exact ⟨⟨organization, _, (Text.cut separator rest).2⟩, ⟨rest, htype, rfl, ho, hs⟩, rfl, rfl⟩

theorem isSome_parse?_iff : (parse? type).isSome = true ↔ Valid type := by
  rw [Option.isSome_iff_exists]
  constructor
  · rintro ⟨t, ht⟩
    exact ⟨t.organization, t.service, exists_parse?_iff.1 ⟨t, ht, rfl, rfl⟩⟩
  · rintro ⟨organization, service, h⟩
    obtain ⟨t, ht, -⟩ := exists_parse?_iff.2 h
    exact ⟨t, ht⟩

instance (type : String) : Decidable (Valid type) :=
  decidable_of_iff ((parse? type).isSome = true) isSome_parse?_iff

end TypeName

namespace Import

variable {i j k : Import}

/-! ## The order of imports -/

/-- One import stands before another: by organization, and within one by service. -/
def Precedes (i j : Import) : Prop :=
  i.organization < j.organization ∨ (i.organization = j.organization ∧ i.service < j.service)

@[simp] theorem before_iff : i.before j = true ↔ i.Precedes j := by
  unfold before Precedes
  split
  · rename_i hne
    simp [hne]
  · rename_i heq
    have heq' : i.organization = j.organization := by simpa using heq
    simp [heq']

theorem Precedes.trans (hij : i.Precedes j) (hjk : j.Precedes k) : i.Precedes k := by
  rcases hij with hij | ⟨hij, hij'⟩
  · rcases hjk with hjk | ⟨hjk, -⟩
    · exact .inl (String.lt_trans hij hjk)
    · exact .inl (hjk ▸ hij)
  · rcases hjk with hjk | ⟨hjk, hjk'⟩
    · exact .inl (hij ▸ hjk)
    · exact .inr ⟨hij.trans hjk, String.lt_trans hij' hjk'⟩

/-- Of two imports that differ one stands before the other. -/
theorem precedes_of_not_precedes (hne : i ≠ j) (h : ¬ i.Precedes j) : j.Precedes i := by
  obtain ⟨horganization, hservice⟩ := not_or.1 h
  have hle : j.organization ≤ i.organization := String.not_lt.1 horganization
  by_cases heq : i.organization = j.organization
  · have hle' : j.service ≤ i.service := String.not_lt.1 fun hlt => hservice ⟨heq, hlt⟩
    refine .inr ⟨heq.symm, ?_⟩
    by_contra hnot
    have hsame : i.service = j.service := String.le_antisymm (String.not_lt.1 hnot) hle'
    exact hne (congrArg₂ Import.mk heq hsame)
  · refine .inl ?_
    by_contra hnot
    exact heq (String.le_antisymm (String.not_lt.1 hnot) hle)

/-- Imports in strictly increasing order. -/
def Increasing (imports : List Import) : Prop :=
  imports.Pairwise Precedes

/-! ## One import more -/

@[simp] theorem mem_insert {imports : List Import} :
    j ∈ insert i imports ↔ j = i ∨ j ∈ imports := by
  induction imports with
  | nil => simp [insert]
  | cons k rest ih =>
    unfold insert
    split
    · rename_i heq
      simp [heq]
    split
    · simp
    · rw [List.mem_cons, ih, List.mem_cons]
      exact or_left_comm

theorem Increasing.insert {imports : List Import} (h : Increasing imports) :
    Increasing (insert i imports) := by
  induction imports with
  | nil => exact List.pairwise_singleton _ _
  | cons k rest ih =>
    obtain ⟨hfirst, hrest⟩ := List.pairwise_cons.1 h
    unfold Import.insert
    split
    · exact h
    rename_i hne
    split
    · rename_i hbefore
      have hik : i.Precedes k := before_iff.1 hbefore
      refine List.pairwise_cons.2 ⟨?_, h⟩
      intro j hj
      rcases List.mem_cons.1 hj with rfl | hj
      · exact hik
      · exact hik.trans (hfirst j hj)
    · rename_i hbefore
      refine List.pairwise_cons.2 ⟨?_, ih hrest⟩
      intro j hj
      rcases mem_insert.1 hj with rfl | hj
      · exact precedes_of_not_precedes hne (mt before_iff.2 hbefore)
      · exact hfirst j hj

/-! ## All imports -/

theorem foldl_insert (types : List TypeName) {imports : List Import} (h : Increasing imports) :
    Increasing (types.foldl (fun imports t => Import.insert t.toImport imports) imports) ∧
      ∀ j, j ∈ types.foldl (fun imports t => Import.insert t.toImport imports) imports ↔
        j ∈ imports ∨ ∃ t ∈ types, j = t.toImport := by
  induction types generalizing imports with
  | nil => simpa using h
  | cons t rest ih =>
    rw [List.foldl_cons]
    obtain ⟨hincreasing, hmem⟩ := ih (h.insert (i := t.toImport))
    refine ⟨hincreasing, ?_⟩
    intro j
    rw [hmem, mem_insert, List.exists_mem_cons_iff, or_comm (a := j = _), or_assoc]

/-- The imports of some types are in order, and they are those that the types need. -/
theorem ofTypes_eq_ok {types : List String} {imports : List Import}
    (h : ofTypes types = .ok imports) :
    Increasing imports ∧
      ∀ j, j ∈ imports ↔ ∃ type ∈ types, ∃ t, TypeName.parse? type = some t ∧ j = t.toImport := by
  unfold ofTypes at h
  dsimp only at h
  split at h
  · cases h
  · cases h
    obtain ⟨hincreasing, hmem⟩ :=
      foldl_insert (types.filterMap TypeName.parse?) List.Pairwise.nil
    refine ⟨hincreasing, ?_⟩
    intro j
    rw [hmem]
    simp only [List.not_mem_nil, false_or, List.mem_filterMap]
    constructor
    · rintro ⟨t, ⟨type, htype, hparse⟩, rfl⟩
      exact ⟨type, htype, t, hparse, rfl⟩
    · rintro ⟨type, htype, t, hparse, rfl⟩
      exact ⟨t, ⟨type, htype, hparse⟩, rfl⟩

/-! ## Invalid types -/

/-- The invalid types of a list, as often and in the order as they stand there. -/
def invalidTypes (types : List String) : List String :=
  types.filter fun type => ¬ TypeName.Valid type

theorem invalidTypes_eq_nil_iff {types : List String} :
    invalidTypes types = [] ↔ ∀ type ∈ types, TypeName.Valid type := by
  simp [invalidTypes, List.filter_eq_nil_iff]

/-- A failure that reports some types: alone if it is one, else all of them together. -/
def Reports (failure : Failure) : List String → Prop
  | [] => False
  | [type] => failure = .assembly (.invalidType type)
  | types => failure = .several (types.map fun type => .assembly (.invalidType type))

/-- One fault is kept for every invalid type. -/
theorem faults_eq (types : List String) :
    (types.filterMap fun type =>
      if (TypeName.parse? type).isNone then some (Failure.assembly (.invalidType type)) else none) =
      (invalidTypes types).map fun type => Failure.assembly (.invalidType type) := by
  induction types with
  | nil => rfl
  | cons type rest ih =>
    have hnone : (TypeName.parse? type).isNone = !decide (TypeName.Valid type) := by
      rw [← Option.not_isSome, Bool.not_inj_iff, Bool.eq_iff_iff, TypeName.isSome_parse?_iff,
        decide_eq_true_iff]
    rw [List.filterMap_cons, ih, hnone, invalidTypes, invalidTypes, List.filter_cons]
    by_cases hvalid : TypeName.Valid type
    · simp [hvalid]
    · simp [hvalid]

/-- Types have imports, or some are invalid and reported. -/
theorem ofTypes_cases (types : List String) :
    (invalidTypes types = [] ∧ ofTypes types = .ok
      (((types.filterMap TypeName.parse?).map TypeName.toImport).foldl
        (fun imports i => insert i imports) [])) ∨
      ∃ failure, ofTypes types = .error failure ∧ Reports failure (invalidTypes types) := by
  rw [ofTypes, faults_eq, List.foldl_map]
  match invalidTypes types with
  | [] => exact .inl ⟨rfl, rfl⟩
  | [type] => exact .inr ⟨_, rfl, rfl⟩
  | type :: type' :: rest => exact .inr ⟨_, rfl, rfl⟩

theorem exists_ofTypes_eq_ok_iff {types : List String} :
    (∃ imports, ofTypes types = .ok imports) ↔ ∀ type ∈ types, TypeName.Valid type := by
  rw [← invalidTypes_eq_nil_iff]
  rcases ofTypes_cases types with ⟨hnil, hok⟩ | ⟨failure, herror, hreports⟩
  · simp [hnil, hok]
  · have hne : invalidTypes types ≠ [] := fun hnil => by
      rw [hnil] at hreports
      exact hreports
    simp [herror, hne]

theorem reports_of_ofTypes {types : List String} {failure : Failure}
    (h : ofTypes types = .error failure) : Reports failure (invalidTypes types) := by
  rcases ofTypes_cases types with ⟨-, hok⟩ | ⟨failure', herror, hreports⟩
  · cases hok.symm.trans h
  · cases herror.symm.trans h
    exact hreports

/-! ## The imports of valid types -/

/-- The imports of types are those that the types name, in lower case. -/
theorem mem_ofTypes_iff {types : List String} {imports : List Import}
    (h : ofTypes types = .ok imports) :
    i ∈ imports ↔ ∃ type ∈ types, ∃ organization service,
      TypeName.Names type organization service ∧
        i = ⟨Text.lower organization, Text.lower service⟩ := by
  rw [(ofTypes_eq_ok h).2]
  refine exists_congr fun type => and_congr_right fun htype => ?_
  constructor
  · rintro ⟨t, ht, rfl⟩
    exact ⟨t.organization, t.service, (TypeName.exists_parse?_iff.1 ⟨t, ht, rfl, rfl⟩).1, rfl⟩
  · rintro ⟨organization, service, hnames, rfl⟩
    -- a type that was read names nothing but its organization and its service
    obtain ⟨o, s, hvalid⟩ := exists_ofTypes_eq_ok_iff.1 ⟨imports, h⟩ type htype
    obtain ⟨rfl, rfl⟩ := hnames.unique hvalid.1
    obtain ⟨t, ht, rfl, rfl⟩ := TypeName.exists_parse?_iff.2 hvalid
    exact ⟨t, ht, rfl⟩

/-- The order of imports by the bytes of their parts. -/
def BytesPrecede (i j : Import) : Prop :=
  Text.Utf8.encode i.organization < Text.Utf8.encode j.organization ∨
    (i.organization = j.organization ∧ Text.Utf8.encode i.service < Text.Utf8.encode j.service)

theorem bytesPrecede_iff : i.BytesPrecede j ↔ i.Precedes j := by
  simp only [BytesPrecede, Precedes, Text.Utf8.encode_lt_encode_iff]

theorem not_precedes_self (i : Import) : ¬ i.Precedes i := by
  rintro (h | ⟨-, h⟩)
  · exact String.lt_irrefl _ h
  · exact String.lt_irrefl _ h

/-- Imports in order are known from their members. -/
theorem Increasing.eq_of_mem_iff {imports imports' : List Import} (h : Increasing imports)
    (h' : Increasing imports') (hmem : ∀ i, i ∈ imports ↔ i ∈ imports') : imports = imports' := by
  have hirrefl : Std.Irrefl Precedes := ⟨not_precedes_self⟩
  have hantisymm : Std.Antisymm Precedes :=
    ⟨fun i j hij hji => absurd (hij.trans hji) (not_precedes_self i)⟩
  exact List.Pairwise.eq_of_mem_iff h h' hmem

theorem ofTypes_congr {types types' : List String} {imports : List Import}
    (h : ofTypes types = .ok imports) (hsame : ∀ type, type ∈ types' ↔ type ∈ types) :
    ofTypes types' = .ok imports := by
  have hvalid := exists_ofTypes_eq_ok_iff.1 ⟨imports, h⟩
  obtain ⟨imports', h'⟩ := exists_ofTypes_eq_ok_iff.2 fun type htype => hvalid type ((hsame type).1 htype)
  have hincreasing := (ofTypes_eq_ok h).1
  have hincreasing' := (ofTypes_eq_ok h').1
  rw [h', hincreasing'.eq_of_mem_iff hincreasing]
  intro i
  rw [mem_ofTypes_iff h, mem_ofTypes_iff h']
  simp only [hsame]

/-- Types have imports exactly if each of them names an organization and a service.  The imports
    are strictly increasing by the bytes of organization and service, they are the parts that the
    types name in lower case, and they are the same for any list of the same types.  Otherwise
    every occurrence of an invalid type is reported, in order. -/
theorem ofTypes_outcome (types : List String) :
    ((∃ imports, ofTypes types = .ok imports) ↔ ∀ type ∈ types, TypeName.Valid type) ∧
    (∀ imports, ofTypes types = .ok imports →
      imports.Pairwise BytesPrecede ∧
      (∀ i, i ∈ imports ↔ ∃ type ∈ types, ∃ organization service,
        TypeName.Names type organization service ∧
          i = ⟨Text.lower organization, Text.lower service⟩) ∧
      ∀ types', (∀ type, type ∈ types' ↔ type ∈ types) → ofTypes types' = .ok imports) ∧
    (∀ failure, ofTypes types = .error failure → Reports failure (invalidTypes types)) := by
  refine ⟨exists_ofTypes_eq_ok_iff, fun imports h => ⟨?_, fun i => mem_ofTypes_iff h, ?_⟩,
    fun failure => reports_of_ofTypes⟩
  · exact (ofTypes_eq_ok h).1.imp bytesPrecede_iff.2
  · intro types'
    exact ofTypes_congr h

/-- Colons in a row, letters in another case and repeated types; and types that are invalid, one
    of them twice. -/
theorem ofTypes_outcome_colons :
    let types := ["b::SQS", "AWS::S3::Bucket", "aws:::s3", "B::sqs::Queue"]
    let imports : List Import := [⟨"aws", ":s3"⟩, ⟨"aws", "s3"⟩, ⟨"b", "sqs"⟩]
    (ofTypes types = .ok imports ∧ imports.Pairwise BytesPrecede ∧
      ofTypes (types.reverse ++ types) = .ok imports) ∧
    ofTypes ["::S3", "AWS::S3", "AWS::::Bucket", "::S3"] =
      .error (.several [.assembly (.invalidType "::S3"), .assembly (.invalidType "AWS::::Bucket"),
        .assembly (.invalidType "::S3")]) := by
  intro types imports
  constructor
  · have hnames : (types.filterMap TypeName.parse?).map TypeName.toImport =
        [⟨"b", "sqs"⟩, ⟨"aws", "s3"⟩, ⟨"aws", ":s3"⟩, ⟨"b", "sqs"⟩] := by decide +kernel
    have hinsert : ([⟨"b", "sqs"⟩, ⟨"aws", "s3"⟩, ⟨"aws", ":s3"⟩, ⟨"b", "sqs"⟩] : List Import).foldl
        (fun imports i => insert i imports) [] = imports := by decide +kernel
    have hok : ofTypes types = .ok imports := by
      rcases ofTypes_cases types with ⟨-, hok⟩ | ⟨failure, -, hreports⟩
      · rwa [hnames, hinsert] at hok
      · rw [invalidTypes_eq_nil_iff.2 (by decide +kernel)] at hreports
        exact hreports.elim
    obtain ⟨hincreasing, -, hsame⟩ := (ofTypes_outcome types).2.1 imports hok
    exact ⟨hok, hincreasing, hsame _ (by simp)⟩
  · obtain ⟨hvalid, -, hreports⟩ := ofTypes_outcome ["::S3", "AWS::S3", "AWS::::Bucket", "::S3"]
    cases h : ofTypes ["::S3", "AWS::S3", "AWS::::Bucket", "::S3"] with
    | ok found => exact absurd (hvalid.1 ⟨found, h⟩ "::S3" (List.mem_cons_self ..)) (by decide)
    | error failure =>
      have hinvalid : invalidTypes ["::S3", "AWS::S3", "AWS::::Bucket", "::S3"] =
        ["::S3", "AWS::::Bucket", "::S3"] := by decide
      have hfailure := hreports failure h
      rw [hinvalid] at hfailure
      exact congrArg Except.error hfailure

end Import

end StackIr.Ir
