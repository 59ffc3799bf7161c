import Expunge.Column.Resolution
import Mathlib.Data.List.Infix

/-!
# Where a path leads

A path is cut at its dots in exactly one way (`isPath_iff`). It resolves as `ResolvesTo` says: the
first column named by its first segment counts, the other segments lead through fields of structs
only (`Reaches`), and what stops them is named together with the exact place where it does. The
classes of outcomes are exhaustive and exclude one another, since every outcome is characterised
(`resolve_localises`).
-/

namespace Expunge

/-! ## Cutting a text at a separator -/

namespace Text

theorem splitAll_eq_splitOn (separator : Char) (text : List Char) :
    splitAll separator text = text.splitOn separator := by
  induction text with
  | nil => rfl
  | cons c rest ih =>
    rw [List.splitOn_cons_eq_if_modifyHead, splitAll, ih]
    by_cases h : c = separator
    · simp [h]
    · cases hrest : rest.splitOn separator with
      | nil => exact absurd hrest (List.splitOn_ne_nil _ _)
      | cons piece pieces => simp [h]

theorem not_mem_of_mem_splitAll {separator : Char} {text piece : List Char}
    (h : piece ∈ splitAll separator text) : separator ∉ piece := by
  induction text generalizing piece with
  | nil => simp_all [splitAll]
  | cons c rest ih =>
    rw [splitAll] at h
    split at h
    · rcases List.mem_cons.1 h with rfl | h
      · exact List.not_mem_nil
      · exact ih h
    · next hc =>
      cases hrest : splitAll separator rest with
      | nil => exact absurd hrest (splitAll_ne_nil _ _)
      | cons first others =>
        rw [hrest] at h ih
        rcases List.mem_cons.1 h with rfl | h
        · exact List.not_mem_cons_of_ne_of_not_mem (Ne.symm hc) (ih List.mem_cons_self)
        · exact ih (List.mem_cons_of_mem _ h)

/-- A text is cut into pieces exactly if it is made up of them and none of them has a separator. -/
theorem splitAll_eq_iff {separator : Char} {text : List Char} {pieces : List (List Char)} :
    splitAll separator text = pieces ↔
      pieces ≠ [] ∧ text = [separator].intercalate pieces ∧
        ∀ piece ∈ pieces, separator ∉ piece := by
  constructor
  · rintro rfl
    exact ⟨splitAll_ne_nil _ _, (intercalate_splitAll _ _).symm,
      fun _ => not_mem_of_mem_splitAll⟩
  · rintro ⟨hne, rfl, hpieces⟩
    rw [splitAll_eq_splitOn]
    exact List.splitOn_intercalate separator hpieces hne

end Text

namespace Column

/-! ## Paths -/

/-- A path consists of segments without dots, with dots between them. -/
structure IsPath (path : String) (segments : List String) : Prop where
  ne_nil : segments ≠ []
  eq : path = ".".intercalate segments
  no_dot : ∀ segment ∈ segments, '.' ∉ segment.toList

/-- Every path has segments, and no others. -/
theorem isPath_iff {path : String} {names : List String} :
    IsPath path names ↔ segments path = names := by
  have hnames : segments path = names ↔
      Text.splitAll '.' path.toList = names.map String.toList := by
    rw [segments, ← List.map_inj_right (f := String.toList) fun _ _ => String.toList_inj.1]
    simp
  have hpath : path = ".".intercalate names ↔
      path.toList = ['.'].intercalate (names.map String.toList) := by
    rw [← String.toList_inj, String.toList_intercalate]
    rfl
  rw [hnames, Text.splitAll_eq_iff, ← hpath]
  simp only [ne_eq, List.map_eq_nil_iff, List.forall_mem_map]
  exact ⟨fun h => ⟨h.ne_nil, h.eq, h.no_dot⟩, fun h => ⟨h.1, h.2.1, h.2.2⟩⟩

/-- One segment more at the end of a path. -/
theorem intercalate_concat {names : List String} (hne : names ≠ []) (name : String) :
    ".".intercalate names ++ "." ++ name = ".".intercalate (names ++ [name]) := by
  rw [String.intercalate_append_of_ne_nil hne (List.cons_ne_nil _ _), String.intercalate_singleton]

/-- A path starts with a segment. -/
theorem exists_isPath (path : String) : ∃ name rest, IsPath path (name :: rest) := by
  have hne : segments path ≠ [] := by
    simpa [segments] using Text.splitAll_ne_nil '.' path.toList
  obtain ⟨name, rest, h⟩ := List.exists_cons_of_ne_nil hne
  exact ⟨name, rest, isPath_iff.2 h⟩

/-! ## Walking through fields -/

/-- Segments lead from a type to a type: each one into the first field so named of a struct. -/
inductive Reaches : ColumnType → List String → ColumnType → Prop
  | here (type : ColumnType) : Reaches type [] type
  | field {before after : List (String × ColumnType)} {segment : String} {rest : List String}
      {type last : ColumnType} :
      (∀ other ∈ before, other.1 ≠ segment) → Reaches type rest last →
      Reaches (.struct (before ++ (segment, type) :: after)) (segment :: rest) last

/-- A type has no field of a name where one could be: it is a scalar or a struct of others. -/
def Lacks : ColumnType → String → Prop
  | .primitive _, _ | .unsupported _, _ => True
  | .struct fields, name => ∀ field ∈ fields, field.1 ≠ name
  | .map _ _, _ | .array _, _ => False

/-- A type that nothing leads through: a map or an array. -/
def IsCollection : ColumnType → Prop
  | .map _ _ | .array _ => True
  | .primitive _ | .unsupported _ | .struct _ => False

/-- What following segments from a type comes to, as part of a path of which some segments have been
walked. -/
inductive WalksTo (path : String) (walked : List String) (type : ColumnType)
    (rest : List String) : Except ColumnError PrimitiveKind → Prop
  /-- The segments lead to a scalar of a kind. -/
  | found {kind : PrimitiveKind} : Reaches type rest (.primitive kind) →
      WalksTo path walked type rest (.ok kind)
  /-- Some of them lead to where the next one names no field. -/
  | lacking {before after : List String} {field : String} {node : ColumnType} :
      rest = before ++ field :: after → Reaches type before node → Lacks node field →
      WalksTo path walked type rest
        (.error (.unknownField (".".intercalate (walked ++ before)) field))
  /-- Some of them lead to a map or an array, and there are more. -/
  | barred {before after : List String} {segment : String} {node : ColumnType} :
      rest = before ++ segment :: after → Reaches type before node → IsCollection node →
      WalksTo path walked type rest (.error (.unsupportedType path))
  /-- They lead to a type that is not of a kind. -/
  | unfinished {node : ColumnType} : Reaches type rest node → (∀ kind, node ≠ .primitive kind) →
      WalksTo path walked type rest (.error (.unsupportedType path))

section
variable {path : String} {walked : List String}

/-- A look-up gives the first field of a name. -/
theorem lookup_eq_some_iff {fields : List (String × ColumnType)} {name : String}
    {type : ColumnType} :
    fields.lookup name = some type ↔
      ∃ before after, fields = before ++ (name, type) :: after ∧
        ∀ other ∈ before, other.1 ≠ name := by
  simp only [List.lookup_eq_some_iff, bne_iff_ne, ne_comm]

/-- A look-up gives nothing if no field has the name. -/
theorem lookup_eq_none_iff {fields : List (String × ColumnType)} {name : String} :
    fields.lookup name = none ↔ Lacks (.struct fields) name := by
  simp only [List.lookup_eq_none_iff, bne_iff_ne, ne_comm, Lacks]

theorem reaches_of_lookup {fields : List (String × ColumnType)} {segment : String}
    {rest : List String} {type last : ColumnType} (h : fields.lookup segment = some type)
    (hrest : Reaches type rest last) : Reaches (.struct fields) (segment :: rest) last := by
  obtain ⟨before, after, rfl, hbefore⟩ := lookup_eq_some_iff.1 h
  exact .field hbefore hrest

/-- Walking on from where some segments lead. -/
theorem walk_append (hwalked : walked ≠ []) {type node : ColumnType} {before : List String}
    (h : Reaches type before node) (rest : List String) :
    walk path type (".".intercalate walked) (before ++ rest) =
      walk path node (".".intercalate (walked ++ before)) rest := by
  induction h generalizing walked with
  | here type => rw [List.append_nil, List.nil_append]
  | @field before after segment segments type last hbefore _ ih =>
    have hlookup : (before ++ (segment, type) :: after).lookup segment = some type :=
      lookup_eq_some_iff.2 ⟨before, after, rfl, hbefore⟩
    rw [List.cons_append, walk, hlookup]
    simp only [intercalate_concat hwalked]
    rw [ih (by simp), List.append_assoc, List.singleton_append]

/-- A walk comes to what is said of it. -/
theorem walk_of_walksTo (hwalked : walked ≠ []) {type : ColumnType} {rest : List String}
    {outcome : Except ColumnError PrimitiveKind} (h : WalksTo path walked type rest outcome) :
    walk path type (".".intercalate walked) rest = outcome := by
  cases h with
  | found hreaches =>
    rw [← List.append_nil rest, walk_append hwalked hreaches, walk]
  | @lacking before after field node hrest hreaches hlacks =>
    rw [hrest, walk_append hwalked hreaches]
    cases node with
    | primitive | unsupported => rw [walk]
    | struct fields =>
      rw [walk, lookup_eq_none_iff.2 hlacks]
    | map | array => exact hlacks.elim
  | @barred before after segment node hrest hreaches hcollection =>
    rw [hrest, walk_append hwalked hreaches]
    cases node with
    | primitive | unsupported | struct => exact hcollection.elim
    | map | array => rw [walk]
  | @unfinished node hreaches hother =>
    rw [← List.append_nil rest, walk_append hwalked hreaches]
    cases node with
    | primitive kind => exact absurd rfl (hother kind)
    | unsupported | struct | map | array => simp [walk]

/-- A walk into a field comes to what the walk from there does. -/
theorem WalksTo.field {fields : List (String × ColumnType)} {segment : String}
    {rest : List String} {type : ColumnType} {outcome : Except ColumnError PrimitiveKind}
    (hlookup : fields.lookup segment = some type)
    (h : WalksTo path (walked ++ [segment]) type rest outcome) :
    WalksTo path walked (.struct fields) (segment :: rest) outcome := by
  cases h with
  | found hreaches => exact .found (reaches_of_lookup hlookup hreaches)
  | @lacking before after field node hrest hreaches hlacks =>
    rw [List.append_assoc, List.singleton_append]
    exact .lacking (congrArg (segment :: ·) hrest) (reaches_of_lookup hlookup hreaches) hlacks
  | barred hrest hreaches hcollection =>
    exact .barred (congrArg (segment :: ·) hrest) (reaches_of_lookup hlookup hreaches) hcollection
  | unfinished hreaches hother =>
    exact .unfinished (reaches_of_lookup hlookup hreaches) hother

/-- Every walk comes to something. -/
theorem exists_walksTo (path : String) (walked : List String) (type : ColumnType)
    (rest : List String) : ∃ outcome, WalksTo path walked type rest outcome := by
  induction rest generalizing walked type with
  | nil =>
    cases type with
    | primitive kind => exact ⟨_, .found (.here _)⟩
    | unsupported | struct | map | array => exact ⟨_, .unfinished (.here _) nofun⟩
  | cons segment rest ih =>
    cases type with
    | primitive | unsupported => exact ⟨_, .lacking (List.nil_append _).symm (.here _) trivial⟩
    | map | array => exact ⟨_, .barred (List.nil_append _).symm (.here _) trivial⟩
    | struct fields =>
      cases hlookup : fields.lookup segment with
      | some type =>
        obtain ⟨outcome, h⟩ := ih (walked ++ [segment]) type
        exact ⟨outcome, h.field hlookup⟩
      | none =>
        exact ⟨_, .lacking (List.nil_append _).symm (.here _) (lookup_eq_none_iff.1 hlookup)⟩

end

/-! ## Resolving -/

/-- A column is the first one of a name. -/
def IsFirstNamed (columns : List Column) (name : String) (column : Column) : Prop :=
  ∃ before after, columns = before ++ column :: after ∧ column.name = name ∧
    ∀ other ∈ before, other.name ≠ name

/-- What a path resolves to. -/
inductive ResolvesTo (columns : List Column) (path : String) :
    Except ColumnError PrimitiveKind → Prop
  /-- No column has the name that the path starts with. -/
  | unknownColumn {name : String} {rest : List String} : IsPath path (name :: rest) →
      (∀ column ∈ columns, column.name ≠ name) →
      ResolvesTo columns path (.error (.unknownColumn path))
  /-- The definition of the first column of the name does not parse. -/
  | invalidSchema {name : String} {rest : List String} {column : Column} :
      IsPath path (name :: rest) → IsFirstNamed columns name column →
      ColumnType.parse? column.type = none →
      ResolvesTo columns path (.error (.invalidSchema column.type))
  /-- It parses, and the other segments are followed through its type. -/
  | walk {name : String} {rest : List String} {column : Column} {type : ColumnType}
      {outcome : Except ColumnError PrimitiveKind} :
      IsPath path (name :: rest) → IsFirstNamed columns name column →
      ColumnType.parse? column.type = some type → WalksTo path [name] type rest outcome →
      ResolvesTo columns path outcome

section
variable {columns : List Column} {path : String}

theorem find?_eq_some_iff {name : String} {column : Column} :
    columns.find? (fun column => column.name = name) = some column ↔
      IsFirstNamed columns name column := by
  simp only [List.find?_eq_some_iff_append, decide_eq_true_eq, Bool.not_eq_eq_eq_not,
    Bool.not_true, decide_eq_false_iff_not, IsFirstNamed]
  constructor
  · rintro ⟨hname, before, after, hcolumns, hbefore⟩
    exact ⟨before, after, hcolumns, hname, hbefore⟩
  · rintro ⟨before, after, hcolumns, hname, hbefore⟩
    exact ⟨hname, before, after, hcolumns, hbefore⟩

theorem find?_eq_none_iff {name : String} :
    (columns.find? fun column => column.name = name) = none ↔
      ∀ column ∈ columns, column.name ≠ name := by
  simp

/-- Resolving starts with a look-up of the first segment. -/
theorem resolve_eq {name : String} {rest : List String} (h : IsPath path (name :: rest)) :
    resolve columns path =
      match columns.find? fun column => column.name = name with
      | none => .error (.unknownColumn path)
      | some column => column.parsedType >>= fun type => walk path type name rest := by
  simp only [resolve, isPath_iff.1 h]
  rfl

/-- A path resolves to what is said of it. -/
theorem resolve_of_resolvesTo {outcome : Except ColumnError PrimitiveKind}
    (h : ResolvesTo columns path outcome) : resolve columns path = outcome := by
  cases h with
  | unknownColumn hpath hnone => rw [resolve_eq hpath, find?_eq_none_iff.2 hnone]
  | invalidSchema hpath hfirst hparse =>
    rw [resolve_eq hpath, find?_eq_some_iff.2 hfirst]
    simp only [parsedType.eq_def, hparse]
    rfl
  | @walk name rest column type outcome hpath hfirst hparse hwalk =>
    rw [resolve_eq hpath, find?_eq_some_iff.2 hfirst]
    simp only [parsedType.eq_def, hparse]
    exact walk_of_walksTo (List.cons_ne_nil name []) hwalk

/-- Every path resolves to something. -/
theorem exists_resolvesTo (columns : List Column) (path : String) :
    ∃ outcome, ResolvesTo columns path outcome := by
  obtain ⟨name, rest, hpath⟩ := exists_isPath path
  cases hfind : columns.find? fun column => column.name = name with
  | none =>
    exact ⟨_, .unknownColumn hpath (find?_eq_none_iff.1 hfind)⟩
  | some column =>
    have hfirst := find?_eq_some_iff.1 hfind
    cases hparse : ColumnType.parse? column.type with
    | none => exact ⟨_, .invalidSchema hpath hfirst hparse⟩
    | some type =>
      obtain ⟨outcome, hwalk⟩ := exists_walksTo path [name] type rest
      exact ⟨outcome, .walk hpath hfirst hparse hwalk⟩

theorem resolve_eq_iff {outcome : Except ColumnError PrimitiveKind} :
    resolve columns path = outcome ↔ ResolvesTo columns path outcome := by
  refine ⟨?_, resolve_of_resolvesTo⟩
  rintro rfl
  obtain ⟨outcome, h⟩ := exists_resolvesTo columns path
  rwa [resolve_of_resolvesTo h]

/-- Segments that a path starts with are written at its start. -/
theorem IsPath.isPrefix {before after : List String} (h : IsPath path (before ++ after))
    (hne : before ≠ []) : (".".intercalate before).toList <+: path.toList := by
  rw [h.eq]
  cases after with
  | nil => rw [List.append_nil]
  | cons segment after =>
    rw [String.intercalate_append_of_ne_nil hne (List.cons_ne_nil _ _), String.append_assoc,
      String.toList_append]
    exact List.prefix_append _ _

/-- A missing field is named where it stands in the path. -/
theorem isPrefix_of_unknownField {walked field : String}
    (h : ResolvesTo columns path (.error (.unknownField walked field))) :
    (walked ++ "." ++ field).toList <+: path.toList := by
  cases h with
  | @walk name rest column type outcome hpath _ _ hwalk =>
    cases hwalk with
    | @lacking before after field node hrest _ _ =>
      have hsplit : name :: rest = ([name] ++ before ++ [field]) ++ after := by
        simp [hrest]
      have hpath : IsPath path (([name] ++ before ++ [field]) ++ after) := hsplit ▸ hpath
      rw [intercalate_concat (by simp)]
      exact hpath.isPrefix (by simp)

end

/-- A path resolves to an outcome exactly if `ResolvesTo` says so; and the place where a field is
missing, with the name of the field after a dot, stands at the start of the path. -/
theorem resolve_localises (columns : List Column) (path : String) :
    (∀ outcome, resolve columns path = outcome ↔ ResolvesTo columns path outcome) ∧
      ∀ walked field, resolve columns path = .error (.unknownField walked field) →
        (walked ++ "." ++ field).toList <+: path.toList := by
  refine ⟨fun outcome => resolve_eq_iff, ?_⟩
  intro walked field h
  exact isPrefix_of_unknownField (resolve_eq_iff.1 h)

/-- A column of structs in structs. -/
def nestedColumn : Column :=
  ⟨"user", "struct<tags:array<string>,info:Struct< id : bigint, name:string >>"⟩

theorem resolve_localises_missingField :
    resolve [⟨"id", "array<"⟩, nestedColumn] "user.info..name" =
        .error (.unknownField "user.info" "") ∧
      ("user.info" ++ "." ++ "").toList <+: "user.info..name".toList := by
  have h : resolve [⟨"id", "array<"⟩, nestedColumn] "user.info..name" =
      .error (.unknownField "user.info" "") := by
    decide +kernel
  exact ⟨h, (resolve_localises _ _).2 _ _ h⟩

end Column

end Expunge
