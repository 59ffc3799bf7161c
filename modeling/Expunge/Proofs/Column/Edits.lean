import Expunge.Proofs.Column.Resolution
import Expunge.Proofs.ColumnType.StructText
import Mathlib.Logic.Relation

/-!
# Edits beside a path

A path goes through the fields of structs and sees nothing of what stands beside it. So definitions
may be edited there, as texts: a field that the path passes over may get any other type that parses,
and such fields and whole columns may be put in and taken out (`Redraws`, `EditsBeside`). Whatever
is edited, the path resolves as before (`resolve_of_editsBeside`).
-/

namespace Expunge

open ColumnType

/-! ## Look-ups -/

/-- A path of which some segments are left passes over a name: the next segment is another one, or
the name has come earlier. -/
def PassesOver (segments earlier : List String) (name : String) : Prop :=
  segments.head? = some name → name ∈ earlier

instance (segments earlier : List String) (name : String) :
    Decidable (PassesOver segments earlier name) :=
  inferInstanceAs (Decidable (segments.head? = some name → name ∈ earlier))

/-- A search passes over an item on which it finds nothing, or that comes after one on which it
finds something. -/
theorem findSome?_insert {α β : Type} {f : α → Option β} {before after : List α} {item : α}
    (h : f item = none ∨ ∃ other ∈ before, (f other).isSome) :
    (before ++ item :: after).findSome? f = (before ++ after).findSome? f := by
  rw [List.findSome?_append, List.findSome?_append, List.findSome?_cons]
  rcases h with hnone | hbefore
  · rw [hnone]
  · obtain ⟨found, hfound⟩ := Option.isSome_iff_exists.1 (List.findSome?_isSome_iff.2 hbefore)
    rw [hfound, Option.some_or, Option.some_or]

theorem lookup_insert {β : Type} {before after : List (String × β)} {name next : String} {value : β}
    (h : next = name → name ∈ before.map Prod.fst) :
    (before ++ (name, value) :: after).lookup next = (before ++ after).lookup next := by
  rw [List.lookup_eq_findSome?, List.lookup_eq_findSome?]
  refine findSome?_insert ?_
  by_cases hname : next = name
  · obtain ⟨entry, hentry, hfst⟩ := List.mem_map.1 (h hname)
    exact .inr ⟨entry, hentry, by simp [hname, hfst]⟩
  · exact .inl (by simp [hname])

theorem find?_insert {before after : List Column} {column : Column} {next : String}
    (h : next = column.name → column.name ∈ before.map Column.name) :
    ((before ++ column :: after).find? fun other => other.name = next) =
      (before ++ after).find? fun other => other.name = next := by
  rw [List.find?_eq_findSome?_guard, List.find?_eq_findSome?_guard]
  refine findSome?_insert ?_
  by_cases hname : next = column.name
  · obtain ⟨other, hother, hsame⟩ := List.mem_map.1 (h hname)
    exact .inr ⟨other, hother, by simp [hname, hsame]⟩
  · exact .inl (by simp [Ne.symm hname])

/-! ## Fields -/

namespace ColumnType

/-- The fields of a struct are redrawn beside a path of which some segments are left. -/
inductive Redraws : List String → List FieldText → List FieldText → Prop
  /-- A field that the path passes over gets another type. -/
  | retype {segments : List String} {before after : List FieldText} {field : FieldText}
      {definition : List Char} {type : ColumnType} (h : ofChars? definition = some type) :
      PassesOver segments (before.map FieldText.name) field.name →
      Redraws segments (before ++ field :: after) (before ++ field.retype h :: after)
  /-- A field that the path passes over is put in. -/
  | insert {segments : List String} {before after : List FieldText} {field : FieldText} :
      before ++ after ≠ [] → PassesOver segments (before.map FieldText.name) field.name →
      Redraws segments (before ++ after) (before ++ field :: after)
  /-- A field that the path passes over is taken out, and is not the only one. -/
  | remove {segments : List String} {before after : List FieldText} {field : FieldText} :
      before ++ after ≠ [] → PassesOver segments (before.map FieldText.name) field.name →
      Redraws segments (before ++ field :: after) (before ++ after)
  /-- The field that the path goes into is a struct, the fields of which are redrawn. -/
  | inside {rest : List String} {before after : List FieldText} {field : FieldText}
      {frame : StructFrame} {fields fields' : List FieldText} (hne : fields' ≠ []) :
      (∀ other ∈ before, other.name ≠ field.name) → field.definition = frame.enclose fields →
      Redraws rest fields fields' →
      Redraws (field.name :: rest) (before ++ field :: after)
        (before ++ field.retype (ofChars?_enclose frame hne) :: after)

theorem Redraws.ne_nil {segments : List String} {fields fields' : List FieldText}
    (h : Redraws segments fields fields') : fields ≠ [] ∧ fields' ≠ [] := by
  cases h with
  | retype | inside => simp
  | insert hne => exact ⟨hne, by simp⟩
  | remove hne => exact ⟨by simp, hne⟩

end ColumnType

namespace Column

/-- A walk from a struct depends on what the look-up of the next segment gives. -/
theorem walk_struct_congr {fields fields' : List (String × ColumnType)} {segments : List String}
    (h : ∀ name, segments.head? = some name → fields.lookup name = fields'.lookup name)
    (path walked : String) :
    walk path (.struct fields) walked segments = walk path (.struct fields') walked segments := by
  cases segments with
  | nil => simp [walk]
  | cons segment rest => rw [walk, walk, h segment rfl]

/-- A walk from a struct sees nothing of a field that it passes over. -/
theorem walk_insert {segments : List String} {before after : List FieldText} {field : FieldText}
    (h : PassesOver segments (before.map FieldText.name) field.name) (type : ColumnType)
    (path walked : String) :
    walk path (.struct (before.map FieldText.entry ++ (field.name, type) ::
        after.map FieldText.entry)) walked segments =
      walk path (.struct (before.map FieldText.entry ++ after.map FieldText.entry)) walked
        segments := by
  refine walk_struct_congr (fun next hnext => ?_) path walked
  refine lookup_insert fun hname => ?_
  rw [List.map_map]
  exact h (hnext.trans (congrArg some hname))

/-- A walk that goes into the first field of a name. -/
theorem walk_field {rest : List String} {before after : List FieldText} {name : String}
    (h : ∀ other ∈ before, other.name ≠ name) (type : ColumnType) (path walked : String) :
    walk path (.struct (before.map FieldText.entry ++ (name, type) :: after.map FieldText.entry))
        walked (name :: rest) =
      walk path type (walked ++ "." ++ name) rest := by
  have hlookup : (before.map FieldText.entry ++ (name, type) ::
      after.map FieldText.entry).lookup name = some type := by
    refine lookup_eq_some_iff.2 ⟨_, _, rfl, ?_⟩
    rw [List.forall_mem_map]
    exact h
  rw [walk, hlookup]

/-- Redrawing fields beside a path changes nothing about where the path leads from the struct. -/
theorem walk_of_redraws {segments : List String} {fields fields' : List FieldText}
    (h : Redraws segments fields fields') (path walked : String) :
    walk path (.struct (fields'.map FieldText.entry)) walked segments =
      walk path (.struct (fields.map FieldText.entry)) walked segments := by
  induction h generalizing walked with
  | @retype segments before after field definition type hparses hover =>
    simp only [List.map_append, List.map_cons, FieldText.entry_retype]
    rw [walk_insert hover]
    exact (walk_insert hover field.type path walked).symm
  | @insert segments before after field _ hover =>
    simp only [List.map_append, List.map_cons]
    exact walk_insert hover field.type path walked
  | @remove segments before after field _ hover =>
    simp only [List.map_append, List.map_cons]
    exact (walk_insert hover field.type path walked).symm
  | @inside rest before after field frame fields fields' hne hfirst hdefinition hredraws ih =>
    have htype : field.type = .struct (fields.map FieldText.entry) := by
      have hparses := field.parses
      rw [hdefinition, ofChars?_enclose frame hredraws.ne_nil.1] at hparses
      exact (Option.some.inj hparses).symm
    simp only [List.map_append, List.map_cons, FieldText.entry_retype]
    rw [walk_field hfirst, ih, ← htype]
    exact (walk_field hfirst field.type path walked).symm

/-! ## Columns -/

/-- Columns are edited beside a path. -/
inductive EditsBeside (path : String) : List Column → List Column → Prop
  /-- A column that the path passes over is put in. -/
  | insert {before after : List Column} {column : Column} :
      PassesOver (segments path) (before.map Column.name) column.name →
      EditsBeside path (before ++ after) (before ++ column :: after)
  /-- A column that the path passes over is taken out. -/
  | remove {before after : List Column} {column : Column} :
      PassesOver (segments path) (before.map Column.name) column.name →
      EditsBeside path (before ++ column :: after) (before ++ after)
  /-- The definition of a column is a struct, the fields of which are redrawn. -/
  | redraw {before after : List Column} {name type type' : String} {frame : StructFrame}
      {fields fields' : List FieldText} :
      type.toList = frame.enclose fields → type'.toList = frame.enclose fields' →
      Redraws (segments path).tail fields fields' →
      EditsBeside path (before ++ ⟨name, type⟩ :: after) (before ++ ⟨name, type'⟩ :: after)

/-- Resolving depends on the column that the first segment of the path names. -/
theorem resolve_congr {columns columns' : List Column} {path : String}
    (h : ∀ name, (segments path).head? = some name →
      (columns.find? fun column => column.name = name) =
        columns'.find? fun column => column.name = name) :
    resolve columns path = resolve columns' path := by
  obtain ⟨name, rest, hpath⟩ := exists_isPath path
  rw [resolve_eq hpath, resolve_eq hpath, h name (by rw [isPath_iff.1 hpath]; rfl)]

theorem resolve_insert {before after : List Column} {column : Column} {path : String}
    (h : PassesOver (segments path) (before.map Column.name) column.name) :
    resolve (before ++ column :: after) path = resolve (before ++ after) path :=
  resolve_congr fun _ hnext => find?_insert fun hname => h (hnext.trans (congrArg some hname))

/-- A column with a definition that leads to the same outcome resolves as before. -/
theorem resolve_redefine {before after : List Column} {name type type' path : String}
    (h : ∀ walked, (parsedType ⟨name, type'⟩ >>= fun root =>
        walk path root walked (segments path).tail) =
      parsedType ⟨name, type⟩ >>= fun root => walk path root walked (segments path).tail) :
    resolve (before ++ ⟨name, type'⟩ :: after) path =
      resolve (before ++ ⟨name, type⟩ :: after) path := by
  obtain ⟨next, rest, hpath⟩ := exists_isPath path
  rw [isPath_iff.1 hpath, List.tail_cons] at h
  rw [resolve_eq hpath, resolve_eq hpath, List.find?_append, List.find?_append]
  cases before.find? fun column => column.name = next with
  | some column => rfl
  | none =>
    rw [Option.none_or, Option.none_or, List.find?_cons, List.find?_cons]
    by_cases hname : name = next
    · simp only [hname, decide_true]
      exact hname ▸ h next
    · simp only [hname, decide_false]

/-- An edit beside a path changes nothing about what the path resolves to. -/
theorem resolve_of_editsBeside_once {columns columns' : List Column} {path : String}
    (h : EditsBeside path columns columns') : resolve columns' path = resolve columns path := by
  cases h with
  | insert hover => exact resolve_insert hover
  | remove hover => exact (resolve_insert hover).symm
  | @redraw before after name type type' frame fields fields' htype htype' hredraws =>
    refine resolve_redefine fun walked => ?_
    obtain ⟨hne, hne'⟩ := hredraws.ne_nil
    simp only [parsedType.eq_def, parse?, htype, htype', ofChars?_enclose frame hne,
      ofChars?_enclose frame hne']
    exact walk_of_redraws hredraws path walked

/-- A definition parses to a struct exactly if it is a frame around the texts of its fields. Edits
of these texts beside a path, and of columns beside it, however many, change nothing about what the
path resolves to. -/
theorem resolve_of_editsBeside :
    (∀ definition entries, ofChars? definition = some (.struct entries) ↔
      ∃ (frame : StructFrame) (fields : List FieldText), fields ≠ [] ∧
        definition = frame.enclose fields ∧ fields.map FieldText.entry = entries) ∧
    ∀ path columns columns', Relation.ReflTransGen (EditsBeside path) columns columns' →
      resolve columns' path = resolve columns path := by
  refine ⟨fun definition entries => ofChars?_eq_struct_iff, ?_⟩
  intro path columns columns' h
  induction h with
  | refl => rfl
  | tail _ hedit ih => rw [resolve_of_editsBeside_once hedit, ih]

/-! A column is put in that does not parse; an array beside the path to the id becomes a map; and in
the struct that the id is in, a field is put in. -/

namespace Profile

/-- The keyword of the structs. -/
def frame : StructFrame :=
  ⟨[], ['S', 't', 'r', 'u', 'c', 't'], [' '], [], by decide, rfl, by decide, by decide⟩

/-- A field with a space before its name. -/
def field (name : String) {definition : String} {type : ColumnType}
    (hname : IsFieldName name.toList) (h : parse? definition = some type) : FieldText :=
  ⟨[' '], name.toList, [], definition.toList, type, by decide, hname, by decide, h⟩

theorem parses_array : parse? "array<string>" = some (.array (.primitive .string)) := by
  with_unfolding_all rfl

theorem parses_map : parse? "map<int,array<date>>" =
    some (.map (.primitive .int) (.array (.unsupported "date"))) := by
  with_unfolding_all rfl

theorem parses_bigint : parse? " bigint" = some (.primitive .bigint) := by
  with_unfolding_all rfl

theorem parses_decimal : parse? "decimal(10,2)" = some (.unsupported "decimal") := by
  with_unfolding_all rfl

/-- The field beside the struct that the id is in. -/
def tags : FieldText :=
  field "tags" (by decide) parses_array

/-- The id. -/
def id : FieldText :=
  field "id" (by decide) parses_bigint

/-- The field that is put in. -/
def rate : FieldText :=
  field "rate" (by decide) parses_decimal

/-- The struct that the id is in. -/
def info : FieldText :=
  ⟨[], ['i', 'n', 'f', 'o'], [], frame.enclose [id], _, by decide, by decide, by decide,
    ofChars?_enclose frame (List.cons_ne_nil _ _)⟩

/-- The tags as a map. -/
def tags' : FieldText :=
  tags.retype parses_map

/-- The struct with one more field. -/
def info' : FieldText :=
  info.retype (ofChars?_enclose frame (List.cons_ne_nil id [rate]))

/-- The column before the edits. -/
def user : Column :=
  ⟨"user", "Struct < tags:array<string>,info:Struct < id: bigint>>"⟩

/-- The column when the tags are a map. -/
def user' : Column :=
  ⟨"user", "Struct < tags:map<int,array<date>>,info:Struct < id: bigint>>"⟩

/-- The column after the edits. -/
def user'' : Column :=
  ⟨"user", "Struct < tags:map<int,array<date>>,info:Struct < id: bigint, rate:decimal(10,2)>>"⟩

/-- The column that is put in. -/
def broken : Column :=
  ⟨"id", "array<"⟩

theorem editsBeside_insert : EditsBeside "user.info.id" [user] [broken, user] :=
  @EditsBeside.insert _ [] [user] broken (by decide +kernel)

theorem editsBeside_retype : EditsBeside "user.info.id" [broken, user] [broken, user'] := by
  have hredraws : Redraws ["info", "id"] [tags, info] [tags', info] :=
    @Redraws.retype _ [] [info] tags _ _ parses_map (by decide +kernel)
  exact @EditsBeside.redraw _ [broken] [] _ _ _ frame _ _ (by decide +kernel) (by decide +kernel)
    hredraws

theorem editsBeside_inside : EditsBeside "user.info.id" [broken, user'] [broken, user''] := by
  have hinsert : Redraws ["id"] [id] [id, rate] :=
    @Redraws.insert _ [id] [] rate (by decide +kernel) (by decide +kernel)
  have hredraws : Redraws ["info", "id"] [tags', info] [tags', info'] :=
    @Redraws.inside _ [tags'] [] info frame _ _ (List.cons_ne_nil _ _) (by decide +kernel) rfl
      hinsert
  exact @EditsBeside.redraw _ [broken] [] _ _ _ frame _ _ (by decide +kernel) (by decide +kernel)
    hredraws

end Profile

theorem resolve_of_editsBeside_profile :
    Relation.ReflTransGen (EditsBeside "user.info.id") [Profile.user]
        [Profile.broken, Profile.user''] ∧
      resolve [Profile.broken, Profile.user''] "user.info.id" =
        resolve [Profile.user] "user.info.id" ∧
      resolve [Profile.user] "user.info.id" = .ok .bigint := by
  have hedits : Relation.ReflTransGen (EditsBeside "user.info.id") [Profile.user]
      [Profile.broken, Profile.user''] :=
    ((Relation.ReflTransGen.single Profile.editsBeside_insert).tail
      Profile.editsBeside_retype).tail Profile.editsBeside_inside
  exact ⟨hedits, resolve_of_editsBeside.2 _ _ _ hedits, by decide +kernel⟩

end Column

end Expunge
