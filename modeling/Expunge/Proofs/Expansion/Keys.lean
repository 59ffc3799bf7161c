import Expunge.Proofs.Column.Cast
import Expunge.Proofs.Column.Resolution
import Expunge.Proofs.Expansion
import Mathlib.Data.List.Nodup

/-!
# What the values of a row are typed by

A row has its values in the order of the keys of its table, but the type of a key is looked up by
the name of the key, as a path through all keys (`namedKind?`). A key without a dot in its name
takes the type of the first key so named, so where names are repeated a value is cast to the type of
another key than the one at its place. `keyValues_typed` says for which keys this makes a
difference: for none if no two names are the same and no name has a dot. Nothing keeps a catalog
from declaring others, and then values are cast to other types than the declared ones, or not at all
(`retyped_by_name`).
-/

namespace Expunge.Expansion

/-! ## Two ways to find the kind of a key -/

/-- The kind that a key is declared with, if it is one. -/
def declaredKind? (key : Column) : Option PrimitiveKind :=
  match ColumnType.parse? key.type with
  | some (.primitive kind) => some kind
  | _ => none

/-- The kind that the name of a key resolves to among all keys, if it does. -/
def namedKind? (keys : List Column) (key : Column) : Option PrimitiveKind :=
  (Column.resolve keys key.name).toOption

theorem namedKind?_eq_some_iff {keys : List Column} {key : Column} {kind : PrimitiveKind} :
    namedKind? keys key = some kind ↔ Column.resolve keys key.name = .ok kind := by
  rw [namedKind?]
  cases Column.resolve keys key.name <;> simp [Except.toOption]

/-- A name without a dot stands for the first key so named. -/
theorem namedKind?_of_isFirstNamed {keys : List Column} {key first : Column}
    (hdot : '.' ∉ key.name.toList) (hfirst : Column.IsFirstNamed keys key.name first) :
    namedKind? keys key = declaredKind? first := by
  have hpath : Column.IsPath key.name [key.name] :=
    ⟨List.cons_ne_nil _ _, String.intercalate_singleton.symm, by simpa using hdot⟩
  rw [namedKind?, Column.resolve_eq hpath, Column.find?_eq_some_iff.2 hfirst, declaredKind?]
  simp only [Column.parsedType.eq_def]
  cases ColumnType.parse? first.type with
  | none => rfl
  | some type => cases type <;> rfl

theorem exists_isFirstNamed {keys : List Column} {key : Column} (h : key ∈ keys) :
    ∃ first, Column.IsFirstNamed keys key.name first := by
  cases hfind : keys.find? fun other => other.name = key.name with
  | none => exact absurd rfl (Column.find?_eq_none_iff.1 hfind key h)
  | some first => exact ⟨first, Column.find?_eq_some_iff.1 hfind⟩

/-- Where no two keys have the same name, each is the first of its name. -/
theorem isFirstNamed_self {keys : List Column} (hnodup : (keys.map Column.name).Nodup)
    {key : Column} (h : key ∈ keys) : Column.IsFirstNamed keys key.name key := by
  obtain ⟨first, hfirst⟩ := exists_isFirstNamed h
  obtain ⟨before, after, hkeys, hname, _⟩ := id hfirst
  have hmem : first ∈ keys := hkeys ▸ List.mem_append_right before List.mem_cons_self
  rwa [List.inj_on_of_nodup_map hnodup hmem h hname] at hfirst

/-! ## Rows -/

/-- A pair is the name of a key with a value, cast to the kind that is found for the key. -/
def IsPairOf (kind? : Column → Option PrimitiveKind) (entry : Column × String)
    (pair : KeyValue) : Prop :=
  pair.key = entry.1.name ∧
    ∃ kind, kind? entry.1 = some kind ∧ (Value.text entry.2).castTo? kind = some pair.value

/-- Some pairs are those of the keys of a table with the values of a row, place by place. -/
def IsTypedBy (kind? : Column → Option PrimitiveKind) (table : Table) (row : Partition)
    (pairs : List KeyValue) : Prop :=
  row.values.length = table.partitionKeys.length ∧
    List.Forall₂ (IsPairOf kind?) (table.partitionKeys.zip row.values) pairs

/-- Two ways to find the kinds of keys make no difference for rows: for each key they find kinds of
the same shape or none, or else each of them fails to find one for some key. -/
def Agree (kind? kind'? : Column → Option PrimitiveKind) (keys : List Column) : Prop :=
  (∀ key ∈ keys, (kind? key).map PrimitiveKind.shape = (kind'? key).map PrimitiveKind.shape) ∨
    (∃ key ∈ keys, kind? key = none) ∧ ∃ key ∈ keys, kind'? key = none

section
variable {kind? kind'? : Column → Option PrimitiveKind} {table : Table} {row : Partition}
  {pairs : List KeyValue}

/-- The values of a row are cast to the kinds that the names of the keys resolve to. -/
theorem keyValues_eq_ok_iff_named :
    keyValues table row = .ok pairs ↔
      IsTypedBy (namedKind? table.partitionKeys) table row pairs := by
  rw [keyValues_eq_ok_iff, IsKeyValuesOf, IsTypedBy]
  simp only [Column.cast_eq_ok_iff, ← namedKind?_eq_some_iff]
  rfl

/-- In a row that is as long as the keys, there is a value for each key. -/
theorem exists_mem_zip {keys : List Column} {values : List String}
    (hlength : values.length = keys.length) {key : Column} (h : key ∈ keys) :
    ∃ value, (key, value) ∈ keys.zip values := by
  rw [← List.map_fst_zip (le_of_eq hlength.symm), List.mem_map] at h
  obtain ⟨⟨_, value⟩, hmem, rfl⟩ := h
  exact ⟨value, hmem⟩

theorem IsTypedBy.exists_kind (h : IsTypedBy kind? table row pairs) {key : Column}
    (hkey : key ∈ table.partitionKeys) : ∃ kind, kind? key = some kind := by
  obtain ⟨value, hmem⟩ := exists_mem_zip h.1 hkey
  obtain ⟨_, _, _, kind, hkind, _⟩ := Outcome.exists_right_of_forall₂ h.2 hmem
  exact ⟨kind, hkind⟩

/-- Kinds that lead to the same pairs are of the same shapes. -/
theorem IsTypedBy.shape_eq (h : IsTypedBy kind? table row pairs)
    (h' : IsTypedBy kind'? table row pairs) :
    ∀ key ∈ table.partitionKeys,
      (kind? key).map PrimitiveKind.shape = (kind'? key).map PrimitiveKind.shape := by
  intro key hkey
  obtain ⟨value, hmem⟩ := exists_mem_zip h.1 hkey
  obtain ⟨pair, _, ⟨_, kind, hkind, hcast⟩, _, kind', hkind', hcast'⟩ :=
    Outcome.exists_right_of_forall₂ (Outcome.forall₂_and h.2 h'.2) hmem
  rw [hkind, hkind', Option.map_some, Option.map_some, Value.shape_of_castTo? hcast,
    Value.shape_of_castTo? hcast']

/-- If a kind is found for every key, there is a row with values for them. -/
theorem exists_isTypedBy (h : ∀ key ∈ table.partitionKeys, ∃ kind, kind? key = some kind) :
    ∃ row pairs, IsTypedBy kind? table row pairs := by
  have hlength : (table.partitionKeys.map fun _ => "1").length = table.partitionKeys.length :=
    List.length_map _
  obtain ⟨pairs, hpairs⟩ : ∃ pairs, List.Forall₂ (IsPairOf kind?)
      (table.partitionKeys.zip (table.partitionKeys.map fun _ => "1")) pairs := by
    refine Outcome.exists_forall₂ fun entry hentry => ?_
    obtain ⟨hkey, hvalue⟩ := List.of_mem_zip hentry
    obtain ⟨_, _, hone⟩ := List.mem_map.1 hvalue
    obtain ⟨kind, hkind⟩ := h _ hkey
    obtain ⟨typed, htyped⟩ := Value.exists_castTo?_one kind
    exact ⟨⟨entry.1.name, typed⟩, rfl, kind, hkind, hone ▸ htyped⟩
  exact ⟨⟨_⟩, pairs, hlength, hpairs⟩

/-- Kinds of the same shapes lead to the same pairs. -/
theorem IsTypedBy.congr (hshape : ∀ key ∈ table.partitionKeys,
      (kind? key).map PrimitiveKind.shape = (kind'? key).map PrimitiveKind.shape)
    (h : IsTypedBy kind? table row pairs) : IsTypedBy kind'? table row pairs := by
  have hkeys : ∀ entry ∈ table.partitionKeys.zip row.values, entry.1 ∈ table.partitionKeys :=
    fun _ hentry => (List.of_mem_zip hentry).1
  refine ⟨h.1, ((List.forall₂_and_left _ _).2 ⟨hkeys, h.2⟩).imp ?_⟩
  rintro ⟨key, value⟩ pair ⟨hkey, hname, kind, hkind, hcast⟩
  have hsame := hshape key hkey
  rw [hkind, Option.map_some, eq_comm, Option.map_eq_some_iff] at hsame
  obtain ⟨kind', hkind', hsame⟩ := hsame
  refine ⟨hname, kind', hkind', ?_⟩
  rw [Value.castTo?_eq, hsame, ← Value.castTo?_eq, hcast]

/-- Two ways to find kinds lead to the same pairs for all rows exactly if they agree. -/
theorem forall_isTypedBy_iff :
    (∀ row pairs, IsTypedBy kind? table row pairs ↔ IsTypedBy kind'? table row pairs) ↔
      Agree kind? kind'? table.partitionKeys := by
  constructor
  · intro h
    by_cases hkinds : ∀ key ∈ table.partitionKeys, ∃ kind, kind? key = some kind
    · obtain ⟨row, pairs, htyped⟩ := exists_isTypedBy hkinds
      exact .inl (htyped.shape_eq ((h _ _).1 htyped))
    by_cases hkinds' : ∀ key ∈ table.partitionKeys, ∃ kind, kind'? key = some kind
    · obtain ⟨row, pairs, htyped⟩ := exists_isTypedBy hkinds'
      exact .inl (((h _ _).2 htyped).shape_eq htyped)
    · refine .inr ?_
      simpa [Option.eq_none_iff_forall_ne_some] using And.intro hkinds hkinds'
  · rintro (hshape | ⟨⟨key, hkey, hnone⟩, ⟨key', hkey', hnone'⟩⟩) row pairs
    · exact ⟨.congr hshape, .congr fun key hkey => (hshape key hkey).symm⟩
    · constructor
      · intro h
        obtain ⟨kind, hkind⟩ := h.exists_kind hkey
        rw [hnone] at hkind
        cases hkind
      · intro h
        obtain ⟨kind, hkind⟩ := h.exists_kind hkey'
        rw [hnone'] at hkind
        cases hkind

end

/-- Where no two keys have the same name and no name has a dot, a name resolves to the kind that
the key is declared with. -/
theorem namedKind?_eq_declaredKind? {keys : List Column} (hnodup : (keys.map Column.name).Nodup)
    (hdot : ∀ key ∈ keys, '.' ∉ key.name.toList) {key : Column} (h : key ∈ keys) :
    namedKind? keys key = declaredKind? key :=
  namedKind?_of_isFirstNamed (hdot key h) (isFirstNamed_self hnodup h)

/-- The values of a row are cast to the kinds that the names of the keys resolve to, which for a
name without a dot is the kind of the first key so named. This is the same as casting each to the
kind that its own key is declared with exactly for the keys on which both agree, such as keys of
which no two have the same name and none has a dot in it. -/
theorem keyValues_typed (table : Table) :
    (∀ row pairs, keyValues table row = .ok pairs ↔
      IsTypedBy (namedKind? table.partitionKeys) table row pairs) ∧
    (∀ key ∈ table.partitionKeys, '.' ∉ key.name.toList →
      ∃ first, Column.IsFirstNamed table.partitionKeys key.name first ∧
        namedKind? table.partitionKeys key = declaredKind? first) ∧
    ((∀ row pairs, keyValues table row = .ok pairs ↔ IsTypedBy declaredKind? table row pairs) ↔
      Agree (namedKind? table.partitionKeys) declaredKind? table.partitionKeys) ∧
    ((table.partitionKeys.map Column.name).Nodup →
      (∀ key ∈ table.partitionKeys, '.' ∉ key.name.toList) →
      ∀ row pairs, keyValues table row = .ok pairs ↔ IsTypedBy declaredKind? table row pairs) := by
  have hagree : (∀ row pairs, keyValues table row = .ok pairs ↔
        IsTypedBy declaredKind? table row pairs) ↔
      Agree (namedKind? table.partitionKeys) declaredKind? table.partitionKeys := by
    simp only [keyValues_eq_ok_iff_named]
    exact forall_isTypedBy_iff
  refine ⟨fun row pairs => keyValues_eq_ok_iff_named, ?_, hagree, ?_⟩
  · intro key hkey hdot
    obtain ⟨first, hfirst⟩ := exists_isFirstNamed hkey
    exact ⟨first, hfirst, namedKind?_of_isFirstNamed hdot hfirst⟩
  · intro hnodup hdot
    exact hagree.2 (.inl fun key hkey => by rw [namedKind?_eq_declaredKind? hnodup hdot hkey])

/-! Tables as a catalog may declare them: by a year and a month, by two keys with the same name, and
by a key with a dot in its name. -/

namespace Events

/-- A year and a month. -/
def dated : Table :=
  ⟨"db", "events", [], [⟨"year", "int"⟩, ⟨"month", "string"⟩]⟩

/-- Two parts, a text and an integer. -/
def parts : Table :=
  ⟨"db", "events", [], [⟨"part", "string"⟩, ⟨"part", "int"⟩]⟩

/-- A date. -/
def dotted : Table :=
  ⟨"db", "events", [], [⟨"event.date", "string"⟩]⟩

end Events

theorem keyValues_typed_dated :
    IsTypedBy declaredKind? Events.dated ⟨["2010", "01"]⟩
      [⟨"year", .integer 2010⟩, ⟨"month", .text "01"⟩] := by
  have h : keyValues Events.dated ⟨["2010", "01"]⟩ =
      .ok [⟨"year", .integer 2010⟩, ⟨"month", .text "01"⟩] := by decide +kernel
  exact ((keyValues_typed Events.dated).2.2.2 (by decide) (by decide +kernel) _ _).1 h

/-- A document may declare two keys with the same name, and then a value is not cast to the kind
that its own key is declared with; or a key with a dot in its name, and then its value is not cast
at all. -/
theorem retyped_by_name :
    (Table.decode? Json.depthLimit Events.parts.toJson = some Events.parts ∧
      IsTypedBy declaredKind? Events.parts ⟨["a", "1"]⟩
        [⟨"part", .text "a"⟩, ⟨"part", .integer 1⟩] ∧
      keyValues Events.parts ⟨["a", "1"]⟩ = .ok [⟨"part", .text "a"⟩, ⟨"part", .text "1"⟩]) ∧
    Table.decode? Json.depthLimit Events.dotted.toJson = some Events.dotted ∧
      IsTypedBy declaredKind? Events.dotted ⟨["2010"]⟩ [⟨"event.date", .text "2010"⟩] ∧
      keyValues Events.dotted ⟨["2010"]⟩ = .error (.column (.unknownColumn "event.date")) := by
  have hparts : IsTypedBy declaredKind? Events.parts ⟨["a", "1"]⟩
      [⟨"part", .text "a"⟩, ⟨"part", .integer 1⟩] :=
    ⟨rfl, .cons ⟨rfl, .string, by decide +kernel, by decide +kernel⟩
      (.cons ⟨rfl, .int, by decide +kernel, by decide +kernel⟩ .nil)⟩
  have hdotted : IsTypedBy declaredKind? Events.dotted ⟨["2010"]⟩
      [⟨"event.date", .text "2010"⟩] :=
    ⟨rfl, .cons ⟨rfl, .string, by decide +kernel, by decide +kernel⟩ .nil⟩
  exact ⟨⟨by decide +kernel, hparts, by decide +kernel⟩, by decide +kernel, hdotted,
    by decide +kernel⟩

end Expunge.Expansion
