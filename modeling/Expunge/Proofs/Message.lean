import Expunge.Proofs.Batch

/-!
# Messages read off documents

A message that has been read off a document holds finite values only
(`Message.isFinite_of_decode?`): no numeral is read as an infinity or a NaN, and nothing else is
read as a float.
-/

namespace Expunge

/-! ## Groups -/

namespace Group

variable {reading : Json.Reading} {room : Nat} {json : Json} {group : Group}

/-- A list of values that is read off a document holds finite values only. -/
theorem isFinite_of_decodeValues? {values : List Value}
    (h : decodeValues? room json = some values) : ∀ value ∈ values, value.IsFinite :=
  Json.forall_of_list? h fun _ _ => Value.isFinite_of_decode?

theorem isFinite_of_decodeContent? {isSimple : Bool}
    (h : decodeContent? room isSimple json = some group) :
    ∀ value ∈ group.values, value.IsFinite := by
  simp only [decodeContent?, Option.bind_eq_bind, Option.pure_def] at h
  split at h
  · simp only [Option.bind_eq_some_iff, Option.some.injEq] at h
    obtain ⟨_, _, _, _, _, _, _, _, ids, hids, rfl⟩ := h
    exact isFinite_of_decodeValues? hids
  · simp only [Option.bind_eq_some_iff, Option.some.injEq] at h
    obtain ⟨_, _, _, _, _, _, _, _, ids, hids, rfl⟩ := h
    intro value hvalue
    obtain ⟨tuple, htuple, hvalue⟩ := List.mem_flatten.1 hvalue
    exact Json.forall_of_list? hids (fun _ _ => isFinite_of_decodeValues?) tuple htuple value hvalue

/-- A group that is read off a document holds finite values only, in whichever order its tag and its
content come. -/
theorem isFinite_of_decode? (h : decode? reading room json = some group) :
    ∀ value ∈ group.values, value.IsFinite := by
  cases json with
  | object members =>
    simp only [decode?, Option.bind_eq_bind, Option.bind_eq_some_iff] at h
    obtain ⟨_, _, _, _, _, _, _, _, _, _, hcontent⟩ := h
    exact isFinite_of_decodeContent? hcontent
  | array items =>
    cases items with
    | nil => cases h
    | cons tag content =>
      simp only [decode?, Option.bind_eq_bind, Option.bind_eq_some_iff] at h
      obtain ⟨_, _, _, _, hcontent⟩ := h
      exact isFinite_of_decodeContent? hcontent
  | malformed => cases h
  | null => cases h
  | bool value => cases h
  | number n => cases h
  | string text => cases h

end Group

/-! ## Queries and batches -/

theorem KeyValue.isFinite_of_decode? {room : Nat} {json : Json} {pair : KeyValue}
    (h : decode? room json = some pair) : pair.value.IsFinite := by
  simp only [decode?, Option.bind_eq_bind, Option.bind_eq_some_iff, Option.pure_def,
    Option.some.injEq] at h
  obtain ⟨_, _, _, _, _, _, _, _, _, hvalue, rfl⟩ := h
  exact Value.isFinite_of_decode? hvalue

theorem Query.isFinite_of_decode? {reading : Json.Reading} {room : Nat} {json : Json}
    {query : Query} (h : decode? reading room json = some query) :
    ∀ value ∈ query.values, value.IsFinite := by
  -- the fields before the groups, and those after the partition keys, hold no values
  iterate 12 obtain ⟨_, _, h⟩ := Option.bind_eq_some_iff.1 h
  obtain ⟨columns, hcolumns, h⟩ := Option.bind_eq_some_iff.1 h
  obtain ⟨_, _, h⟩ := Option.bind_eq_some_iff.1 h
  obtain ⟨keys, hkeys, h⟩ := Option.bind_eq_some_iff.1 h
  iterate 2 obtain ⟨_, _, h⟩ := Option.bind_eq_some_iff.1 h
  cases h
  intro value hvalue
  rcases List.mem_append.1 hvalue with hvalue | hvalue
  · obtain ⟨group, hgroup, hvalue⟩ := List.mem_flatMap.1 hvalue
    exact Json.forall_of_list? hcolumns (fun _ _ => Group.isFinite_of_decode?) group hgroup value
      hvalue
  · obtain ⟨pair, hpair, rfl⟩ := List.mem_map.1 hvalue
    exact Json.forall_of_list? hkeys (fun _ _ => KeyValue.isFinite_of_decode?) pair hpair

theorem Batch.isFinite_of_decode? {reading : Json.Reading} {room : Nat} {json : Json}
    {batch : Batch} (h : decode? reading room json = some batch) :
    ∀ query ∈ batch.queries, ∀ value ∈ query.values, value.IsFinite := by
  simp only [decode?, Option.bind_eq_bind, Option.bind_eq_some_iff, Option.pure_def,
    Option.some.injEq] at h
  obtain ⟨_, _, _, _, _, _, _, _, _, _, _, _, queries, hqueries, rfl⟩ := h
  exact Json.forall_of_list? hqueries fun _ _ => Query.isFinite_of_decode?

/-! ## Messages -/

namespace Message

variable {room : Nat} {json : Json} {message : Message}

/-- A message of any kind holds the batch that it is made of. -/
theorem batch_of_lookup {name : String} {make : Batch → Message}
    (h : kinds.lookup name = some make) (batch : Batch) : (make batch).batch = batch := by
  rw [kinds, List.lookup_cons] at h
  split at h
  · cases h
    rfl
  · cases h

/-- The batch of a message that is read off a document is read off a part of the document. -/
theorem exists_of_decode? (h : decode? room json = some message) :
    ∃ reading data, Batch.decode? reading (room - 1) data = some message.batch := by
  cases json with
  | object members =>
    simp only [decode?, Option.bind_eq_bind, Option.bind_eq_some_iff, Option.pure_def] at h
    obtain ⟨_, _, _, _, data, _, _, _, make, hmake, h⟩ := h
    obtain ⟨name, hname⟩ := Json.exists_lookup_of_variant? hmake
    -- data that come before the kind are held back
    split at h
    · simp only [Option.bind_eq_some_iff, Option.some.injEq] at h
      obtain ⟨_, _, batch, hbatch, rfl⟩ := h
      exact ⟨_, data, (batch_of_lookup hname batch).symm ▸ hbatch⟩
    · simp only [Option.bind_eq_some_iff, Option.some.injEq] at h
      obtain ⟨batch, hbatch, rfl⟩ := h
      exact ⟨_, data, (batch_of_lookup hname batch).symm ▸ hbatch⟩
  | array items =>
    rw [decode?.eq_def] at h
    split at h
    · next heq => cases heq
    · next tag data _ =>
      simp only [Option.bind_eq_bind, Option.bind_eq_some_iff, Option.pure_def,
        Option.some.injEq] at h
      obtain ⟨_, _, _, _, make, hname, batch, hbatch, rfl⟩ := h
      exact ⟨_, data, (batch_of_lookup hname batch).symm ▸ hbatch⟩
    · cases h
  | malformed => cases h
  | null => cases h
  | bool value => cases h
  | number n => cases h
  | string text => cases h

/-- A message that is read off a document holds finite values only. -/
theorem isFinite_of_decode? (h : decode? room json = some message) :
    ∀ value ∈ message.values, value.IsFinite := by
  obtain ⟨reading, data, hbatch⟩ := exists_of_decode? h
  intro value hvalue
  obtain ⟨query, hquery, hvalue⟩ := List.mem_flatMap.1 hvalue
  exact Batch.isFinite_of_decode? hbatch query hquery value hvalue

end Message

end Expunge
