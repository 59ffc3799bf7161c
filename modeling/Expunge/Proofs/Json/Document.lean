import Expunge.Json.Decode
import Expunge.Proofs.Json.Token
import Expunge.Proofs.Text.Utf8

/-!
# Documents of written trees

A tree that can be read is written as a text whose document is the tree (`ofSymbols_write`), and the
text is one line (`lineFeed_not_mem_writeChars`). So whatever texts and numbers a tree holds, the
line gives it back.
-/

namespace Expunge.Json

open Text (Symbol)

/-! ## Steps -/

/-- A token that a state accepts leads to the next state. -/
theorem documentFrom_step {state next : State} {token : Token} (h : state.step token = some next)
    (rest : List Token) : documentFrom state (token :: rest) = documentFrom next rest := by
  cases state with
  | complete root => cases h
  | _ => simp only [documentFrom, h]

/-- A state in which a value is put into the innermost open array or object of a stack. -/
def Awaits (state : State) (stack : List Frame) : Prop :=
  ∀ token next, State.startValue stack token = some next → state.step token = some next

theorem awaits_value (stack : List Frame) : Awaits (.value stack) stack :=
  fun _ _ h => h

theorem awaits_firstItem (stack : List Frame) : Awaits (.firstItem stack) (.item [] :: stack) := by
  intro token next h
  cases token with
  | closeArray => cases h
  | _ => exact h

/-- A state in which a member is put into an object with the given members. -/
def AwaitsName (state : State) (reversed : List (Option String × Json)) (stack : List Frame) :
    Prop :=
  ∀ name, state.step (.string name) = some (.colon reversed name stack)

/-! ## Trees -/

/-- A tree is read off its text as one value. -/
def IsReadBack (tree : Json) : Prop :=
  ∀ (state : State) (stack : List Frame) (rest : List Symbol), Awaits state stack → Ends rest →
    documentFrom state (tokensFrom .between (tree.writeChars.map some ++ rest)) =
      documentFrom (.place tree stack) (tokensFrom .between rest)

/-- A word is read as the value it spells. -/
theorem isReadBack_of_word {tree : Json} (hne : tree.writeChars ≠ [])
    (hword : ∀ c ∈ tree.writeChars, isWordSymbol (some c) = true)
    (htoken : Token.ofWord tree.writeChars = .word tree) : IsReadBack tree := by
  intro state stack rest hstate hrest
  rw [tokensFrom_between_word hne hword hrest, htoken]
  exact documentFrom_step (hstate _ _ rfl) _

theorem isReadBack_number (n : Numeral) : IsReadBack (.number n) := by
  have hwrite : (Json.number n).writeChars = n.toText := by
    rw [writeChars]
  refine isReadBack_of_word ?_ ?_ ?_
  · rw [hwrite]
    exact n.toText_ne_nil
  · rw [hwrite]
    exact fun _ => isWordSymbol_of_mem_toText
  · rw [hwrite, ofWord_toText]

theorem isReadBack_string (text : Option String) : IsReadBack (.string text) := by
  intro state stack rest hstate hrest
  rw [writeChars, tokensFrom_quote]
  exact documentFrom_step (hstate _ _ rfl) _

/-! ## Arrays -/

section
variable {symbol : Char} {token : Token} {rest : List Symbol}

/-- A punctuation character is a token of its own. -/
theorem tokensFrom_punctuation (h : punctuation? symbol = some token)
    (hspace : isSpace symbol = false) (hquote : symbol ≠ '"') :
    tokensFrom .between (some symbol :: rest) = token :: tokensFrom .between rest := by
  simp [tokensFrom, enter, hspace, hquote, h]

theorem ends_punctuation (h : punctuation? symbol = some token) : Ends (some symbol :: rest) :=
  ends_cons (by simp [isWordSymbol, h])

end

/-- The items of an array are read one by one up to the end of the array. -/
theorem documentFrom_writeItems {item : Json} {items : List Json}
    (h : ∀ other ∈ item :: items, IsReadBack other) {state : State} {reversed : List Json}
    {stack : List Frame} (hstate : Awaits state (.item reversed :: stack)) (rest : List Symbol) :
    documentFrom state
        (tokensFrom .between ((writeItems (item :: items)).map some ++ some ']' :: rest)) =
      documentFrom (.place (.array (reversed.reverse ++ item :: items)) stack)
        (tokensFrom .between rest) := by
  induction items generalizing item state reversed with
  | nil =>
    have hclose : State.step (.afterItem (item :: reversed) stack) .closeArray =
      some (.place (.array (item :: reversed).reverse) stack) := rfl
    rw [writeItems, h item List.mem_cons_self state _ _ hstate (ends_punctuation rfl),
      tokensFrom_punctuation rfl rfl (by decide), State.place, documentFrom_step hclose]
    simp
  | cons next items ih =>
    have hnext := ih (fun other hother => h other (List.mem_cons_of_mem _ hother))
      (awaits_value (.item (item :: reversed) :: stack))
    have hcomma : State.step (.afterItem (item :: reversed) stack) .comma =
      some (.value (.item (item :: reversed) :: stack)) := rfl
    rw [writeItems, List.map_append, List.map_cons, List.append_assoc, List.cons_append,
      h item List.mem_cons_self state _ _ hstate (ends_punctuation rfl),
      tokensFrom_punctuation rfl rfl (by decide), State.place, documentFrom_step hcomma, hnext]
    · simp
    · simp

theorem isReadBack_array {items : List Json} (h : ∀ item ∈ items, IsReadBack item) :
    IsReadBack (.array items) := by
  intro state stack rest hstate hrest
  rw [writeChars, List.map_cons, List.map_append, List.cons_append, List.append_assoc,
    tokensFrom_punctuation rfl rfl (by decide), documentFrom_step (hstate .openArray _ rfl)]
  cases items with
  | nil =>
    rw [writeItems, List.map_nil, List.nil_append, List.map_singleton, List.singleton_append,
      tokensFrom_punctuation rfl rfl (by decide)]
    exact documentFrom_step rfl _
  | cons item items => exact documentFrom_writeItems h (awaits_firstItem stack) rest

/-! ## Objects -/

/-- A name with its colon leads to the value of the member. -/
theorem documentFrom_name {state : State} {reversed : List (Option String × Json)}
    {stack : List Frame} (hstate : AwaitsName state reversed stack) (name : Option String)
    (rest : List Symbol) :
    documentFrom state (tokensFrom .between ((quote name).map some ++ some ':' :: rest)) =
      documentFrom (.value (.member reversed name :: stack)) (tokensFrom .between rest) := by
  rw [tokensFrom_quote, documentFrom_step (hstate name), tokensFrom_punctuation rfl rfl (by decide)]
  exact documentFrom_step rfl _

/-- The members of an object are read one by one up to the end of the object. -/
theorem documentFrom_writeMembers {member : Option String × Json}
    {members : List (Option String × Json)} (h : ∀ other ∈ member :: members, IsReadBack other.2)
    {state : State} {reversed : List (Option String × Json)} {stack : List Frame}
    (hstate : AwaitsName state reversed stack) (rest : List Symbol) :
    documentFrom state
        (tokensFrom .between ((writeMembers (member :: members)).map some ++ some '\x7d' :: rest)) =
      documentFrom (.place (.object (reversed.reverse ++ member :: members)) stack)
        (tokensFrom .between rest) := by
  induction members generalizing member state reversed with
  | nil =>
    obtain ⟨name, value⟩ := member
    have hvalue := h (name, value) List.mem_cons_self
      (.value (.member reversed name :: stack)) _ (some '\x7d' :: rest) (awaits_value _)
      (ends_punctuation rfl)
    have hclose : State.step (.afterMember ((name, value) :: reversed) stack) .closeObject =
      some (.place (.object ((name, value) :: reversed).reverse) stack) := rfl
    rw [writeMembers, List.map_append, List.map_cons, List.append_assoc, List.cons_append,
      documentFrom_name hstate, hvalue, tokensFrom_punctuation rfl rfl (by decide), State.place,
      documentFrom_step hclose]
    simp
  | cons next members ih =>
    obtain ⟨name, value⟩ := member
    have hname : AwaitsName (.name ((name, value) :: reversed) stack) ((name, value) :: reversed)
      stack := fun _ => rfl
    have hnext := ih (fun other hother => h other (List.mem_cons_of_mem _ hother)) hname
    have hvalue := h (name, value) List.mem_cons_self
      (.value (.member reversed name :: stack)) _
      (some ',' :: ((writeMembers (next :: members)).map some ++ some '\x7d' :: rest))
      (awaits_value _) (ends_punctuation rfl)
    have hcomma : State.step (.afterMember ((name, value) :: reversed) stack) .comma =
      some (.name ((name, value) :: reversed) stack) := rfl
    rw [writeMembers, List.map_append, List.map_cons, List.map_append, List.map_cons,
      List.append_assoc, List.cons_append, List.append_assoc, List.cons_append,
      documentFrom_name hstate, hvalue, tokensFrom_punctuation rfl rfl (by decide), State.place,
      documentFrom_step hcomma, hnext]
    · simp
    · simp

theorem isReadBack_object {members : List (Option String × Json)}
    (h : ∀ member ∈ members, IsReadBack member.2) : IsReadBack (.object members) := by
  intro state stack rest hstate hrest
  rw [writeChars, List.map_cons, List.map_append, List.cons_append, List.append_assoc,
    tokensFrom_punctuation rfl rfl (by decide), documentFrom_step (hstate .openObject _ rfl)]
  cases members with
  | nil =>
    rw [writeMembers, List.map_nil, List.nil_append, List.map_singleton, List.singleton_append,
      tokensFrom_punctuation rfl rfl (by decide)]
    exact documentFrom_step rfl _
  | cons member members =>
    have hname : AwaitsName (.firstName stack) [] stack := fun _ => rfl
    exact documentFrom_writeMembers h hname rest

/-! ## Documents -/

mutual

/-- A tree that can be read is read off the text it is written as. -/
theorem isReadBack_of_isReadable {room : Nat} :
    {tree : Json} → tree.isReadable room = true → IsReadBack tree
  | .malformed, h => by
    rw [isReadable] at h
    cases h
  | .null, _ => isReadBack_of_word (List.cons_ne_nil _ _) (List.all_eq_true.1 rfl) rfl
  | .bool true, _ => isReadBack_of_word (List.cons_ne_nil _ _) (List.all_eq_true.1 rfl) rfl
  | .bool false, _ => isReadBack_of_word (List.cons_ne_nil _ _) (List.all_eq_true.1 rfl) rfl
  | .number n, _ => isReadBack_number n
  | .string text, _ => isReadBack_string text
  | .array items, h => by
    cases room with
    | zero =>
      rw [isReadable] at h
      cases h
    | succ room =>
      rw [isReadable] at h
      exact isReadBack_array (isReadBack_of_areReadable h)
  | .object members, h => by
    cases room with
    | zero =>
      rw [isReadable] at h
      cases h
    | succ room =>
      rw [isReadable] at h
      exact isReadBack_object (isReadBack_of_membersReadable h)

theorem isReadBack_of_areReadable {room : Nat} :
    {items : List Json} → areReadable room items = true → ∀ item ∈ items, IsReadBack item
  | [], _ => by simp
  | item :: items, h => by
    rw [areReadable, Bool.and_eq_true] at h
    exact List.forall_mem_cons.2
      ⟨isReadBack_of_isReadable h.1, isReadBack_of_areReadable h.2⟩

theorem isReadBack_of_membersReadable {room : Nat} :
    {members : List (Option String × Json)} → membersReadable room members = true →
      ∀ member ∈ members, IsReadBack member.2
  | [], _ => by simp
  | (name, value) :: members, h => by
    rw [membersReadable, Bool.and_eq_true, Bool.and_eq_true] at h
    exact List.forall_mem_cons.2
      ⟨isReadBack_of_isReadable h.1.2, isReadBack_of_membersReadable h.2⟩

end

/-- The document of a tree that is written and can be read is the tree, and nothing follows it. -/
theorem ofSymbols_write {room : Nat} {tree : Json} (h : tree.isReadable room = true) :
    Document.ofSymbols (Text.symbols tree.write) = ⟨tree, false⟩ := by
  have hread := isReadBack_of_isReadable h (.value []) [] [] (awaits_value []) ends_nil
  rw [List.append_nil] at hread
  rw [Document.ofSymbols, tokens, Text.symbols, write, String.toList_ofList, hread]
  rfl

/-! ## Lines -/

theorem lineFeed_not_mem_escape {c : Char} {text : List Char} (h : Escape c text) :
    '\n' ∉ text := by
  have hhex : ∀ n < 16, '\n' ≠ hexChar n := by decide
  cases h with
  | letter hletter hlookup =>
    intro hmem
    rcases List.mem_cons.1 hmem with heq | hmem
    · cases heq
    · rw [← List.mem_singleton.1 hmem] at hlookup
      cases hlookup
  | number hcontrol =>
    have hhigh := hhex (c.toNat / 16) (by omega)
    have hlow := hhex (c.toNat % 16) (by omega)
    simp [hhigh, hlow]
  | itself hquote hbackslash hcontrol =>
    rw [List.mem_singleton]
    rintro rfl
    exact hcontrol (by decide)

theorem lineFeed_not_mem_quote (text : Option String) : '\n' ∉ quote text := by
  cases text with
  | some text =>
    have hescape (c : Char) := lineFeed_not_mem_escape (escape_escapeChar c)
    simp [quote, hescape]
  | none => decide

mutual

/-- The text of a tree is one line. -/
theorem lineFeed_not_mem_writeChars : (tree : Json) → '\n' ∉ tree.writeChars
  | .malformed => by simp [writeChars]
  | .null => by simp [writeChars]
  | .bool value => by cases value <;> simp [writeChars, boolText]
  | .number n => by
    rw [writeChars]
    intro h
    cases isWordSymbol_of_mem_toText h
  | .string text => by
    rw [writeChars]
    exact lineFeed_not_mem_quote text
  | .array items => by
    simp [writeChars, lineFeed_not_mem_writeItems items]
  | .object members => by
    simp [writeChars, lineFeed_not_mem_writeMembers members]

theorem lineFeed_not_mem_writeItems : (items : List Json) → '\n' ∉ writeItems items
  | [] => by simp [writeItems]
  | [item] => by
    rw [writeItems]
    exact lineFeed_not_mem_writeChars item
  | item :: other :: items => by
    simp [writeItems, lineFeed_not_mem_writeChars item,
      lineFeed_not_mem_writeItems (other :: items)]

theorem lineFeed_not_mem_writeMembers :
    (members : List (Option String × Json)) → '\n' ∉ writeMembers members
  | [] => by simp [writeMembers]
  | [(name, value)] => by
    simp [writeMembers, lineFeed_not_mem_quote name, lineFeed_not_mem_writeChars value]
  | (name, value) :: other :: members => by
    simp [writeMembers, lineFeed_not_mem_quote name, lineFeed_not_mem_writeChars value,
      lineFeed_not_mem_writeMembers (other :: members)]

end

end Expunge.Json
