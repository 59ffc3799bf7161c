import Expunge.Text.Blank

/-!
# Trimming

Trimming takes off the white space at the two ends of a text and nothing else: the text is what is
left with white space around it (`eq_append_trim_append`), and white space that is put around a text
is taken off again (`trim_append_append`).
-/

namespace Expunge.Text

variable {text before after : List Char}

/-- A character that is none of white space. -/
theorem isBlank_eq_false_of_mem {c : Char} (h : c ∈ ['<', '>', '(', ')', ',', ':', '_']) :
    isBlank c = false := by
  simp only [List.mem_cons, List.not_mem_nil, or_false] at h
  rcases h with rfl | rfl | rfl | rfl | rfl | rfl | rfl <;> decide

theorem isBlank_eq_false_of_isAlphanum {c : Char} (h : c.isAlphanum = true) :
    isBlank c = false := by
  have hrange {low high : UInt32} (h : (decide (low ≤ c.val) && decide (c.val ≤ high)) = true) :
      low.toNat ≤ c.toNat ∧ c.toNat ≤ high.toNat := by
    rw [Bool.and_eq_true, decide_eq_true_eq, decide_eq_true_eq] at h
    exact h
  have hupper : c.isUpper = true → 0x41 ≤ c.toNat ∧ c.toNat ≤ 0x5a := of_decide_eq_true
  have hlower : c.isLower = true → 0x61 ≤ c.toNat ∧ c.toNat ≤ 0x7a := hrange
  have hdigit : c.isDigit = true → 0x30 ≤ c.toNat ∧ c.toNat ≤ 0x39 := hrange
  have h : ((c.isUpper || c.isLower) || c.isDigit) = true := h
  rw [Bool.or_eq_true, Bool.or_eq_true] at h
  have hvalue := h.imp (Or.imp hupper hlower) hdigit
  simp only [isBlank, blankRanges, List.any_eq_false, Bool.and_eq_true, decide_eq_true_eq,
    List.forall_mem_cons, List.not_mem_nil, false_implies, implies_true, and_true]
  omega

/-- A text with a character that is no white space is not blank. -/
theorem isBlankText_eq_false {c : Char} (hmem : c ∈ text) (hblank : isBlank c = false) :
    isBlankText text = false := by
  rw [isBlankText, List.all_eq_false]
  exact ⟨c, hmem, by simp [hblank]⟩

/-- Leading white space is taken off. -/
theorem trimStart_append (h : ∀ c ∈ before, isBlank c = true) (text : List Char) :
    trimStart (before ++ text) = trimStart text := by
  induction before with
  | nil => rfl
  | cons c before ih =>
    rw [trimStart, List.cons_append, List.dropWhile_cons_of_pos (h c List.mem_cons_self)]
    exact ih fun d hd => h d (List.mem_cons_of_mem _ hd)

/-- Trailing white space is taken off. -/
theorem trimEnd_append (h : ∀ c ∈ after, isBlank c = true) (text : List Char) :
    trimEnd (text ++ after) = trimEnd text := by
  have hreverse : ∀ c ∈ after.reverse, isBlank c = true := by
    intro c hc
    exact h c (List.mem_reverse.1 hc)
  have hstart := trimStart_append hreverse text.reverse
  rw [trimStart, trimStart] at hstart
  rw [trimEnd, List.reverse_append, hstart, trimEnd]

/-- A text is what is left without leading white space, after such white space. -/
theorem eq_append_trimStart (text : List Char) :
    ∃ before, (∀ c ∈ before, isBlank c = true) ∧ text = before ++ trimStart text := by
  refine ⟨text.takeWhile isBlank, ?_, List.takeWhile_append_dropWhile.symm⟩
  intro c hc
  exact List.all_eq_true.1 List.all_takeWhile c hc

theorem eq_trimEnd_append (text : List Char) :
    ∃ after, (∀ c ∈ after, isBlank c = true) ∧ text = trimEnd text ++ after := by
  obtain ⟨before, hbefore, heq⟩ := eq_append_trimStart text.reverse
  refine ⟨before.reverse, ?_, ?_⟩
  · intro c hc
    exact hbefore c (List.mem_reverse.1 hc)
  · have hreverse := congrArg List.reverse heq
    rwa [List.reverse_append, List.reverse_reverse] at hreverse

/-- A text is its trimmed form with white space around it. -/
theorem eq_append_trim_append (text : List Char) :
    ∃ before after, (∀ c ∈ before, isBlank c = true) ∧ (∀ c ∈ after, isBlank c = true) ∧
      text = before ++ trim text ++ after := by
  obtain ⟨before, hbefore, heq⟩ := eq_append_trimStart text
  obtain ⟨after, hafter, heq'⟩ := eq_trimEnd_append (trimStart text)
  refine ⟨before, after, hbefore, hafter, ?_⟩
  rw [List.append_assoc, trim, ← heq', ← heq]

/-- What is left without leading white space starts with none. -/
theorem head?_trimStart (text : List Char) :
    ∀ c ∈ (trimStart text).head?, isBlank c = false := by
  intro c hc
  have hnot := List.head?_dropWhile_not isBlank text
  rw [trimStart] at hc
  rw [Option.mem_def.1 hc] at hnot
  simpa using hnot

/-- A text that starts with no white space keeps its start. -/
theorem trimStart_eq_self (h : ∀ c ∈ text.head?, isBlank c = false) : trimStart text = text := by
  cases text with
  | nil => rfl
  | cons c text => rw [trimStart, List.dropWhile_cons_of_neg (by simp [h c rfl])]

/-- A text that ends with no white space keeps its end. -/
theorem trimEnd_eq_self (h : ∀ c ∈ text.getLast?, isBlank c = false) : trimEnd text = text := by
  have hstart : trimStart text.reverse = text.reverse :=
    trimStart_eq_self (by rwa [List.head?_reverse])
  rw [trimStart] at hstart
  rw [trimEnd, hstart, List.reverse_reverse]

/-- A text with no white space at its ends is trimmed. -/
theorem trim_eq_self (hhead : ∀ c ∈ text.head?, isBlank c = false)
    (hlast : ∀ c ∈ text.getLast?, isBlank c = false) : trim text = text := by
  rw [trim, trimStart_eq_self hhead, trimEnd_eq_self hlast]

/-- A text is trimmed if nothing is taken off either end. -/
theorem trim_eq_self_iff :
    trim text = text ↔ trimStart text = text ∧ trimEnd text = text := by
  constructor
  · intro h
    have hlength := length_trimEnd_le (trimStart text)
    rw [← trim, h] at hlength
    have hsuffix : trimStart text <:+ text := List.dropWhile_suffix isBlank
    have hstart := hsuffix.eq_of_length_le hlength
    rw [trim, hstart] at h
    exact ⟨hstart, h⟩
  · rintro ⟨hstart, hend⟩
    rw [trim, hstart, hend]

/-- A trimmed text starts with no white space. -/
theorem isBlank_head?_of_trim_eq (h : trim text = text) : ∀ c ∈ text.head?, isBlank c = false := by
  rw [← (trim_eq_self_iff.1 h).1]
  exact head?_trimStart text

/-- A trimmed text ends with no white space. -/
theorem isBlank_getLast?_of_trim_eq (h : trim text = text) :
    ∀ c ∈ text.getLast?, isBlank c = false := by
  rw [← (trim_eq_self_iff.1 h).2]
  intro c hc
  rw [trimEnd, List.getLast?_reverse] at hc
  exact head?_trimStart _ c hc

/-- Trimming leaves nothing to trim. -/
theorem trim_trim (text : List Char) : trim (trim text) = trim text := by
  -- what trimming the end leaves starts as the text it was taken off, unless it is empty
  have hhead : ∀ c ∈ (trim text).head?, isBlank c = false := by
    obtain ⟨after, _, heq⟩ := eq_trimEnd_append (trimStart text)
    intro c hc
    refine head?_trimStart text c ?_
    rw [heq, ← trim]
    cases htrim : trim text with
    | nil =>
      rw [htrim] at hc
      cases hc
    | cons d rest =>
      rw [htrim] at hc
      exact hc
  refine trim_eq_self hhead ?_
  intro c hc
  rw [trim, trimEnd, List.getLast?_reverse] at hc
  exact head?_trimStart _ c hc

/-- White space around a trimmed text is taken off. -/
theorem trim_append_append (hbefore : ∀ c ∈ before, isBlank c = true)
    (hafter : ∀ c ∈ after, isBlank c = true) (htext : trim text = text) :
    trim (before ++ text ++ after) = text := by
  obtain ⟨hstart, hend⟩ := trim_eq_self_iff.1 htext
  rw [trim, List.append_assoc, trimStart_append hbefore]
  cases text with
  | nil =>
    have hnil := trimStart_append hafter []
    rw [List.append_nil] at hnil
    rw [List.nil_append, hnil]
    rfl
  | cons c text =>
    have hhead : trimStart (c :: text ++ after) = c :: text ++ after :=
      trimStart_eq_self fun d hd => isBlank_head?_of_trim_eq htext d hd
    rw [hhead, trimEnd_append hafter, hend]

end Expunge.Text
