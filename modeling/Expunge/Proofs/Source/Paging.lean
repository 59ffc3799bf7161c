import Expunge.Proofs.Pieces
import Expunge.Proofs.Source

/-!
# Paging

Partitions that come in pages are the same partitions, one by one and in order, and a page is
fetched no earlier than its first partition is asked for. A consumer of a feed asks for one item at
a time (`Reading.poll`), so what it has caused is known after every item and not only at the end of
the feed (`isPaged_paged`).
-/

namespace Expunge.Feed

/-- What a consumer of a feed has been given so far, the pages that this has taken, and what is left
of the feed. -/
structure Reading where
  delivered : List (Except SourceError Partition)
  pages : Nat
  left : Feed

namespace Reading

/-- A consumer that has asked for nothing yet. -/
def start (feed : Feed) : Reading :=
  ⟨[], 0, feed⟩

/-- A consumer asks for the next item: the feed goes on up to the step that delivers one, or to its
end. -/
def poll : Reading → Reading
  | ⟨delivered, pages, []⟩ => ⟨delivered, pages, []⟩
  | ⟨delivered, pages, .page :: left⟩ => poll ⟨delivered, pages + 1, left⟩
  | ⟨delivered, pages, .row row :: left⟩ => ⟨delivered ++ [.ok row], pages, left⟩
  | ⟨delivered, pages, .fault error :: left⟩ => ⟨delivered ++ [.error error], pages, left⟩
termination_by reading => reading.left.length

/-- A consumer asks for a number of items, one after the other. -/
def polls (reading : Reading) : Nat → Reading
  | 0 => reading
  | count + 1 => reading.poll.polls count

section
variable {delivered : List (Except SourceError Partition)} {pages : Nat} {left : Feed}

theorem polls_page (count : Nat) :
    polls ⟨delivered, pages, .page :: left⟩ (count + 1) =
      polls ⟨delivered, pages + 1, left⟩ (count + 1) := by
  rw [polls, poll, polls]

theorem polls_row (row : Partition) (count : Nat) :
    polls ⟨delivered, pages, .row row :: left⟩ (count + 1) =
      polls ⟨delivered ++ [.ok row], pages, left⟩ count := by
  rw [polls, poll]

theorem polls_fault (error : SourceError) (count : Nat) :
    polls ⟨delivered, pages, .fault error :: left⟩ (count + 1) =
      polls ⟨delivered ++ [.error error], pages, left⟩ count := by
  rw [polls, poll]

/-- At the end of a feed nothing more happens. -/
theorem polls_nil (count : Nat) :
    polls ⟨delivered, pages, []⟩ count = ⟨delivered, pages, []⟩ := by
  induction count with
  | zero => rfl
  | succ count ih => rw [polls, poll, ih]

/-- The rows at the start of a feed are delivered first, and nothing else happens until then. -/
theorem polls_rows (rows : List Partition) (count : Nat) :
    polls ⟨delivered, pages, rows.map .row ++ left⟩ count =
      polls ⟨delivered ++ (rows.take count).map .ok, pages, (rows.drop count).map .row ++ left⟩
        (count - rows.length) := by
  induction rows generalizing delivered count with
  | nil => simp
  | cons row rows ih =>
    cases count with
    | zero => simp [polls]
    | succ count =>
      rw [List.map_cons, List.cons_append, polls_row, ih]
      simp

end

end Reading

/-- A feed delivers rows in pages: however many items a consumer asks for, it is given as many rows,
as long as there are any, and this takes the pages that these rows fill, the last of them
perhaps in part. -/
structure IsPaged (pageSize : Nat) (rows : List Partition) (feed : Feed) : Prop where
  delivered_eq : ∀ count,
    ((Reading.start feed).polls count).delivered = (rows.take count).map .ok
  pages_eq : ∀ count,
    ((Reading.start feed).polls count).pages = min count rows.length ⌈/⌉ max pageSize 1

/-- From any point on, a consumer of rows in pages is given rows, and takes pages for them. -/
theorem polls_paged (pageSize : Nat) (rows : List Partition)
    (delivered : List (Except SourceError Partition)) (pages count : Nat) :
    (Reading.polls ⟨delivered, pages, paged pageSize rows⟩ count).delivered =
        delivered ++ (rows.take count).map .ok ∧
      (Reading.polls ⟨delivered, pages, paged pageSize rows⟩ count).pages =
        pages + min count rows.length ⌈/⌉ max pageSize 1 := by
  have hsize : max pageSize 1 = pageSize - 1 + 1 := by omega
  induction rows using pieces.induct pageSize generalizing delivered pages count with
  | case1 => simp [paged, Reading.polls_nil]
  | case2 first rest ih =>
    cases count with
    | zero => simp [Reading.polls]
    | succ count =>
      have hpaged : paged pageSize (first :: rest) = .page :: .row first ::
          ((rest.take (pageSize - 1)).map .row ++ paged pageSize (rest.drop (pageSize - 1))) := by
        rw [paged, pieces_cons, List.flatMap_cons]
        rfl
      have hrows : rest.take count = (rest.take (pageSize - 1)).take count ++
          (rest.drop (pageSize - 1)).take (count - (rest.take (pageSize - 1)).length) := by
        rw [← List.take_append, List.take_append_drop]
      have hpages : min (count + 1) (first :: rest).length ⌈/⌉ max pageSize 1 =
          1 + min (count - (rest.take (pageSize - 1)).length)
            (rest.drop (pageSize - 1)).length ⌈/⌉ max pageSize 1 := by
        rw [List.length_cons, Nat.add_min_add_right, hsize, ceilDiv_succ, Nat.add_comm 1,
          List.length_take, List.length_drop]
        congr 2
        omega
      rw [hpaged, Reading.polls_page, Reading.polls_row, Reading.polls_rows, hpages,
        List.take_succ_cons, hrows]
      -- the consumer stops within the first page, or has been given all of it
      rcases Nat.le_total count (rest.take (pageSize - 1)).length with hle | hle
      · rw [Nat.sub_eq_zero_of_le hle]
        simp [Reading.polls]
      · have hnone : (rest.take (pageSize - 1)).drop count = [] := List.drop_eq_nil_of_le hle
        rw [hnone, List.map_nil, List.nil_append]
        obtain ⟨hdelivered, htaken⟩ := ih (delivered ++ [.ok first] ++
          ((rest.take (pageSize - 1)).take count).map .ok) (pages + 1)
          (count - (rest.take (pageSize - 1)).length)
        rw [hdelivered, htaken, Nat.add_assoc]
        simp

/-- Partitions that are served in pages are delivered so. -/
theorem isPaged_paged (pageSize : Nat) (rows : List Partition) :
    IsPaged pageSize rows (paged pageSize rows) where
  delivered_eq count := (polls_paged pageSize rows [] 0 count).1
  pages_eq count := by
    rw [← Nat.zero_add (_ ⌈/⌉ _)]
    exact (polls_paged pageSize rows [] 0 count).2

end Expunge.Feed
