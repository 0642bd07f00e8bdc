import Mathlib.Data.List.Basic

/-!
# Fields of a text that is cut

A text is split at a separator, and its fields are the pieces that are not empty.
Here it goes through a buffer first: one more item is put behind it, and only as
many items as there is room for are kept. The fields that come out read as those
that went in exactly when the last wanted one is kept up to the item that the
reading needs, and still reads the same where the additional item has come behind
it.
-/

namespace Cprogramming.Library.Fields

set_option autoImplicit false

variable {Item : Type}

def filled (pieces : List (List Item)) : List (List Item) :=
  pieces.filter fun piece => !piece.isEmpty

theorem filled_cons_nil (pieces : List (List Item)) : filled ([] :: pieces) = filled pieces := by
  rfl

theorem filled_cons (piece : List Item) (content : piece ≠ []) (pieces : List (List Item)) :
    filled (piece :: pieces) = piece :: filled pieces := by
  simp [filled, content]

/-- The pieces of the first `room` items of the joined pieces. -/
def cut : Nat → List (List Item) → List (List Item)
  | _, [] => []
  | room, [piece] => [piece.take room]
  | room, piece :: next :: rest =>
    if room ≤ piece.length then [piece.take room]
    else piece :: cut (room - piece.length - 1) (next :: rest)

theorem cut_cons (room : Nat) (piece : List Item) {rest : List (List Item)} (more : rest ≠ []) :
    cut room (piece :: rest) =
      if room ≤ piece.length then [piece.take room]
      else piece :: cut (room - piece.length - 1) rest := by
  cases rest with
  | nil => exact absurd rfl more
  | cons next others => rfl

/-- The pieces after an item has been put behind the text. -/
def extendLast (item : Item) : List (List Item) → List (List Item)
  | [] => [[item]]
  | [piece] => [piece ++ [item]]
  | piece :: next :: rest => piece :: extendLast item (next :: rest)

theorem extend_last_ne_nil (item : Item) (pieces : List (List Item)) :
    extendLast item pieces ≠ [] := by
  cases pieces with
  | nil => simp [extendLast]
  | cons piece rest => cases rest <;> simp [extendLast]

theorem extend_last_cons (item : Item) (piece : List Item) {rest : List (List Item)}
    (more : rest ≠ []) : extendLast item (piece :: rest) = piece :: extendLast item rest := by
  cases rest with
  | nil => exact absurd rfl more
  | cons next others => rfl

def joinedLength : List (List Item) → Nat
  | [] => 0
  | [piece] => piece.length
  | piece :: next :: rest => piece.length + 1 + joinedLength (next :: rest)

theorem joined_length_cons (piece : List Item) (rest : List (List Item)) (more : rest ≠ []) :
    joinedLength (piece :: rest) = piece.length + 1 + joinedLength rest := by
  cases rest with
  | nil => exact absurd rfl more
  | cons next others => rfl

theorem last_cons (piece : List Item) {rest : List (List Item)} (more : rest ≠ []) :
    (piece :: rest).getLast? = rest.getLast? := by
  cases rest with
  | nil => exact absurd rfl more
  | cons next others => exact List.getLast?_cons_cons

/-! ## Splitting the kept text -/

theorem cut_add_item (room : Nat) (item : Item) (pieces : List (List Item)) :
    cut (room + 1) (pieces.modifyHead (item :: ·)) = (cut room pieces).modifyHead (item :: ·) := by
  cases pieces with
  | nil => rfl
  | cons piece rest =>
    cases rest with
    | nil => simp [cut]
    | cons next others =>
      simp only [List.modifyHead_cons, cut, List.length_cons, Nat.add_le_add_iff_right]
      split_ifs
      · simp
      · rw [Nat.add_sub_add_right, List.modifyHead_cons]

theorem extend_last_add_item (item other : Item) {pieces : List (List Item)}
    (filled : pieces ≠ []) : extendLast other (pieces.modifyHead (item :: ·)) =
      (extendLast other pieces).modifyHead (item :: ·) := by
  cases pieces with
  | nil => exact absurd rfl filled
  | cons piece rest => cases rest <;> simp [extendLast]

theorem joined_length_add_item (item : Item) {pieces : List (List Item)} (filled : pieces ≠ []) :
    joinedLength (pieces.modifyHead (item :: ·)) = joinedLength pieces + 1 := by
  cases pieces with
  | nil => exact absurd rfl filled
  | cons piece rest =>
    cases rest with
    | nil => rfl
    | cons next others =>
      simp only [List.modifyHead_cons, joinedLength, List.length_cons]
      omega

section Splitting

variable [BEq Item] (separator : Item)

theorem split_take (room : Nat) (text : List Item) :
    (text.take room).splitOn separator = cut room (text.splitOn separator) := by
  induction text generalizing room with
  | nil => simp [cut]
  | cons item rest ih =>
    cases room with
    | zero =>
      obtain ⟨first, others, shape⟩ :=
        List.exists_cons_of_ne_nil (List.splitOn_ne_nil separator (item :: rest))
      rw [shape]
      cases others <;> simp [cut]
    | succ room =>
      rw [List.take_succ_cons, List.splitOn_cons_eq_if_modifyHead,
        List.splitOn_cons_eq_if_modifyHead, ih room]
      split_ifs
      · rw [cut_cons _ _ (List.splitOn_ne_nil separator rest)]
        simp
      · exact (cut_add_item room item _).symm

theorem split_append [LawfulBEq Item] (text : List Item) (item : Item) (other : item ≠ separator) :
    (text ++ [item]).splitOn separator = extendLast item (text.splitOn separator) := by
  induction text with
  | nil => simp [List.splitOn_cons_eq_if_modifyHead, other, extendLast]
  | cons first rest ih =>
    rw [List.cons_append, List.splitOn_cons_eq_if_modifyHead,
      List.splitOn_cons_eq_if_modifyHead, ih]
    have filled := List.splitOn_ne_nil separator rest
    split_ifs
    · exact (extend_last_cons item [] filled).symm
    · exact (extend_last_add_item first item filled).symm

theorem split_behind [LawfulBEq Item] (front back : List Item) (free : separator ∉ front) :
    (front ++ back).splitOn separator = (back.splitOn separator).modifyHead (front ++ ·) := by
  induction front with
  | nil =>
    rw [List.nil_append]
    cases back.splitOn separator <;> rfl
  | cons first rest ih =>
    rw [List.mem_cons, not_or] at free
    have other : ¬ (first == separator) = true := by simpa using Ne.symm free.1
    rw [List.cons_append, List.splitOn_cons_eq_if_modifyHead, if_neg other, ih free.2,
      List.modifyHead_modifyHead]
    rfl

theorem split_at_separator [LawfulBEq Item] (front back : List Item) (free : separator ∉ front) :
    (front ++ separator :: back).splitOn separator = front :: back.splitOn separator := by
  apply List.splitOnP_append_cons_of_forall_mem _ separator (by simp) back
  intro item member
  simpa using ne_of_mem_of_not_mem member free

variable (text : List Item)

theorem joined_length_split : joinedLength (text.splitOn separator) = text.length := by
  induction text with
  | nil => rfl
  | cons first rest ih =>
    rw [List.splitOn_cons_eq_if_modifyHead, List.length_cons, ← ih]
    have filled := List.splitOn_ne_nil separator rest
    split_ifs
    · rw [joined_length_cons [] _ filled]
      simp only [List.length_nil]
      omega
    · exact joined_length_add_item first filled

theorem mem_of_mem_split (piece : List Item) (item : Item)
    (present : piece ∈ text.splitOn separator) (member : item ∈ piece) : item ∈ text := by
  induction text generalizing piece with
  | nil =>
    rw [List.splitOn_nil, List.mem_singleton] at present
    rwa [← present]
  | cons first rest ih =>
    obtain ⟨start, others, shape⟩ :=
      List.exists_cons_of_ne_nil (List.splitOn_ne_nil separator rest)
    rw [List.splitOn_cons_eq_if_modifyHead, shape] at present
    rw [shape] at ih
    split_ifs at present
    · rcases List.mem_cons.mp present with rfl | later
      · cases member
      · exact List.mem_cons_of_mem _ (ih piece later member)
    · rcases List.mem_cons.mp present with rfl | later
      · rcases List.mem_cons.mp member with rfl | behind
        · exact List.mem_cons_self
        · exact List.mem_cons_of_mem _ (ih start List.mem_cons_self behind)
      · exact List.mem_cons_of_mem _ (ih piece (List.mem_cons_of_mem _ later) member)

theorem split_length : (text.splitOn separator).length = text.count separator + 1 := by
  induction text with
  | nil => rfl
  | cons first rest ih =>
    rw [List.splitOn_cons_eq_if_modifyHead, List.count_cons]
    split_ifs
    · rw [List.length_cons, ih]
    · rw [List.length_modifyHead, ih]

theorem separator_not_mem_split [LawfulBEq Item] (text piece : List Item)
    (present : piece ∈ text.splitOn separator) : separator ∉ piece := by
  induction text generalizing piece with
  | nil =>
    rw [List.splitOn_nil, List.mem_singleton] at present
    rw [present]
    exact List.not_mem_nil
  | cons first rest ih =>
    obtain ⟨start, others, shape⟩ :=
      List.exists_cons_of_ne_nil (List.splitOn_ne_nil separator rest)
    rw [List.splitOn_cons_eq_if_modifyHead, shape] at present
    rw [shape] at ih
    split_ifs at present with here
    · rcases List.mem_cons.mp present with rfl | later
      · exact List.not_mem_nil
      · exact ih piece later
    · rcases List.mem_cons.mp present with rfl | later
      · have other : separator ≠ first := fun same => here (beq_iff_eq.mpr same.symm)
        exact List.not_mem_cons_of_ne_of_not_mem other (ih start List.mem_cons_self)
      · exact ih piece (List.mem_cons_of_mem _ later)

/-! ### Fields and their normal form -/

/-- The fields of a text: its longest parts without a separator, if not empty. -/
def fields (text : List Item) : List (List Item) := filled (text.splitOn separator)

theorem fields_nil : fields separator [] = [] := by
  rfl

variable [LawfulBEq Item]

theorem fields_at_separator (front back : List Item) :
    fields separator (front ++ separator :: back) =
      fields separator front ++ fields separator back := by
  have split : (front ++ separator :: back).splitOn separator =
      front.splitOn separator ++ back.splitOn separator :=
    List.splitOnP_append_cons front back (by simp)
  rw [fields, split, filled, List.filter_append]
  rfl

theorem fields_behind_separator (rest : List Item) :
    fields separator (separator :: rest) = fields separator rest := by
  have split := fields_at_separator separator [] rest
  rwa [List.nil_append, fields_nil, List.nil_append] at split

theorem fields_before_separator (front : List Item) :
    fields separator (front ++ [separator]) = fields separator front := by
  rw [fields_at_separator, fields_nil, List.append_nil]

theorem split_of_single (nonempty : text ≠ [])
    (single : text.IsChain fun left right => ¬ (left = separator ∧ right = separator))
    (last : text.getLast? ≠ some separator) :
    ∃ piece others, text.splitOn separator = piece :: others ∧ [] ∉ others ∧
      (piece = [] → text.head? = some separator) := by
  induction text with
  | nil => exact absurd rfl nonempty
  | cons first rest ih =>
    rw [List.splitOn_cons_eq_if_modifyHead]
    cases rest with
    | nil =>
      have other : first ≠ separator := fun same => last (by simp [same])
      rw [List.splitOn_nil, if_neg (by simpa using other)]
      exact ⟨[first], [], rfl, by simp, by simp⟩
    | cons next later =>
      rw [List.getLast?_cons_cons] at last
      obtain ⟨apart, chain⟩ := List.isChain_cons_cons.mp single
      obtain ⟨piece, others, split, none, head⟩ := ih (by simp) chain last
      rw [split]
      split_ifs with same
      · refine ⟨[], piece :: others, rfl, ?_, fun _ => by simpa using same⟩
        rw [List.mem_cons, not_or]
        refine ⟨fun empty => ?_, none⟩
        have again : next = separator := by simpa using head empty.symm
        exact apart ⟨by simpa using same, again⟩
      · exact ⟨first :: piece, others, rfl, none, by simp⟩

theorem join_fields
    (single : text.IsChain fun left right => ¬ (left = separator ∧ right = separator))
    (head : text.head? ≠ some separator) (last : text.getLast? ≠ some separator) :
    [separator].intercalate (fields separator text) = text := by
  by_cases nonempty : text = []
  · rw [nonempty, fields_nil]
    rfl
  · obtain ⟨piece, others, split, none, start⟩ :=
      split_of_single separator text nonempty single last
    have all : fields separator text = text.splitOn separator := by
      rw [fields, filled, List.filter_eq_self]
      intro content member
      have present : content ≠ [] := by
        rintro rfl
        rw [split, List.mem_cons] at member
        rcases member with empty | later
        · exact head (start empty.symm)
        · exact none later
      simpa using present
    rw [all, List.intercalate_splitOn]

end Splitting

/-! ## Reading the kept fields -/

section Reading

variable {Value : Type} (item : Item) (read : List Item → Value) (used : List Item → Nat)
  (roomy : List Item → Prop)

/-- How a field reads when it is cut, and when the item stands behind it. -/
structure Reads (piece : List Item) : Prop where
  positive : 0 < used piece
  within : used piece ≤ piece.length
  shortened : ∀ room ≤ piece.length, 0 < room →
    (read (piece.take room) = read piece ↔ used piece ≤ room)
  extended : read (piece ++ [item]) = read piece ↔ roomy piece

/-- The number of items of the joined pieces that reading up to a field needs. -/
def usedLength : Nat → List (List Item) → Nat
  | _, [] => 0
  | index, piece :: rest =>
    if piece.isEmpty then 1 + usedLength index rest
    else
      match index with
      | 0 => used piece
      | index + 1 => piece.length + 1 + usedLength index rest

def AtEnd (index : Nat) (pieces : List (List Item)) : Prop :=
  ∀ piece, pieces.getLast? = some piece → piece ≠ [] → (filled pieces).length = index + 1 →
    roomy piece

def HasRoom (room index : Nat) (pieces : List (List Item)) : Prop :=
  usedLength used index pieces ≤ room ∧ (joinedLength pieces < room → AtEnd roomy index pieces)

def KeepsFirst (room index : Nat) (pieces : List (List Item)) : Prop :=
  ((filled (cut room (extendLast item pieces))).take (index + 1)).map read =
    ((filled pieces).take (index + 1)).map read

theorem not_keeps_of_fewer {received sent : List (List Item)} {index : Nat}
    (fewer : received.length ≤ index) (enough : index < sent.length) :
    (received.take (index + 1)).map read ≠ (sent.take (index + 1)).map read := by
  intro same
  have lengths := congrArg List.length same
  simp only [List.length_map, List.length_take] at lengths
  omega

/-! ### A piece that is not the last -/

section Inner

variable (room index : Nat) (piece : List Item) (rest : List (List Item)) (more : rest ≠ [])

include more

theorem at_end_cons (other : Nat)
    (counted : (filled (piece :: rest)).length = index + 1 ↔ (filled rest).length = other + 1) :
    AtEnd roomy index (piece :: rest) ↔ AtEnd roomy other rest := by
  simp only [AtEnd, last_cons piece more, counted]

theorem keeps_first_empty (enough : index < (filled rest).length) :
    KeepsFirst item read room index ([] :: rest) ↔
      0 < room ∧ KeepsFirst item read (room - 1) index rest := by
  simp only [KeepsFirst]
  rw [extend_last_cons item [] more, cut_cons room [] (extend_last_ne_nil item rest),
    filled_cons_nil]
  by_cases nothing : room ≤ 0
  · have fewer : (filled [([] : List Item).take room]).length ≤ index := by simp [filled]
    rw [List.length_nil, if_pos nothing]
    exact iff_of_false (not_keeps_of_fewer read fewer enough) (by omega)
  · rw [List.length_nil, if_neg nothing, filled_cons_nil, Nat.sub_zero]
    exact ⟨fun kept => ⟨by omega, kept⟩, And.right⟩

theorem has_room_empty :
    HasRoom used roomy room index ([] :: rest) ↔
      0 < room ∧ HasRoom used roomy (room - 1) index rest := by
  simp only [HasRoom]
  rw [joined_length_cons [] rest more,
    at_end_cons roomy index [] rest more index (by rw [filled_cons_nil])]
  simp only [usedLength, List.isEmpty_nil, if_true, List.length_nil, Nat.zero_add]
  constructor
  · rintro ⟨enough, ended⟩
    exact ⟨by omega, by omega, fun longer => ended (by omega)⟩
  · rintro ⟨positive, enough, ended⟩
    exact ⟨by omega, fun longer => ended (by omega)⟩

variable (content : piece ≠ [])

include content

theorem keeps_first_succ (enough : index < (filled rest).length) :
    KeepsFirst item read room (index + 1) (piece :: rest) ↔
      piece.length < room ∧ KeepsFirst item read (room - piece.length - 1) index rest := by
  simp only [KeepsFirst]
  rw [extend_last_cons item piece more, cut_cons room piece (extend_last_ne_nil item rest),
    filled_cons _ content]
  by_cases short : room ≤ piece.length
  · have fewer : (filled [piece.take room]).length ≤ index + 1 :=
      Nat.le_trans (List.length_filter_le _ _) (Nat.le_add_left 1 index)
    rw [if_pos short]
    exact iff_of_false (not_keeps_of_fewer read fewer (by simpa using enough)) (by omega)
  · rw [if_neg short, filled_cons _ content]
    simp only [List.take_succ_cons, List.map_cons, List.cons.injEq, true_and]
    exact ⟨fun kept => ⟨by omega, kept⟩, And.right⟩

theorem has_room_succ :
    HasRoom used roomy room (index + 1) (piece :: rest) ↔
      piece.length < room ∧ HasRoom used roomy (room - piece.length - 1) index rest := by
  have counted : (filled (piece :: rest)).length = index + 1 + 1 ↔
      (filled rest).length = index + 1 := by
    rw [filled_cons _ content, List.length_cons]
    omega
  simp only [HasRoom]
  rw [joined_length_cons piece rest more,
    at_end_cons roomy (index + 1) piece rest more index counted]
  simp only [usedLength, List.isEmpty_iff, content, if_false]
  constructor
  · rintro ⟨enough, ended⟩
    exact ⟨by omega, by omega, fun longer => ended (by omega)⟩
  · rintro ⟨longer, enough, ended⟩
    exact ⟨by omega, fun longest => ended (by omega)⟩

theorem keeps_first_zero (reads : Reads item read used roomy piece) :
    KeepsFirst item read room 0 (piece :: rest) ↔ used piece ≤ room := by
  have positive := reads.positive
  have within := reads.within
  simp only [KeepsFirst]
  rw [extend_last_cons item piece more, cut_cons room piece (extend_last_ne_nil item rest),
    filled_cons _ content]
  by_cases short : room ≤ piece.length
  · rw [if_pos short]
    by_cases nothing : room = 0
    · subst nothing
      exact iff_of_false (by simp [filled]) (by omega)
    · have kept : piece.take room ≠ [] := by simp [nothing, content]
      rw [filled_cons _ kept, ← reads.shortened room short (by omega)]
      simp
  · rw [if_neg short, filled_cons _ content]
    exact iff_of_true (by simp) (by omega)

theorem has_room_zero : HasRoom used roomy room 0 (piece :: rest) ↔ used piece ≤ room := by
  have ended : AtEnd roomy 0 (piece :: rest) := by
    intro final last filledFinal counted
    rw [last_cons piece more] at last
    have later : final ∈ filled rest :=
      List.mem_filter.mpr ⟨List.mem_of_getLast? last, by simpa using filledFinal⟩
    have positive := List.length_pos_of_mem later
    rw [filled_cons _ content, List.length_cons] at counted
    omega
  simp only [HasRoom, usedLength, List.isEmpty_iff, content, if_false]
  exact ⟨And.left, fun enough => ⟨enough, fun _ => ended⟩⟩

end Inner

/-! ### The last piece -/

theorem keeps_first_last (room : Nat) (piece : List Item) (content : piece ≠ [])
    (reads : Reads item read used roomy piece) :
    KeepsFirst item read room 0 [piece] ↔ HasRoom used roomy room 0 [piece] := by
  have positive := reads.positive
  have within := reads.within
  have alone : AtEnd roomy 0 [piece] ↔ roomy piece := by
    simp [AtEnd, filled, content]
  simp only [KeepsFirst, HasRoom, alone, joinedLength, usedLength, List.isEmpty_iff, content,
    if_false, extendLast, cut, filled_cons piece content]
  by_cases nothing : room = 0
  · subst nothing
    exact iff_of_false (by simp [filled]) (by omega)
  · have kept : (piece ++ [item]).take room ≠ [] := by simp [nothing]
    rw [filled_cons _ kept]
    simp only [List.take_succ_cons, List.take_zero, List.map_cons, List.map_nil, List.cons.injEq,
      and_true]
    by_cases short : room ≤ piece.length
    · rw [List.take_append_of_le_length short, reads.shortened room short (by omega)]
      exact ⟨fun enough => ⟨enough, by omega⟩, And.left⟩
    · rw [List.take_of_length_le (by simp; omega), reads.extended]
      exact ⟨fun fits => ⟨by omega, fun _ => fits⟩, fun both => both.2 (by omega)⟩

/-- The first fields read the same exactly when there is room for them. The
induction is on the pieces. -/
theorem keeps_first_iff (pieces : List (List Item)) (room index : Nat) (wanted : List Item)
    (present : (filled pieces)[index]? = some wanted)
    (reads : Reads item read used roomy wanted) :
    KeepsFirst item read room index pieces ↔ HasRoom used roomy room index pieces := by
  induction pieces generalizing index room with
  | nil => cases present
  | cons piece rest ih =>
    by_cases content : piece = []
    · subst content
      rw [filled_cons_nil] at present
      have enough := (List.getElem?_eq_some_iff.mp present).1
      have more : rest ≠ [] := by
        rintro rfl
        cases present
      rw [keeps_first_empty item read room index rest more enough,
        has_room_empty used roomy room index rest more, ih (room - 1) index present]
    · rw [filled_cons _ content] at present
      cases index with
      | zero =>
        cases present
        by_cases last : rest = []
        · subst last
          exact keeps_first_last item read used roomy room wanted content reads
        · rw [keeps_first_zero item read used roomy room wanted rest last content reads,
            has_room_zero used roomy room wanted rest last content]
      | succ index =>
        rw [List.getElem?_cons_succ] at present
        have enough := (List.getElem?_eq_some_iff.mp present).1
        have more : rest ≠ [] := by
          rintro rfl
          cases present
        rw [keeps_first_succ item read room index piece rest more content enough,
          has_room_succ used roomy room index piece rest more content,
          ih (room - piece.length - 1) index present]

/-! ### All fields -/

theorem filled_single_length (piece : List Item) :
    (filled [piece]).length = if piece = [] then 0 else 1 := by
  by_cases content : piece = [] <;> simp [filled, content]

theorem filled_cut_length {pieces : List (List Item)} (nonempty : pieces ≠ []) (room : Nat) :
    (filled (cut room (extendLast item pieces))).length ≤ (filled pieces).length ↔
      (joinedLength pieces < room → pieces.getLast? ≠ some []) := by
  induction pieces generalizing room with
  | nil => exact absurd rfl nonempty
  | cons piece rest ih =>
    by_cases last : rest = []
    · subst last
      simp only [extendLast, cut, filled_single_length, joinedLength, List.getLast?_singleton,
        ne_eq, Option.some.injEq, List.take_eq_nil_iff, List.append_eq_nil_iff, List.cons_ne_nil,
        and_false, or_false]
      by_cases content : piece = []
      · by_cases nothing : room = 0 <;> simp [content, nothing]
      · by_cases nothing : room = 0 <;> simp [content, nothing]
    · rw [extend_last_cons item piece last,
        cut_cons room piece (extend_last_ne_nil item rest), joined_length_cons piece rest last,
        last_cons piece last]
      by_cases short : room ≤ piece.length
      · rw [if_pos short]
        refine iff_of_true ?_ (by omega)
        by_cases content : piece = []
        · simp [content, filled]
        · rw [filled_cons _ content, List.length_cons]
          exact Nat.le_trans (List.length_filter_le _ _) (Nat.le_add_left 1 _)
      · have later := ih last (room - piece.length - 1)
        rw [if_neg short]
        have longer : piece.length + 1 + joinedLength rest < room ↔
            joinedLength rest < room - piece.length - 1 := by omega
        rw [longer, ← later]
        by_cases content : piece = []
        · subst content
          rw [filled_cons_nil, filled_cons_nil]
        · rw [filled_cons _ content, filled_cons _ content, List.length_cons, List.length_cons,
            Nat.add_le_add_iff_right]

theorem keeps_all_iff (pieces : List (List Item)) (nonempty : pieces ≠ []) (room index : Nat)
    (counted : (filled pieces).length = index + 1)
    (reads : ∀ wanted, (filled pieces)[index]? = some wanted → Reads item read used roomy wanted) :
    (filled (cut room (extendLast item pieces))).map read = (filled pieces).map read ↔
      HasRoom used roomy room index pieces ∧
        (joinedLength pieces < room → pieces.getLast? ≠ some []) := by
  have present : ∃ wanted, (filled pieces)[index]? = some wanted :=
    ⟨(filled pieces)[index], List.getElem?_eq_getElem (by omega)⟩
  obtain ⟨wanted, present⟩ := present
  rw [← keeps_first_iff item read used roomy pieces room index wanted present
    (reads wanted present), ← filled_cut_length item nonempty room, KeepsFirst,
    List.take_of_length_le (Nat.le_of_eq counted)]
  constructor
  · intro same
    have lengths := congrArg List.length same
    simp only [List.length_map] at lengths
    rw [List.take_of_length_le (by omega)]
    exact ⟨same, by omega⟩
  · rintro ⟨same, fewer⟩
    rwa [List.take_of_length_le (by omega)] at same

end Reading

end Cprogramming.Library.Fields
