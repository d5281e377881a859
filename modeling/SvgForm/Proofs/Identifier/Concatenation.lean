import SvgForm.Proofs.Identifier.Pieces
/-! # Texts one after another

Two texts with a point between them have the tokens of the first and then those of the second, just if the first
leaves no bracket open: an open bracket takes the point into a token. What can be a token is any text that is not
empty and has points inside brackets only.
-/

namespace SvgForm.Identifier

variable {d e : Nat} {s t token text first : List Char} {rest : List (List Char)}

/-! ## What the pieces keep -/

theorem flatten_pieces_cons (d : Nat) (c : Char) (t : List Char) :
    (pieces d (c :: t)).flatten =
      if c = '.' ∧ opened d c = 0 then (pieces (opened d c) t).flatten
      else c :: (pieces (opened d c) t).flatten := by
  rw [pieces_cons]
  split
  case isTrue => rfl
  case isFalse =>
    cases found : pieces (opened d c) t with
    | nil => exact absurd found (pieces_ne_nil _ _)
    | cons => rfl

theorem flatten_pieces_append (d : Nat) (s t : List Char) :
    (pieces d (s ++ t)).flatten = (pieces d s).flatten ++ (pieces (depthAfter d s) t).flatten := by
  induction s generalizing d with
  | nil => rfl
  | cons c s ih =>
      rw [List.cons_append, flatten_pieces_cons, flatten_pieces_cons, ih]
      split
      · rfl
      · rfl

theorem opened_mono (le : d ≤ e) (c : Char) : opened d c ≤ opened e c := by
  unfold opened
  split
  case isTrue => exact Nat.succ_le_succ le
  case isFalse =>
    split
    case isTrue => exact Nat.sub_le_sub_right le 1
    case isFalse => exact le

/-- The more brackets are open before a text, the more of its points are kept. -/
theorem flatten_pieces_sublist (le : d ≤ e) (t : List Char) :
    (pieces d t).flatten.Sublist (pieces e t).flatten := by
  induction t generalizing d e with
  | nil => exact .slnil
  | cons c t ih =>
      have more := opened_mono le c
      have later := ih more
      rw [flatten_pieces_cons, flatten_pieces_cons]
      by_cases parts : c = '.' ∧ opened e c = 0
      · have both : c = '.' ∧ opened d c = 0 := ⟨parts.1, by omega⟩
        rw [if_pos both, if_pos parts]
        exact later
      · rw [if_neg parts]
        split
        case isTrue => exact later.cons c
        case isFalse => exact later.cons_cons c

theorem flatten_splitTokens (t : List Char) : (splitTokens t).flatten = (pieces 0 t).flatten :=
  List.flatten_filter_ne_nil

/-! ## Tokens of both -/

theorem splitTokens_append (closed : depthAfter 0 s = 0) (t : List Char) :
    splitTokens (s ++ '.' :: t) = splitTokens s ++ splitTokens t := by
  rw [splitTokens, pieces_append closed, List.filter_append]
  rfl

/-- A bracket left open keeps the point after it, and so more than the two texts keep on their own. -/
theorem splitTokens_append_ne (unclosed : depthAfter 0 s ≠ 0) (t : List Char) :
    splitTokens (s ++ '.' :: t) ≠ splitTokens s ++ splitTokens t := by
  intro same
  have kept : ¬ ('.' = '.' ∧ opened (depthAfter 0 s) '.' = 0) := fun parts => unclosed parts.2
  -- what the first text keeps is the same on both sides
  have chars : '.' :: (pieces (depthAfter 0 s) t).flatten = (pieces 0 t).flatten := by
    have whole := congrArg List.flatten same
    rwa [List.flatten_append, flatten_splitTokens, flatten_splitTokens, flatten_splitTokens, flatten_pieces_append,
      List.append_cancel_left_eq, flatten_pieces_cons, if_neg kept] at whole
  have fewer := (flatten_pieces_sublist (Nat.zero_le (depthAfter 0 s)) t).length_le
  rw [← chars, List.length_cons] at fewer
  omega

/-! ## What can be a token -/

/-- The first piece goes on where the brackets stand, and every other one starts where none is open. -/
theorem enclosed_pieces (found : pieces d t = first :: rest) :
    Enclosed d first ∧ ∀ piece ∈ rest, Enclosed 0 piece := by
  induction t generalizing d first rest with
  | nil =>
      obtain ⟨rfl, rfl⟩ := List.cons.inj found
      exact ⟨enclosed_nil d, by simp⟩
  | cons c t ih =>
      obtain ⟨next, later, parted⟩ := List.exists_cons_of_ne_nil (pieces_ne_nil (opened d c) t)
      obtain ⟨here, others⟩ := ih parted
      rw [pieces_cons, parted] at found
      split at found
      case isTrue parts =>
        obtain ⟨rfl, rfl⟩ := List.cons.inj found
        rw [parts.2] at here
        exact ⟨enclosed_nil d, List.forall_mem_cons.mpr ⟨here, others⟩⟩
      case isFalse kept =>
        obtain ⟨rfl, rfl⟩ := List.cons.inj found
        exact ⟨enclosed_cons.mpr ⟨kept, here⟩, others⟩

theorem enclosed_of_mem_splitTokens (mem : token ∈ splitTokens text) : token ≠ [] ∧ Enclosed 0 token := by
  obtain ⟨first, rest, parted⟩ := List.exists_cons_of_ne_nil (pieces_ne_nil 0 text)
  obtain ⟨piece, some⟩ := List.mem_filter.mp mem
  have all : ∀ piece ∈ pieces 0 text, Enclosed 0 piece := by
    rw [parted]
    exact List.forall_mem_cons.mpr (enclosed_pieces parted)
  exact ⟨by simpa using some, all token piece⟩

theorem splitTokens_of_enclosed (some : token ≠ []) (inside : Enclosed 0 token) : splitTokens token = [token] := by
  rw [splitTokens, pieces_of_enclosed inside]
  simp [some]

/-- A point parts the tokens of two texts just if the first leaves no bracket open, and the tokens that there can be
are the texts that are not empty and have every point inside brackets. -/
theorem splitTokens_append_iff :
    (∀ s t, splitTokens (s ++ '.' :: t) = splitTokens s ++ splitTokens t ↔ depthAfter 0 s = 0) ∧
      ∀ token, (∃ text, token ∈ splitTokens text) ↔ token ≠ [] ∧ Enclosed 0 token := by
  constructor
  · intro s t
    refine ⟨fun same => ?_, fun closed => splitTokens_append closed t⟩
    by_contra unclosed
    exact splitTokens_append_ne unclosed t same
  · intro token
    constructor
    · rintro ⟨text, mem⟩
      exact enclosed_of_mem_splitTokens mem
    · rintro ⟨some, inside⟩
      exact ⟨token, by rw [splitTokens_of_enclosed some inside]; exact List.mem_singleton_self token⟩

example : splitTokens "..a]].b]c[x.y]..[d.e".toList = ["a]]".toList, "b]c[x.y]".toList, "[d.e".toList] := by
  decide

end SvgForm.Identifier
