import Mathlib.Data.List.Induction
import Mathlib.Data.List.Nodup
import Mathlib.Data.List.Perm.Subperm
import SvgForm.Identity.Keys
/-! # Handing out unique keys

A claim gives the first form of a key that is neither handed out already nor, if it is a numbered one,
reserved. That describes a whole row of claims without the counts: `Assigns` says so of names for the
members of a list, and `claimAll` is the only way to fulfil it.
-/

namespace SvgForm

/-! ## Numbered forms -/

@[simp] theorem disambiguate_one (key : String) : disambiguate key 1 = key := rfl

theorem disambiguate_of_le {key : String} {n : Nat} (hn : n ≤ 1) : disambiguate key n = key :=
  if_pos hn

theorem toList_disambiguate {key : String} {n : Nat} (hn : 2 ≤ n) :
    (disambiguate key n).toList = key.toList ++ '_' :: Nat.toDigits 10 n := by
  have many : ¬ n ≤ 1 := by omega
  simp [disambiguate, many, Text.natDigits]

/-- What stands before the last of a mark, and what after it. -/
theorem append_mark_inj {mark : Char} {a b s t : List Char} (hs : mark ∉ s) (ht : mark ∉ t)
    (h : a ++ mark :: s = b ++ mark :: t) : a = b ∧ s = t := by
  rcases List.append_eq_append_iff.mp h with ⟨mid, hb, hm⟩ | ⟨mid, ha, hm⟩
  · cases mid with
    | nil => simp_all
    | cons c mid => exact absurd (show mark ∈ s by simp_all) hs
  · cases mid with
    | nil => simp_all
    | cons c mid => exact absurd (show mark ∈ t by simp_all) ht

theorem toDigits_inj {m n : Nat} (h : Nat.toDigits 10 m = Nat.toDigits 10 n) : m = n := by
  have := congrArg (Nat.ofDigitChars 10 · 0) h
  simpa only [Nat.ofDigitChars_ten_toDigits] using this

/-- A numbered form tells its key and its number. -/
theorem disambiguate_inj {a b : String} {m n : Nat} (hm : 2 ≤ m) (hn : 2 ≤ n)
    (h : disambiguate a m = disambiguate b n) : a = b ∧ m = n := by
  have lists := congrArg String.toList h
  rw [toList_disambiguate hm, toList_disambiguate hn] at lists
  obtain ⟨keys, digits⟩ :=
    append_mark_inj Nat.underscore_not_in_toDigits Nat.underscore_not_in_toDigits lists
  exact ⟨String.toList_inj.mp keys, toDigits_inj digits⟩

theorem disambiguate_ne_self {key : String} {n : Nat} (hn : 2 ≤ n) : disambiguate key n ≠ key := by
  intro h
  have lengths := congrArg (fun s => s.toList.length) h
  simp only [toList_disambiguate hn, List.length_append, List.length_cons] at lengths
  omega

theorem disambiguate_number_inj {key : String} {m n : Nat} (hm : 1 ≤ m) (hn : 1 ≤ n)
    (h : disambiguate key m = disambiguate key n) : m = n := by
  rcases Nat.lt_or_ge 1 m with hm | hm <;> rcases Nat.lt_or_ge 1 n with hn | hn
  · exact (disambiguate_inj hm hn h).2
  · rw [disambiguate_of_le hn] at h
    exact absurd h (disambiguate_ne_self hm)
  · rw [disambiguate_of_le hm] at h
    exact absurd h.symm (disambiguate_ne_self hn)
  · omega

theorem disambiguate_ne_empty {key : String} (hk : key ≠ "") (n : Nat) : disambiguate key n ≠ "" := by
  rcases Nat.lt_or_ge 1 n with hn | hn
  · intro h
    have := congrArg String.toList h
    simp [toList_disambiguate hn] at this
  · rwa [disambiguate_of_le hn]

namespace UniqueKeys

/-! ## One claim -/

/-- Whether an occurrence of a key cannot be handed out, for the keys that are reserved and those that
are handed out already. -/
def Taken (reserved issued : List String) (key : String) (n : Nat) : Prop :=
  disambiguate key n ∈ issued ∨ 1 < n ∧ disambiguate key n ∈ reserved

/-- The number of the first occurrence of a key that can be handed out. -/
structure FirstFree (reserved issued : List String) (key : String) (n : Nat) : Prop where
  pos : 1 ≤ n
  free : ¬ Taken reserved issued key n
  least : ∀ m, 1 ≤ m → m < n → Taken reserved issued key m

theorem FirstFree.unique {reserved issued : List String} {key : String} {m n : Nat}
    (hm : FirstFree reserved issued key m) (hn : FirstFree reserved issued key n) : m = n := by
  rcases Nat.lt_trichotomy m n with lt | eq | gt
  · exact absurd (hn.least m hm.pos lt) hm.free
  · exact eq
  · exact absurd (hm.least n hn.pos gt) hn.free

theorem FirstFree.not_issued {reserved issued : List String} {key : String} {n : Nat}
    (h : FirstFree reserved issued key n) : disambiguate key n ∉ issued :=
  fun mem => h.free (.inl mem)

theorem FirstFree.not_reserved {reserved issued : List String} {key : String} {n : Nat}
    (h : FirstFree reserved issued key n) (hn : 2 ≤ n) : disambiguate key n ∉ reserved :=
  fun mem => h.free (.inr ⟨hn, mem⟩)

theorem blocks_iff (u : UniqueKeys) (key : String) (n : Nat) :
    u.blocks key n = true ↔ Taken u.reserved u.issued key n := by
  simp [blocks, Taken]

/-- Among as many occurrences as there are reserved and issued keys, and one more, one is free: no two
occurrences of a key have the same form. -/
theorem exists_free (u : UniqueKeys) (key : String) {start : Nat} (hs : 1 ≤ start) :
    ∃ k < u.reserved.length + u.issued.length + 1, u.blocks key (start + k) = false := by
  by_contra none
  push Not at none
  let forms := (List.range (u.reserved.length + u.issued.length + 1)).map
    fun k => disambiguate key (start + k)
  have distinct : forms.Nodup := by
    refine List.Nodup.map_on ?_ List.nodup_range
    intro i _ j _ same
    have := disambiguate_number_inj (by omega) (by omega) same
    omega
  have inside : forms ⊆ u.reserved ++ u.issued := by
    intro form mem
    obtain ⟨k, hk, rfl⟩ := List.mem_map.mp mem
    have blocked : u.blocks key (start + k) = true := by
      simpa using none k (List.mem_range.mp hk)
    rcases (blocks_iff u key _).mp blocked with issued | ⟨_, reserved⟩
    · exact List.mem_append_right _ issued
    · exact List.mem_append_left _ reserved
  have := (List.subperm_of_subset distinct inside).length_le
  simp only [forms, List.length_map, List.length_range, List.length_append] at this
  omega

/-- The search ends at the first occurrence from `start` on that is free, if it tries enough of them. -/
theorem firstFree_spec (u : UniqueKeys) (key : String) (tries start : Nat)
    (h : ∃ k < tries, u.blocks key (start + k) = false) :
    start ≤ u.firstFree key tries start ∧ u.blocks key (u.firstFree key tries start) = false ∧
      ∀ m, start ≤ m → m < u.firstFree key tries start → u.blocks key m = true := by
  induction tries generalizing start with
  | zero => obtain ⟨k, hk, _⟩ := h; omega
  | succ tries ih =>
      by_cases here : u.blocks key start = true
      · have later : ∃ k < tries, u.blocks key (start + 1 + k) = false := by
          obtain ⟨k, hk, free⟩ := h
          cases k with
          | zero => simp_all
          | succ k => exact ⟨k, by omega, by rwa [Nat.add_assoc, Nat.add_comm 1 k]⟩
        obtain ⟨after, free, least⟩ := ih (start + 1) later
        simp only [firstFree, here, if_true]
        refine ⟨by omega, free, ?_⟩
        intro m hm lt
        rcases Nat.eq_or_lt_of_le hm with rfl | hm
        · exact here
        · exact least m hm lt
      · have stops : u.firstFree key (tries + 1) start = start := by simp [firstFree, here]
        rw [stops]
        exact ⟨Nat.le_refl start, by simpa using here, fun m hm lt => by omega⟩

/-- Every occurrence up to the last one of its key is blocked. So is every later state of claims. -/
def Settled (u : UniqueKeys) : Prop :=
  ∀ key n, 1 ≤ n → n ≤ u.count key → Taken u.reserved u.issued key n

theorem settled_start (reserved : List String) : Settled { reserved } := by
  intro key n pos le
  simp only [count, List.lookup_nil, Option.getD_none] at le
  omega

/-- A claim gives the first free occurrence of all, though it looks only at those after the last one. -/
theorem claim_firstFree {u : UniqueKeys} (hu : u.Settled) (key : String) :
    ∃ n, FirstFree u.reserved u.issued key n ∧ u.claim key =
      (disambiguate key n,
        { u with issued := disambiguate key n :: u.issued, counts := (key, n) :: u.counts }) := by
  obtain ⟨after, free, least⟩ :=
    firstFree_spec u key _ (u.count key + 1) (exists_free u key (by omega))
  refine ⟨_, ⟨by omega, ?_, ?_⟩, rfl⟩
  · rw [← blocks_iff, free]
    exact Bool.false_ne_true
  · intro m pos lt
    rcases Nat.lt_or_ge (u.count key) m with later | earlier
    · exact (blocks_iff u key m).mp (least m later lt)
    · exact hu key m pos earlier

theorem Settled.claim {u : UniqueKeys} (hu : u.Settled) (key : String) : (u.claim key).2.Settled := by
  obtain ⟨n, first, made⟩ := claim_firstFree hu key
  rw [made]
  have grows : ∀ {other m}, Taken u.reserved u.issued other m →
      Taken u.reserved (disambiguate key n :: u.issued) other m :=
    Or.imp_left (List.mem_cons_of_mem _)
  intro other m pos le
  by_cases same : other = key
  · subst same
    have counted : m ≤ n := by simpa [count] using le
    rcases Nat.eq_or_lt_of_le counted with rfl | lt
    · exact .inl List.mem_cons_self
    · exact grows (first.least m pos lt)
  · have different : (other == key) = false := by simpa using same
    simp only [count, List.lookup_cons, different] at le
    exact grows (hu other m pos le)

/-! ## A row of claims -/

section Assigns

variable {α : Type} {l : List α} {key name other : α → String}

/-- Which occurrence is free depends on the issued keys as a set. -/
theorem FirstFree.of_mem_iff {reserved issued issued' : List String} {key : String} {n : Nat}
    (h : FirstFree reserved issued key n) (same : ∀ s, s ∈ issued ↔ s ∈ issued') :
    FirstFree reserved issued' key n where
  pos := h.pos
  free := fun taken => h.free (taken.imp_left (same _).mpr)
  least := fun m pos lt => (h.least m pos lt).imp_left (same _).mp

/-- Names for the members of a list that claims of their keys in this order give: each is the first form
of its key that is free after those before it, where all the keys are reserved. -/
def Assigns (l : List α) (key name : α → String) : Prop :=
  ∀ before x after, l = before ++ x :: after →
    ∃ n, name x = disambiguate (key x) n ∧ FirstFree (l.map key) (before.map name) (key x) n

/-- Claims in order give the members of a list names, each the first form that is free after the names
before it. -/
theorem exists_claimAll {u : UniqueKeys} (hu : u.Settled) (hl : l.Nodup) (key : α → String) :
    ∃ name : α → String, (u.claimAll (l.map key)).1 = l.map name ∧
      ∀ before x after, l = before ++ x :: after → ∃ n, name x = disambiguate (key x) n ∧
        FirstFree u.reserved (before.map name ++ u.issued) (key x) n := by
  classical
  induction l generalizing u with
  | nil => exact ⟨fun _ => "", rfl, fun before x after eq => by simp at eq⟩
  | cons x rest ih =>
      obtain ⟨absent, distinct⟩ := List.nodup_cons.mp hl
      obtain ⟨n, first, made⟩ := claim_firstFree hu (key x)
      obtain ⟨name, named, each⟩ := ih (hu.claim (key x)) distinct
      -- The rest keeps its names; the head, which does not occur there, gets its own.
      let extended := fun y => if y = x then disambiguate (key x) n else name y
      have here : extended x = disambiguate (key x) n := if_pos rfl
      have kept : ∀ {ys : List α}, (∀ y ∈ ys, y ∈ rest) → ys.map extended = ys.map name := by
        intro ys inside
        refine List.map_congr_left fun y hy => if_neg ?_
        rintro rfl
        exact absent (inside y hy)
      refine ⟨extended, ?_, ?_⟩
      · simp only [List.map_cons, claimAll, named, here, kept fun y hy => hy]
        rw [made]
      · intro before y after eq
        cases before with
        | nil =>
            obtain ⟨rfl, rfl⟩ := List.cons.inj eq
            exact ⟨n, here, first⟩
        | cons z before =>
            obtain ⟨rfl, rfl⟩ := List.cons.inj eq
            obtain ⟨m, named, first⟩ := each before y after rfl
            refine ⟨m, ?_, ?_⟩
            · rw [← named]
              refine if_neg ?_
              rintro rfl
              exact absent (by simp)
            · rw [made] at first
              rw [List.map_cons, here, kept fun w hw => by simp [hw]]
              exact first.of_mem_iff fun s => by simp [or_left_comm]

theorem Assigns.unique (h : Assigns l key name) (h' : Assigns l key other) :
    ∀ x ∈ l, name x = other x := by
  suffices ∀ before after, l = before ++ after → before.map name = before.map other by
    intro x hx
    exact List.map_inj_left.mp (this l [] (by simp)) x hx
  intro before
  induction before using List.reverseRecOn with
  | nil => exact fun _ _ => rfl
  | append_singleton before x ih =>
      intro after eq
      have eq' : l = before ++ x :: after := by simpa using eq
      have earlier := ih (x :: after) eq'
      obtain ⟨n, named, first⟩ := h before x after eq'
      obtain ⟨n', named', first'⟩ := h' before x after eq'
      rw [earlier] at first
      rw [List.map_append, List.map_append, earlier, List.map_singleton, List.map_singleton,
        named, named', first.unique first']

/-- The claims of all the keys, in order, with all of them reserved. -/
theorem claimAll_map (hl : l.Nodup) (h : Assigns l key name) :
    (claimAll { reserved := l.map key } (l.map key)).1 = l.map name := by
  obtain ⟨made, claimed, each⟩ := exists_claimAll (settled_start (l.map key)) hl key
  have made_assigns : Assigns l key made := fun before x after eq => by
    simpa using each before x after eq
  rw [claimed]
  exact List.map_congr_left (made_assigns.unique h)

theorem exists_assigns (hl : l.Nodup) (key : α → String) : ∃ name, Assigns l key name := by
  obtain ⟨name, _, each⟩ := exists_claimAll (settled_start (l.map key)) hl key
  exact ⟨name, fun before x after eq => by simpa using each before x after eq⟩

namespace Assigns

theorem spec (h : Assigns l key name) {x : α} (hx : x ∈ l) :
    ∃ before after n, l = before ++ x :: after ∧ name x = disambiguate (key x) n ∧
      FirstFree (l.map key) (before.map name) (key x) n := by
  obtain ⟨before, after, eq⟩ := List.append_of_mem hx
  obtain ⟨n, named, first⟩ := h before x after eq
  exact ⟨before, after, n, eq, named, first⟩

/-- A numbered name is no key. -/
theorem number_le_one (h : Assigns l key name) {x y : α} (hx : x ∈ l) (hy : y ∈ l)
    (same : name x = key y) : name x = key x := by
  obtain ⟨_, _, n, _, named, first⟩ := h.spec hx
  rcases Nat.lt_or_ge 1 n with many | one
  · refine absurd ?_ (first.not_reserved many)
    rw [← named, same]
    exact List.mem_map_of_mem hy
  · rw [named, disambiguate_of_le one]

theorem nodup (h : Assigns l key name) : (l.map name).Nodup := by
  suffices ∀ before after, l = before ++ after → (before.map name).Nodup from this l [] (by simp)
  intro before
  induction before using List.reverseRecOn with
  | nil => exact fun _ _ => List.nodup_nil
  | append_singleton before x ih =>
      intro after eq
      have eq' : l = before ++ x :: after := by simpa using eq
      obtain ⟨n, named, first⟩ := h before x after eq'
      rw [List.map_append, List.map_singleton, ← List.concat_eq_append, List.nodup_concat]
      exact ⟨by rw [named]; exact first.not_issued, ih _ eq'⟩

theorem inj (h : Assigns l key name) {x y : α} (hx : x ∈ l) (hy : y ∈ l) (same : name x = name y) :
    x = y :=
  List.inj_on_of_nodup_map h.nodup hx hy same

/-- Every key is the name of the first member that has it. -/
theorem exists_name_eq_key (h : Assigns l key name) {x : α} (hx : x ∈ l) :
    ∃ y ∈ l, key y = key x ∧ name y = key x := by
  obtain ⟨before, after, n, eq, named, first⟩ := h.spec hx
  rcases Nat.eq_or_lt_of_le first.pos with one | many
  · exact ⟨x, hx, rfl, by rw [named, ← one, disambiguate_one]⟩
  · rcases first.least 1 (Nat.le_refl 1) many with issued | ⟨lt, _⟩
    · obtain ⟨y, hy, same⟩ := List.mem_map.mp issued
      rw [disambiguate_one] at same
      have inside : y ∈ l := by rw [eq]; exact List.mem_append_left _ hy
      exact ⟨y, inside, by rw [← h.number_le_one inside hx same, same], same⟩
    · exact absurd lt (Nat.lt_irrefl 1)

/-- Names stay as they are when some members take their names as keys. -/
theorem settle {key' : α → String} (h : Assigns l key name)
    (taken : ∀ x ∈ l, key' x = key x ∨ key' x = name x) : Assigns l key' name := by
  have more : l.map key ⊆ l.map key' := by
    intro s mem
    obtain ⟨x, hx, rfl⟩ := List.mem_map.mp mem
    obtain ⟨y, hy, sameKey, sameName⟩ := h.exists_name_eq_key hx
    refine List.mem_map.mpr ⟨y, hy, ?_⟩
    rcases taken y hy with old | new
    · rw [old, sameKey]
    · rw [new, sameName]
  intro before x after eq
  have hx : x ∈ l := by rw [eq]; simp
  obtain ⟨n, named, first⟩ := h before x after eq
  rcases taken x hx with old | new
  · refine ⟨n, by rw [old, named], first.pos, ?_, ?_⟩
    · rw [old]
      rintro (issued | ⟨many, reserved⟩)
      · exact first.not_issued issued
      · obtain ⟨y, hy, same⟩ := List.mem_map.mp reserved
        refine first.not_reserved many ?_
        rw [← named] at same ⊢
        rcases taken y hy with oldY | newY
        · rw [← same, oldY]
          exact List.mem_map_of_mem hy
        · have : y = x := h.inj hy hx (by rw [← newY, same])
          rw [← same, this, old]
          exact List.mem_map_of_mem hx
    · intro m pos lt
      rw [old]
      exact (first.least m pos lt).imp_right (And.imp_right fun mem => more mem)
  · refine ⟨1, by rw [new, disambiguate_one], Nat.le_refl 1, ?_, fun m pos lt => by omega⟩
    rw [new]
    rintro (issued | ⟨lt, _⟩)
    · rw [disambiguate_one, named] at issued
      exact first.not_issued issued
    · exact absurd lt (Nat.lt_irrefl 1)

end Assigns

end Assigns

end UniqueKeys

end SvgForm
