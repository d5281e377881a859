import SvgForm.Proofs.Identity.Keys
/-! # Naming again

The members of a list have names, and a second list, which shares members with the first, is named anew.
A shared member comes with its old key or with its old name as key. It is given its old name again unless
newcomers to the list, or gaps that old members left behind, come in between; how many of each there are
decides it.
-/

namespace SvgForm.UniqueKeys

/-! ## Filling gaps -/

/-- The numbers below `n` with a property. -/
def numbersBelow (n : Nat) (p : Nat → Prop) [DecidablePred p] : List Nat :=
  (List.range' 1 (n - 1)).filter p

theorem mem_numbersBelow {n m : Nat} {p : Nat → Prop} [DecidablePred p] :
    m ∈ numbersBelow n p ↔ (1 ≤ m ∧ m < n) ∧ p m := by
  simp only [numbersBelow, List.mem_filter, List.mem_range'_1, decide_eq_true_eq]
  refine and_congr_left fun _ => ?_
  omega

theorem numbersBelow_nodup (n : Nat) (p : Nat → Prop) [DecidablePred p] : (numbersBelow n p).Nodup :=
  (List.nodup_range' ..).filter _

section

variable {gap : Nat → Prop} [DecidablePred gap] {picks : List Nat} {n : Nat}

/-- Numbers that were each picked as the first gap left leave no gap below `n` if they are as many as the
gaps there are: all of them lie below a gap that is left, and so they are too few. -/
theorem filled_of_length (distinct : picks.Nodup) (inside : ∀ j ∈ picks, 1 ≤ j ∧ gap j)
    (greedy : ∀ j ∈ picks, ∀ m, 1 ≤ m → m < j → gap m → m ∈ picks)
    (counted : picks.length = (numbersBelow n gap).length) : numbersBelow n gap ⊆ picks := by
  intro m mem
  obtain ⟨⟨pos, less⟩, isGap⟩ := mem_numbersBelow.mp mem
  by_contra left
  have few : m :: picks ⊆ numbersBelow n gap := by
    intro j hj
    rcases List.mem_cons.mp hj with rfl | picked
    · exact mem
    · have below : j ≤ m := by
        by_contra above
        exact left (greedy j picked m pos (by omega) isGap)
      obtain ⟨posJ, isGapJ⟩ := inside j picked
      exact mem_numbersBelow.mpr ⟨⟨posJ, by omega⟩, isGapJ⟩
  have := (List.nodup_cons.mpr ⟨left, distinct⟩).length_le_of_subset few
  rw [List.length_cons] at this
  omega

/-- Such numbers do not include the gap `n`, and leave none below it, just if they are as many as there are
gaps below it. -/
theorem picks_fill_iff (distinct : picks.Nodup) (inside : ∀ j ∈ picks, 1 ≤ j ∧ gap j)
    (greedy : ∀ j ∈ picks, ∀ m, 1 ≤ m → m < j → gap m → m ∈ picks) (pos : 1 ≤ n) (here : gap n) :
    (n ∉ picks ∧ ∀ m, 1 ≤ m → m < n → gap m → m ∈ picks) ↔
      picks.length = (numbersBelow n gap).length := by
  constructor
  · rintro ⟨absent, filled⟩
    refine ((List.perm_ext_iff_of_nodup distinct (numbersBelow_nodup n gap)).mpr fun m => ?_).length_eq
    rw [mem_numbersBelow]
    constructor
    · intro picked
      obtain ⟨posM, isGap⟩ := inside m picked
      refine ⟨⟨posM, ?_⟩, isGap⟩
      rcases Nat.lt_trichotomy m n with less | equal | greater
      · exact less
      · exact absurd (equal ▸ picked) absent
      · exact absurd (greedy m picked n pos greater here) absent
    · rintro ⟨⟨posM, less⟩, isGap⟩
      exact filled m posM less isGap
  · intro counted
    have covered := filled_of_length distinct inside greedy counted
    have same : (numbersBelow n gap).Perm picks :=
      (List.subperm_of_subset (numbersBelow_nodup n gap) covered).perm_of_length_le (Nat.le_of_eq counted)
    constructor
    · intro picked
      have := (mem_numbersBelow.mp (same.mem_iff.mpr picked)).1
      omega
    · exact fun m posM less isGap => covered (mem_numbersBelow.mpr ⟨⟨posM, less⟩, isGap⟩)

end

/-! ## The number of a name -/

section

variable {α : Type} {l l' before after : List α} {key name key' name' : α → String} {x z : α}

/-- Names tell the numbers of the forms they are. -/
theorem Assigns.exists_number (h : Assigns l key name) : ∃ number : α → Nat, ∀ before x after,
    l = before ++ x :: after → name x = disambiguate (key x) (number x) ∧
      FirstFree (l.map key) (before.map name) (key x) (number x) := by
  classical
  let number := fun x =>
    if h : ∃ n, 1 ≤ n ∧ name x = disambiguate (key x) n then h.choose else 0
  refine ⟨number, fun before x after eq => ?_⟩
  obtain ⟨n, named, first⟩ := h before x after eq
  have form : ∃ n, 1 ≤ n ∧ name x = disambiguate (key x) n := ⟨n, first.pos, named⟩
  have chosen : number x = form.choose := dif_pos form
  have same : number x = n := by
    rw [chosen]
    exact disambiguate_number_inj form.choose_spec.1 first.pos (form.choose_spec.2.symm.trans named)
  rw [same]
  exact ⟨named, first⟩

theorem Assigns.exists_form (h : Assigns l key name) (hx : x ∈ l)
    (carried : key' x = key x ∨ key' x = name x) : ∃ n, 1 ≤ n ∧ name x = disambiguate (key' x) n := by
  rcases carried with old | new
  · obtain ⟨_, _, n, _, named, first⟩ := h.spec hx
    exact ⟨n, first.pos, by rw [old, named]⟩
  · exact ⟨1, Nat.le_refl 1, by rw [new, disambiguate_one]⟩

/-- It is the turn of an old member to be named again. Those before it have the names they had. -/
structure Turn (l l' : List α) (key name key' name' : α → String) (before : List α) (x : α)
    (after : List α) : Prop where
  named : Assigns l key name
  again : Assigns l' key' name'
  carried : ∀ y ∈ l', y ∈ l → key' y = key y ∨ key' y = name y
  split : l' = before ++ x :: after
  old : x ∈ l
  earlier : ∀ y ∈ before, y ∈ l → name' y = name y

namespace Turn

variable (turn : Turn l l' key name key' name' before x after)

include turn

theorem before_subset (hz : z ∈ before) : z ∈ l' := by
  rw [turn.split]
  exact List.mem_append_left _ hz

theorem mem : x ∈ l' := by
  rw [turn.split]
  simp

theorem ne_of_mem_before (hz : z ∈ before) : z ≠ x := by
  rintro rfl
  have distinct := turn.again.nodup
  rw [turn.split, List.map_append, List.map_cons] at distinct
  exact (List.nodup_append'.mp distinct).2.2 (List.mem_map_of_mem hz) List.mem_cons_self

/-- A newcomer that has a form of the key of `x` as name comes with that key, or with that form. -/
theorem key_of_newcomer {m : Nat} (hz : z ∈ l') (form : name' z = disambiguate (key' x) m) :
    key' z = key' x ∨ 1 < m ∧ disambiguate (key' x) m ∈ l'.map key' := by
  obtain ⟨_, _, j, _, named, first⟩ := turn.again.spec hz
  rw [named] at form
  rcases Nat.lt_or_ge 1 j with many | one
  · rcases Nat.lt_or_ge 1 m with manyM | oneM
    · exact .inl (disambiguate_inj many manyM form).1
    · rw [disambiguate_of_le oneM] at form
      refine absurd ?_ (first.not_reserved many)
      rw [form]
      exact List.mem_map_of_mem turn.mem
  · rw [disambiguate_of_le one] at form
    rcases Nat.lt_or_ge 1 m with manyM | oneM
    · refine .inr ⟨manyM, ?_⟩
      rw [← form]
      exact List.mem_map_of_mem hz
    · exact .inl (by rw [form, disambiguate_of_le oneM])

/-- The number of the form that a member before has as name was the first free one at its own turn. -/
theorem number_spec {number : α → Nat} (numbered : ∀ before z after, l' = before ++ z :: after →
    name' z = disambiguate (key' z) (number z) ∧
      FirstFree (l'.map key') (before.map name') (key' z) (number z)) (hz : z ∈ before) :
    name' z = disambiguate (key' z) (number z) ∧
    ∃ earlier ⊆ before, FirstFree (l'.map key') (earlier.map name') (key' z) (number z) := by
  obtain ⟨earlier, later, eq⟩ := List.append_of_mem hz
  have split : l' = earlier ++ z :: (later ++ x :: after) := by
    rw [turn.split, eq]
    simp
  obtain ⟨named, first⟩ := numbered earlier z _ split
  refine ⟨named, earlier, ?_, first⟩
  rw [eq]
  exact List.subset_append_left ..

end Turn

/-! ## Newcomers and gaps -/

variable [DecidableEq α]

instance (reserved issued : List String) (key : String) : DecidablePred (Taken reserved issued key) :=
  fun _ => inferInstanceAs (Decidable (_ ∨ _))

/-- Whether a number is free for a key, as far as the names go that old members of the list have, and the
reserved keys. -/
def IsGap (l before : List α) (name : α → String) (reserved : List String) (key : String) (m : Nat) :
    Prop :=
  ¬ Taken reserved ((before.filter (· ∈ l)).map name) key m

instance (l before : List α) (name : α → String) (reserved : List String) (key : String) :
    DecidablePred (IsGap l before name reserved key) :=
  fun _ => inferInstanceAs (Decidable (¬ _))

/-- The members before, new to the list, that come with a key. -/
def newcomers (l before : List α) (key' : α → String) (key : String) : List α :=
  before.filter fun z => z ∉ l ∧ key' z = key

theorem mem_newcomers {k : String} :
    z ∈ newcomers l before key' k ↔ z ∈ before ∧ z ∉ l ∧ key' z = k := by
  simp [newcomers, List.mem_filter]

namespace Turn

variable (turn : Turn l l' key name key' name' before x after) {number : α → Nat}
  (numbered : ∀ before z after, l' = before ++ z :: after →
    name' z = disambiguate (key' z) (number z) ∧
      FirstFree (l'.map key') (before.map name') (key' z) (number z))

include turn

theorem taken_of_not_isGap {m : Nat}
    (taken : ¬ IsGap l before name (l'.map key') (key' x) m) :
    Taken (l'.map key') (before.map name') (key' x) m := by
  refine (not_not.mp taken).imp_left fun issued => ?_
  obtain ⟨y, hy, same⟩ := List.mem_map.mp issued
  have kept := List.mem_filter.mp hy
  rw [← same, ← turn.earlier y kept.1 (by simpa using kept.2)]
  exact List.mem_map_of_mem kept.1

include numbered

/-- A form of the key of `x` is taken if old members and reserved keys leave no gap there, or a newcomer
has picked it. -/
theorem taken_iff {m : Nat} (pos : 1 ≤ m) : Taken (l'.map key') (before.map name') (key' x) m ↔
    ¬ IsGap l before name (l'.map key') (key' x) m ∨
      m ∈ (newcomers l before key' (key' x)).map number := by
  constructor
  · rintro (issued | reserved)
    · obtain ⟨y, hy, same⟩ := List.mem_map.mp issued
      by_cases old : y ∈ l
      · refine .inl (not_not.mpr (.inl ?_))
        rw [← same, turn.earlier y hy old]
        exact List.mem_map_of_mem (List.mem_filter.mpr ⟨hy, by simpa using old⟩)
      · rcases turn.key_of_newcomer (turn.before_subset hy) same with key | reserved
        · right
          obtain ⟨named, _, _, first⟩ := turn.number_spec numbered hy
          rw [named, key] at same
          rw [← disambiguate_number_inj first.pos pos same]
          exact List.mem_map_of_mem (mem_newcomers.mpr ⟨hy, old, key⟩)
        · exact .inl (not_not.mpr (.inr reserved))
    · exact .inl (not_not.mpr (.inr reserved))
  · rintro (taken | picked)
    · exact turn.taken_of_not_isGap taken
    · obtain ⟨z, hz, rfl⟩ := List.mem_map.mp picked
      obtain ⟨hz, _, key⟩ := mem_newcomers.mp hz
      refine .inl ?_
      rw [← key, ← (turn.number_spec numbered hz).1]
      exact List.mem_map_of_mem hz

/-- What newcomers pick are gaps, and each picks the first one that is left. -/
theorem isGap_of_pick {j : Nat} (picked : j ∈ (newcomers l before key' (key' x)).map number) :
    (1 ≤ j ∧ IsGap l before name (l'.map key') (key' x) j) ∧
      ∀ m, 1 ≤ m → m < j → IsGap l before name (l'.map key') (key' x) m →
        m ∈ (newcomers l before key' (key' x)).map number := by
  obtain ⟨z, hz, rfl⟩ := List.mem_map.mp picked
  obtain ⟨hz, new, key⟩ := mem_newcomers.mp hz
  obtain ⟨named, earlier, sub, first⟩ := turn.number_spec numbered hz
  rw [key] at named first
  refine ⟨⟨first.pos, ?_⟩, fun m pos less isGap => ?_⟩
  · rintro (issued | reserved)
    · obtain ⟨y, hy, same⟩ := List.mem_map.mp issued
      obtain ⟨hy, old⟩ := List.mem_filter.mp hy
      have old : y ∈ l := by simpa using old
      rw [← turn.earlier y hy old, ← named] at same
      have : y = z := turn.again.inj (turn.before_subset hy) (turn.before_subset hz) same
      exact new (this ▸ old)
    · exact first.not_reserved reserved.1 reserved.2
  · have taken : Taken (l'.map key') (before.map name') (key' x) m :=
      (first.least m pos less).imp_left fun issued => List.map_subset name' sub issued
    exact ((turn.taken_iff numbered pos).mp taken).resolve_left (not_not.mpr isGap)

theorem picks_nodup : ((newcomers l before key' (key' x)).map number).Nodup := by
  have distinct : before.Nodup := by
    have all := turn.again.nodup.of_map
    rw [turn.split] at all
    exact (List.nodup_append'.mp all).1
  refine (distinct.filter _).map_on ?_
  intro y hy z hz same
  obtain ⟨hy, _, keyY⟩ := mem_newcomers.mp hy
  obtain ⟨hz, _, keyZ⟩ := mem_newcomers.mp hz
  refine turn.again.inj (turn.before_subset hy) (turn.before_subset hz) ?_
  rw [(turn.number_spec numbered hy).1, (turn.number_spec numbered hz).1, keyY, keyZ, same]

/-- The `n`-th form of its key is the first free one for `x` just if it is a gap, and newcomers picked all
gaps below it but not this one. -/
theorem firstFree_iff {n : Nat} (pos : 1 ≤ n) :
    FirstFree (l'.map key') (before.map name') (key' x) n ↔
      IsGap l before name (l'.map key') (key' x) n ∧
      n ∉ (newcomers l before key' (key' x)).map number ∧
      ∀ m, 1 ≤ m → m < n → IsGap l before name (l'.map key') (key' x) m →
        m ∈ (newcomers l before key' (key' x)).map number := by
  constructor
  · intro first
    refine ⟨fun taken => ?_, fun picked => ?_, fun m posM less isGap => ?_⟩
    · exact first.free (turn.taken_of_not_isGap (not_not.mpr taken))
    · exact first.free ((turn.taken_iff numbered pos).mpr (.inr picked))
    · exact ((turn.taken_iff numbered posM).mp (first.least m posM less)).resolve_left (not_not.mpr isGap)
  · rintro ⟨here, absent, filled⟩
    refine ⟨pos, fun taken => ?_, fun m posM less => (turn.taken_iff numbered posM).mpr ?_⟩
    · exact ((turn.taken_iff numbered pos).mp taken).elim (fun no => no here) absent
    · by_cases isGap : IsGap l before name (l'.map key') (key' x) m
      · exact .inr (filled m posM less isGap)
      · exact .inl isGap

omit numbered

/-- No old member but `x` stands in the way of its name. -/
theorem isGap_iff {n : Nat} (form : name x = disambiguate (key' x) n) :
    IsGap l before name (l'.map key') (key' x) n ↔ (2 ≤ n → ∀ z ∈ l', z ∉ l → key' z ≠ name x) := by
  constructor
  · intro isGap many z hz _ same
    refine isGap (.inr ⟨many, ?_⟩)
    rw [← form, ← same]
    exact List.mem_map_of_mem hz
  · intro free
    rintro (issued | ⟨many, reserved⟩)
    · obtain ⟨y, hy, same⟩ := List.mem_map.mp issued
      obtain ⟨hy, old⟩ := List.mem_filter.mp hy
      rw [← form] at same
      exact turn.ne_of_mem_before hy (turn.named.inj (by simpa using old) turn.old same)
    · obtain ⟨y, hy, same⟩ := List.mem_map.mp reserved
      rw [← form] at same
      by_cases old : y ∈ l
      · have key : name x = key' x := by
          rcases turn.carried y hy old with oldKey | oldName
          · have first := turn.named.number_le_one turn.old old (by rw [← same, oldKey])
            rcases turn.carried x turn.mem turn.old with key | name
            · rw [first, key]
            · exact name.symm
          · have : y = x := turn.named.inj old turn.old (by rw [← oldName, same])
            rw [← same, this]
        rw [key] at form
        exact disambiguate_ne_self many form.symm
      · exact free many y hy old same

/-- An old member gets its name again just if the newcomers with its key are as many as the gaps below the
number of its name, and its name, if it is numbered, is no key of a newcomer. -/
theorem renamed_iff {n : Nat} (pos : 1 ≤ n) (form : name x = disambiguate (key' x) n) :
    name' x = name x ↔
      (newcomers l before key' (key' x)).length =
          (numbersBelow n (IsGap l before name (l'.map key') (key' x))).length ∧
        (2 ≤ n → ∀ z ∈ l', z ∉ l → key' z ≠ name x) := by
  obtain ⟨number, numbered⟩ := turn.again.exists_number
  obtain ⟨named, first⟩ := numbered before x after turn.split
  have renamed : name' x = name x ↔ FirstFree (l'.map key') (before.map name') (key' x) n := by
    constructor
    · intro same
      rw [named, form] at same
      rwa [← disambiguate_number_inj first.pos pos same]
    · intro firstN
      rw [named, form, first.unique firstN]
  have picks := fun j => turn.isGap_of_pick numbered (j := j)
  rw [renamed, turn.firstFree_iff numbered pos, ← turn.isGap_iff form, and_comm]
  refine and_congr_left fun here => ?_
  rw [← List.length_map number]
  exact picks_fill_iff (turn.picks_nodup numbered) (fun j hj => (picks j hj).1)
    (fun j hj => (picks j hj).2) pos here

end Turn

/-- What it takes for an old member to get its name again, the `n`-th form of its key: newcomers fill the
gaps below, no fewer and no more, and none of them reserves the name. -/
structure Renews (l l' before : List α) (key' name : α → String) (x : α) (n : Nat) : Prop where
  filled : (newcomers l before key' (key' x)).length =
    (numbersBelow n (IsGap l before name (l'.map key') (key' x))).length
  unreserved : 2 ≤ n → ∀ z ∈ l', z ∉ l → key' z ≠ name x

/-- All old members get their names again just if each does when its turn comes. -/
theorem Assigns.renamed_iff (h : Assigns l key name) (h' : Assigns l' key' name')
    (carried : ∀ x ∈ l', x ∈ l → key' x = key x ∨ key' x = name x) :
    (∀ x ∈ l', x ∈ l → name' x = name x) ↔
      ∀ before x after, l' = before ++ x :: after → x ∈ l →
        ∀ n, 1 ≤ n → name x = disambiguate (key' x) n → Renews l l' before key' name x n := by
  constructor
  · intro kept before x after eq old n pos form
    have turn : Turn l l' key name key' name' before x after :=
      ⟨h, h', carried, eq, old, fun y hy => kept y (by rw [eq]; exact List.mem_append_left _ hy)⟩
    obtain ⟨filled, unreserved⟩ := (turn.renamed_iff pos form).mp (kept x turn.mem old)
    exact ⟨filled, unreserved⟩
  · intro renews
    -- Where the members before have their names again, the next one's turn has come.
    suffices ∀ before after, l' = before ++ after → ∀ y ∈ before, y ∈ l → name' y = name y from
      this l' [] (by simp)
    intro before
    induction before using List.reverseRecOn with
    | nil => exact fun _ _ y hy => absurd hy List.not_mem_nil
    | append_singleton before x ih =>
        intro after eq y hy old
        have eq' : l' = before ++ x :: after := by simpa using eq
        have earlier := ih (x :: after) eq'
        rcases List.mem_append.mp hy with hy | hy
        · exact earlier y hy old
        · obtain rfl := List.mem_singleton.mp hy
          have turn : Turn l l' key name key' name' before y after :=
            ⟨h, h', carried, eq', old, earlier⟩
          obtain ⟨n, pos, form⟩ := h.exists_form old (carried y turn.mem old)
          have renewed := renews before y after eq' old n pos form
          exact (turn.renamed_iff pos form).mpr ⟨renewed.filled, renewed.unreserved⟩

end

end SvgForm.UniqueKeys
